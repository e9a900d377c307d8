import EmuChef.Configuration.Parse

/-! The tree of the YAML text of a saved configuration, and the edits of an open one. -/

namespace EmuChef.Configuration

open Checks (require)
open Planner (trim)
open Yaml (ofTexts)

section

def snapshotFields (snapshot : SavedContractSnapshot) : List (String × Yaml) :=
  [("id", .string snapshot.id), ("label", .string snapshot.label),
    ("fingerprint", .string snapshot.fingerprint)]

def emitContractSnapshot (snapshot : SavedContractSnapshot) : Yaml :=
  .mapping (ofTexts (snapshotFields snapshot))

def emitInputSnapshot (input : SavedInputContractSnapshot) : Yaml :=
  .mapping (ofTexts
    [("key", .string input.key), ("label", .string input.label),
      ("fingerprint", .string input.fingerprint)])

def emitRecipeSnapshot (recipe : SavedRecipeContractSnapshot) : Yaml :=
  .mapping (ofTexts
    (snapshotFields ⟨recipe.id, recipe.label, recipe.fingerprint⟩ ++
      [("selected", .bool recipe.selected),
        ("inputs", .sequence (recipe.inputs.map emitInputSnapshot))]))

def compatibilityFields (compatibility : SavedCompatibilityBaseline) : List (String × Yaml) :=
  [("device_plan", emitContractSnapshot compatibility.devicePlan),
    ("recipes", .sequence (compatibility.recipes.map emitRecipeSnapshot))]

def emitCompatibility (compatibility : SavedCompatibilityBaseline) : Yaml :=
  .mapping (ofTexts (compatibilityFields compatibility))

def emitBinding (binding : String × Json) : String × Yaml :=
  (binding.1, .mapping (ofTexts [("value", jsonToYaml binding.2)]))

variable (configuration : UserConfiguration)

def knownEntries : List (String × Yaml) :=
  [("schema_version", .integer configuration.schemaVersion),
    ("kind", .string configuration.kind),
    ("id", .string configuration.id),
    ("name", .string configuration.name),
    ("device_plan", .string configuration.devicePlan),
    ("selected_recipes", .sequence (configuration.selectedRecipes.map .string)),
    ("bindings", .mapping (ofTexts ((sortKeys configuration.bindings.entries).map emitBinding)))] ++
  (configuration.compatibility.map fun held => ("compatibility", emitCompatibility held)).toList

def extensionEntries : List (String × Yaml) :=
  ((sortKeys configuration.extensions.entries).filter (·.1 ∉ knownFields)).map
    fun entry => (entry.1, jsonToYaml entry.2)

def emittedFields : List (String × Yaml) :=
  knownEntries configuration ++ extensionEntries configuration

def emitUserConfiguration : Yaml := .mapping (ofTexts (emittedFields configuration))

end

section

inductive Edit where
  | setBinding (key : String) (value : Option Json)
  | setSelectedRecipes (selectedRecipes : List String)
  | setDevicePlan (devicePlan : String)

variable (configuration : UserConfiguration)

def setBinding (key : String) (value : Option Json) :
    Except UserConfigurationLoadError (UserConfiguration × Bool) := do
  validateBindingKey key
  match value with
  | some value =>
      if (configuration.bindings.get? key).any (·.equal value) then pure (configuration, false)
      else pure ({ configuration with bindings := configuration.bindings.insert key value }, true)
  | none =>
      pure ({ configuration with bindings := configuration.bindings.erase key },
        configuration.bindings.contains key)

def setSelectedRecipes (selectedRecipes : List String) :
    Except UserConfigurationLoadError (UserConfiguration × Bool) := do
  selectedRecipes.forM fun recipeId => validateIdentifier recipeId "selected recipe id"
  pure ({ configuration with selectedRecipes }, configuration.selectedRecipes != selectedRecipes)

def setDevicePlan (devicePlan : String) :
    Except UserConfigurationLoadError (UserConfiguration × Bool) := do
  require (trim devicePlan ≠ "") (structural "Device plan must not be empty.")
  pure ({ configuration with devicePlan }, configuration.devicePlan != devicePlan)

def edited : Edit → Except UserConfigurationLoadError (UserConfiguration × Bool)
  | .setBinding key value => setBinding configuration key value
  | .setSelectedRecipes selectedRecipes => setSelectedRecipes configuration selectedRecipes
  | .setDevicePlan devicePlan => setDevicePlan configuration devicePlan

def afterEdit (edit : Edit) : UserConfiguration :=
  match edited configuration edit with
  | .ok (result, _) => result
  | .error _ => configuration

end

end EmuChef.Configuration
