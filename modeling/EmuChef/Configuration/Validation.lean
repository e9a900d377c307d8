import EmuChef.Configuration.Expansion

/-! The checks of a saved configuration against the Recipes of a catalog. -/

namespace EmuChef.Configuration

open Planner (InputDeclaration valueMatchesType bindingItems makeExecutionInputId isAbsolute)

def pathHasPrefix (path lead : String) : Bool :=
  (lead = "/" && isAbsolute path) || Planner.pathHasPrefix path lead

def bindingDiagnostic (code key message : String) (details : List (String × Json)) : Json :=
  configurationDiagnostic code ("Binding '" ++ key ++ "' " ++ message) (some key)
    "user_configuration" details

def validateSavedItem (key : String) (input : InputDeclaration) (item : Json) : List Json :=
  (if input.typeName = "enum" ∧ !input.options.any (·.equal item) then
    [bindingDiagnostic "invalid_enum_value" key "is not a declared enum option."
      [("expected", .array input.options)]] else []) ++
  match item.asStr with
  | some path =>
      if input.validation.allowedPrefixes ≠ [] ∧
          !input.validation.allowedPrefixes.any (pathHasPrefix path) then
        [bindingDiagnostic "invalid_path_prefix" key "is outside its allowed path prefixes."
          [("allowedPrefixes", Json.strings input.validation.allowedPrefixes)]]
      else []
  | none => []

def validateSavedValue (key : String) (input : InputDeclaration) (value : Json) : List Json :=
  if valueMatchesType input value then
    (bindingItems input value).flatMap (validateSavedItem key input)
  else
    [bindingDiagnostic "incompatible_binding_type" key "is incompatible with its declared input type."
      [("expectedType", .string input.typeName)]]

variable (recipes : OrderedMap String Authored.Recipe)

def savedBindingDiagnostics (effectiveRecipes : List String) (key : String) (value : Json) :
    List Json :=
  match Split.splitOnce ['/'] key.toList with
  | none => []
  | some (recipeLetters, inputLetters) =>
      let recipeId := String.ofList recipeLetters
      match recipes.get? recipeId with
      | none => [bindingDiagnostic "unknown_recipe" key "references an unknown recipe." []]
      | some recipe =>
          match recipe.inputs.get? (String.ofList inputLetters) with
          | none => [bindingDiagnostic "unknown_input" key "references an unknown input." []]
          | some input =>
              (if recipeId ∈ effectiveRecipes then []
                else [bindingDiagnostic "binding_recipe_not_selected" key
                  "is outside the selected recipe dependency set." []]) ++
              validateSavedValue key input value

def missingRequiredInput (configuration : UserConfiguration) (deviceOverrides : OrderedMap String Json)
    (recipeId inputId : String) (input : InputDeclaration) : List Json :=
  let key := makeExecutionInputId recipeId inputId
  if input.required ∧ !configuration.bindings.contains key ∧ !deviceOverrides.contains key ∧
      input.default.isNull then
    [configurationDiagnostic "missing_required_input"
      ("Required input '" ++ key ++ "' has no value.") (some key) "missing"
      [("expectedType", .string input.typeName)]]
  else []

/-- The diagnostics of a saved configuration. `devicePlanParts` are the input bindings that its
device plan sets, or the code and the message of the error of loading that plan. -/
def validateWithRecipes (configuration : UserConfiguration)
    (devicePlanParts : Except (String × String) (OrderedMap String Json)) : List Json :=
  let expansion := expandSelectedRecipes recipes configuration.selectedRecipes
  let loaded := match devicePlanParts with
    | .ok deviceOverrides => (deviceOverrides, [])
    | .error (code, message) =>
        (.empty, [configurationDiagnostic code message none "user_configuration"
          [("devicePlan", .string configuration.devicePlan)]])
  expansion.diagnostics ++ loaded.2 ++
    (configuration.bindings.entries.flatMap fun entry =>
      savedBindingDiagnostics recipes expansion.expanded entry.1 entry.2) ++
    expansion.expanded.flatMap fun recipeId =>
      (recipes.get? recipeId).toList.flatMap fun recipe =>
        recipe.inputs.entries.flatMap fun entry =>
          missingRequiredInput configuration loaded.1 recipeId entry.1 entry.2

end EmuChef.Configuration
