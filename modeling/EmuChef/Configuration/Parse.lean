import EmuChef.Configuration.Document
import EmuChef.Lib.Yaml
import EmuChef.Planner.Bindings

/-! Reading a saved configuration from the tree of its YAML text. -/

namespace EmuChef.Configuration

open Checks (require)
open Planner (trim)

def knownFields : List String :=
  ["schema_version", "kind", "id", "name", "device_plan", "selected_recipes", "bindings",
    "compatibility"]

def valueSourceFields : List String := ["value", "local", "secret"]

def prohibitedAuthorityFields : List String :=
  ["plan", "generated_plan", "plan_digest", "review", "review_handle", "execution",
    "execution_handle", "runtime_generation", "session_generation", "device_serial",
    "device_identity", "diagnostics", "launch_authorization", "report_identity", "credentials",
    "secrets"]

def toAsciiLowercase (text : String) : String := String.ofList (text.toList.map Char.toLower)

def endsWith (trail text : String) : Bool := trail.toList.isSuffixOf text.toList

def prohibitedAuthorityField (key : String) : Bool :=
  let normalized := toAsciiLowercase
    (String.ofList (key.toList.map fun letter => if letter = '-' then '_' else letter))
  normalized ∈ prohibitedAuthorityFields || endsWith "_handle" normalized ||
    endsWith "_generation" normalized

section

variable (mapping : List (Yaml × Yaml)) (key : String)

def requiredMapping : Except UserConfigurationLoadError (List (Yaml × Yaml)) :=
  match Yaml.get? mapping key with
  | some (.mapping value) => .ok value
  | _ => .error (structural ("Required field '" ++ key ++ "' must be a mapping."))

def requiredI64 : Except UserConfigurationLoadError Int :=
  match (Yaml.get? mapping key).bind Yaml.asI64 with
  | some value => .ok value
  | none => .error (structural ("Required field '" ++ key ++ "' must be an integer."))

def requiredNonEmptyString : Except UserConfigurationLoadError String :=
  let stop := structural ("Required field '" ++ key ++ "' must be a non-empty string.")
  match Yaml.get? mapping key with
  | some (.string value) => if trim value = "" then .error stop else .ok value
  | _ => .error stop

def listedIdentifier : Yaml → Except UserConfigurationLoadError String
  | .string value => do
      validateIdentifier value "selected recipe id"
      pure value
  | _ => .error (structural ("Field '" ++ key ++ "' entries must be strings."))

def requiredIdentifierList : Except UserConfigurationLoadError (List String) :=
  match Yaml.get? mapping key with
  | some (.sequence values) => values.mapM (listedIdentifier key)
  | _ => .error (structural ("Required field '" ++ key ++ "' must be a list."))

end

mutual

def yamlToJson : Yaml → Except UserConfigurationLoadError Json
  | .null => .ok .null
  | .bool value => .ok (.bool value)
  | .integer value => .ok (.integer value)
  | .float digits => .ok (.decimal digits)
  -- JSON has no such number; its serializer writes null
  | .nonFinite _ => .ok .null
  | .string text => .ok (.string text)
  | .sequence items => do
      let values ← itemsToJson items
      pure (.array values)
  | .mapping entries => do
      let fields ← entriesToJson entries
      pure (.object (keyed fields))
  | .tagged _ value => yamlToJson value

def itemsToJson : List Yaml → Except UserConfigurationLoadError (List Json)
  | [] => .ok []
  | item :: rest => do
      let value ← yamlToJson item
      let values ← itemsToJson rest
      pure (value :: values)

def entriesToJson : List (Yaml × Yaml) → Except UserConfigurationLoadError (List (String × Json))
  | [] => .ok []
  | entry :: rest => do
      let field ← entryToJson entry
      let fields ← entriesToJson rest
      pure (field :: fields)

def entryToJson : Yaml × Yaml → Except UserConfigurationLoadError (String × Json)
  | (key, value) =>
      match key.asStr with
      | none => .error (structural "Extension object keys must be strings.")
      | some name => do
          let written ← yamlToJson value
          pure (name, written)

end

def jsonToYaml (value : Json) : Yaml := .ofJson value

def rejectUnknownMappingFields (mapping : List (Yaml × Yaml)) (allowed : List String)
    (label : String) : Except UserConfigurationLoadError Unit :=
  mapping.forM fun entry =>
    match entry.1.asStr with
    | none => .error (structural (label ++ " keys must be strings."))
    | some key =>
        require (key ∈ allowed) (structural (label ++ " contains unknown field '" ++ key ++ "'."))

def isAsciiHexdigit (letter : Char) : Bool :=
  ('0' ≤ letter && letter ≤ '9') || ('a' ≤ letter && letter ≤ 'f') || ('A' ≤ letter && letter ≤ 'F')

def requiredFingerprint (mapping : List (Yaml × Yaml)) : Except UserConfigurationLoadError String := do
  let fingerprint ← requiredNonEmptyString mapping "fingerprint"
  -- the source counts bytes, one for each hexadecimal letter
  require (fingerprint.toList.length = 64 ∧ fingerprint.toList.all isAsciiHexdigit)
    (structural "Compatibility fingerprints must be 64 hexadecimal characters.")
  pure (toAsciiLowercase fingerprint)

def parseContractSnapshot (mapping : List (Yaml × Yaml)) (label : String) :
    Except UserConfigurationLoadError SavedContractSnapshot := do
  let id ← requiredNonEmptyString mapping "id"
  validateIdentifier id label
  let shown ← requiredNonEmptyString mapping "label"
  let fingerprint ← requiredFingerprint mapping
  pure ⟨id, shown, fingerprint⟩

def parseInputSnapshot : Yaml → Except UserConfigurationLoadError SavedInputContractSnapshot
  | .mapping input => do
      rejectUnknownMappingFields input ["key", "label", "fingerprint"] "compatibility input"
      let key ← requiredNonEmptyString input "key"
      let label ← requiredNonEmptyString input "label"
      let fingerprint ← requiredFingerprint input
      pure ⟨key, label, fingerprint⟩
  | _ => .error (structural "Compatibility input must be a mapping.")

def listField (mapping : List (Yaml × Yaml)) (key missing wrong : String) :
    Except UserConfigurationLoadError (List Yaml) :=
  match Yaml.get? mapping key with
  | none => .error (structural missing)
  | some (.sequence items) => .ok items
  | some _ => .error (structural wrong)

def selectedField (recipe : List (Yaml × Yaml)) : Except UserConfigurationLoadError Bool :=
  match (Yaml.get? recipe "selected").bind Yaml.asBool with
  | some selected => .ok selected
  | none => .error (structural "Compatibility recipe selected must be a boolean.")

def parseRecipeSnapshot (index : Nat) :
    Yaml → Except UserConfigurationLoadError SavedRecipeContractSnapshot
  | .mapping recipe => do
      rejectUnknownMappingFields recipe ["id", "label", "selected", "fingerprint", "inputs"]
        "compatibility recipe"
      let snapshot ← parseContractSnapshot recipe "compatibility recipe"
      let selected ← selectedField recipe
      let values ← listField recipe "inputs" "Missing compatibility inputs."
        "Compatibility inputs must be a list."
      let inputs ← values.mapM parseInputSnapshot
      pure ⟨snapshot.id, snapshot.label, selected, snapshot.fingerprint, inputs⟩
  | _ => .error (structural ("Compatibility recipe " ++ toString index ++ " must be a mapping."))

def parseCompatibility (mapping : List (Yaml × Yaml)) :
    Except UserConfigurationLoadError SavedCompatibilityBaseline := do
  rejectUnknownMappingFields mapping ["device_plan", "recipes"] "compatibility"
  let devicePlanMapping ← requiredMapping mapping "device_plan"
  let devicePlan ← parseContractSnapshot devicePlanMapping "compatibility.device_plan"
  let values ← listField mapping "recipes" "Missing compatibility recipes."
    "Compatibility recipes must be a list."
  let recipes ← values.zipIdx.mapM fun entry => parseRecipeSnapshot entry.2 entry.1
  pure ⟨devicePlan, recipes⟩

def parseBaseline (mapping : List (Yaml × Yaml)) (schemaVersion : Int) :
    Except UserConfigurationLoadError (Option SavedCompatibilityBaseline) :=
  if schemaVersion = 2 then do
    let compatibilityMapping ← requiredMapping mapping "compatibility"
    let baseline ← parseCompatibility compatibilityMapping
    pure (some baseline)
  else pure none

def fieldKey (key : String) (field : Yaml × Yaml) : Except UserConfigurationLoadError String :=
  match field.1.asStr with
  | some name => .ok name
  | none => .error (structural ("Binding '" ++ key ++ "' fields must be strings."))

def bindingSource (key : String) (entry : List (Yaml × Yaml)) :
    Except UserConfigurationLoadError Yaml := do
  let entryKeys ← entry.mapM (fieldKey key)
  require (entryKeys.all (· ∈ valueSourceFields))
    (structural ("Binding '" ++ key ++ "' contains an unknown field."))
  require ((valueSourceFields.filter (· ∈ entryKeys)).length = 1)
    (structural ("Binding '" ++ key ++ "' must contain exactly one value-source field."))
  require ("value" ∈ entryKeys)
    (structural ("Binding '" ++ key ++ "' uses an unsupported value source."))
  match Yaml.get? entry "value" with
  | some value => .ok value
  -- the only key is a tagged one, where the source panics
  | none => .error (structural "validated value source should exist")

def parseBinding (binding : Yaml × Yaml) : Except UserConfigurationLoadError (String × Json) :=
  match binding.1.asStr with
  | none => .error (structural "Binding keys must be strings.")
  | some key => do
      validateBindingKey key
      match binding.2 with
      | .mapping entry => do
          let source ← bindingSource key entry
          let value ← yamlToJson source
          pure (key, value)
      | _ => .error (structural ("Binding '" ++ key ++ "' must be a mapping."))

def parseBindings (mapping : List (Yaml × Yaml)) :
    Except UserConfigurationLoadError (OrderedMap String Json) := do
  let bindings ← mapping.mapM parseBinding
  pure (.ofList bindings)

def parseExtension (field : Yaml × Yaml) :
    Except UserConfigurationLoadError (Option (String × Json)) :=
  match field.1.asStr with
  | none => .error (structural "User-configuration top-level keys must be strings.")
  | some key => do
      require (!prohibitedAuthorityField key) (structural
        ("User configuration contains prohibited authority field '" ++ key ++ "'."))
      if key ∈ knownFields then pure none
      else do
        let value ← yamlToJson field.2
        pure (some (key, value))

def unsupportedExtension (schemaVersion : Int) (key : String) : Bool :=
  schemaVersion = 1 || !"x-".toList.isPrefixOf key.toList

def parseUserConfigurationMapping (mapping : List (Yaml × Yaml)) :
    Except UserConfigurationLoadError UserConfiguration := do
  let schemaVersion ← requiredI64 mapping "schema_version"
  require (schemaVersion = 1 ∨ schemaVersion = 2) (structural
    ("Unsupported user-configuration schema_version " ++ toString schemaVersion ++ "."))
  let kind ← requiredNonEmptyString mapping "kind"
  require (kind = "user_configuration")
    (structural ("Unsupported user-configuration kind '" ++ kind ++ "'."))
  let id ← requiredNonEmptyString mapping "id"
  validateIdentifier id "user-configuration id"
  let name ← requiredNonEmptyString mapping "name"
  let devicePlan ← requiredNonEmptyString mapping "device_plan"
  let selectedRecipes ← requiredIdentifierList mapping "selected_recipes"
  let bindingsMapping ← requiredMapping mapping "bindings"
  let bindings ← parseBindings bindingsMapping
  let compatibility ← parseBaseline mapping schemaVersion
  let fields ← mapping.mapM parseExtension
  pure {
    schemaVersion, kind, id, name, devicePlan, selectedRecipes, bindings, compatibility
    extensions := .ofList fields.reduceOption
    unsupportedExtensions :=
      (fields.reduceOption.map Prod.fst).filter (unsupportedExtension schemaVersion) }

def parseUserConfigurationValue : Yaml → Except UserConfigurationLoadError UserConfiguration
  | .mapping mapping => parseUserConfigurationMapping mapping
  | _ => .error (structural "User configuration must be a top-level mapping.")

end EmuChef.Configuration
