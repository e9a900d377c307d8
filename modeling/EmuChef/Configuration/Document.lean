import EmuChef.Authored.Identifier

/-! Saved user configurations, the errors of reading one and the diagnostics of checking one. -/

namespace EmuChef.Configuration

inductive UserConfigurationLoadErrorKind where
  | io
  | yaml
  | structural
  deriving DecidableEq

structure UserConfigurationLoadError where
  kind : UserConfigurationLoadErrorKind
  code : String
  message : String
  deriving DecidableEq

def structural (message : String) : UserConfigurationLoadError :=
  ⟨.structural, "user_configuration_structural_invalid", message⟩

def configurationDiagnostic (code message : String) (key : Option String) (provenance : String)
    (details : List (String × Json)) : Json :=
  .object
    [("severity", .string "error"),
      ("code", .string code),
      ("message", .string message),
      ("key", (key.map Json.string).getD .null),
      ("provenance", .string provenance),
      ("details", .object details)]

structure SavedContractSnapshot where
  id : String
  label : String
  fingerprint : String
  deriving DecidableEq

structure SavedInputContractSnapshot where
  key : String
  label : String
  fingerprint : String
  deriving DecidableEq

structure SavedRecipeContractSnapshot where
  id : String
  label : String
  selected : Bool
  fingerprint : String
  inputs : List SavedInputContractSnapshot
  deriving DecidableEq

structure SavedCompatibilityBaseline where
  devicePlan : SavedContractSnapshot
  recipes : List SavedRecipeContractSnapshot
  deriving DecidableEq

structure UserConfiguration where
  schemaVersion : Int
  kind : String
  id : String
  name : String
  devicePlan : String
  selectedRecipes : List String
  bindings : OrderedMap String Json
  compatibility : Option SavedCompatibilityBaseline
  extensions : OrderedMap String Json
  unsupportedExtensions : List String

def isIdentifierStart (letter : Char) : Bool :=
  ('A' ≤ letter && letter ≤ 'Z') || ('a' ≤ letter && letter ≤ 'z') || ('0' ≤ letter && letter ≤ '9')

def isIdentifierLetter (letter : Char) : Bool :=
  isIdentifierStart letter || letter = '.' || letter = '_' || letter = '-'

def isIdentifier (value : String) : Bool :=
  match value.toList with
  | [] => false
  | first :: rest => isIdentifierStart first && rest.all isIdentifierLetter

def validateIdentifier (value label : String) : Except UserConfigurationLoadError Unit :=
  if isIdentifier value then .ok ()
  else .error (structural ("Invalid " ++ label ++ " '" ++ value ++ "'."))

def malformedKey (key : String) : UserConfigurationLoadError :=
  structural ("Malformed qualified binding key '" ++ key ++ "'.")

def validateBindingKey (key : String) : Except UserConfigurationLoadError Unit :=
  match Split.splitOnce ['/'] key.toList with
  | none => .error (malformedKey key)
  | some (recipeId, inputId) =>
      if '/' ∈ inputId ∨ recipeId = [] ∨ inputId = [] then .error (malformedKey key)
      else do
        validateIdentifier (String.ofList recipeId) "binding recipe id"
        validateIdentifier (String.ofList inputId) "binding input id"

example : validateBindingKey "feature.copy_roms/source" = .ok () := by rfl

def UserConfiguration.KeysValid (configuration : UserConfiguration) : Prop :=
  ∀ key ∈ configuration.bindings.keys, validateBindingKey key = .ok ()

end EmuChef.Configuration
