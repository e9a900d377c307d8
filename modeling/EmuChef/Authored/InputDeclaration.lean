import EmuChef.Planner.Bindings

/-! The checks that the loader of a Recipe makes of a declared input. -/

namespace EmuChef.Authored

open Checks (require)
open Planner (InputDeclaration isAbsolute valueMatchesType)

def singleQuote (value : String) : String :=
  String.ofList (['\''] ++
    value.toList.flatMap (fun letter => if letter = '\'' then ['\\', '\''] else [letter]) ++ ['\''])

def supportedTypes : List String :=
  ["string", "integer", "boolean", "enum", "file", "directory", "path", "device_path",
    "string_list", "path_list", "object"]

def rejectDuplicateOption (inputId : String) (optionValues : List Json) (value : Json) :
    Except String (List Json) := do
  require (¬ optionValues.any (·.equal value) = true)
    ("input " ++ singleQuote inputId ++ " has duplicate option value " ++ value.render)
  return optionValues ++ [value]

def validateInputDeclaration (inputId : String) (input : InputDeclaration) : Except String Unit := do
  let prefixed := "input " ++ singleQuote inputId
  require (input.typeName ∈ supportedTypes)
    (prefixed ++ " has unsupported type " ++ singleQuote input.typeName)
  require (∀ kind ∈ input.validation.pathKind, kind = "file" ∨ kind = "directory")
    (prefixed ++ " validation.path_kind must be 'file' or 'directory'")
  require (∀ lead ∈ input.validation.allowedPrefixes, isAbsolute lead = true)
    (prefixed ++ " validation.allowed_prefixes entries must be absolute paths")
  require (¬ (input.typeName = "enum" ∧ input.options = []))
    ("enum input " ++ singleQuote inputId ++ " requires at least one option")
  let optionValues ← input.options.foldlM (rejectDuplicateOption inputId) []
  require (input.default.isNull = true ∨ valueMatchesType input input.default = true)
    (prefixed ++ " default is incompatible with type " ++ singleQuote input.typeName)
  require (¬ (input.typeName = "enum" ∧ ¬ input.default.isNull = true ∧
      ¬ optionValues.any (·.equal input.default) = true))
    (prefixed ++ " default " ++ input.default.render ++ " is not an enum option")

theorem isAbsolute_of_validated {inputId : String} {input : InputDeclaration}
    (validated : validateInputDeclaration inputId input = .ok ()) :
    ∀ lead ∈ input.validation.allowedPrefixes, isAbsolute lead = true := by
  obtain ⟨_, _, validated⟩ := Checks.bind_eq_ok.mp validated
  obtain ⟨_, _, validated⟩ := Checks.bind_eq_ok.mp validated
  obtain ⟨_, prefixes, _⟩ := Checks.bind_eq_ok.mp validated
  exact Checks.require_eq_ok.mp prefixes

end EmuChef.Authored
