import EmuChef.Authored.Document
import EmuChef.Executor.PermissionStep
import EmuChef.Lib.TextPath
import EmuChef.Planner.Selection

/-! The values of the inputs of a plan: the layers that supply them, the checks of a value, and
the runtime values that a plan carries. -/

namespace EmuChef.Planner

open Executor (isWhitespace)

section

inductive HostPathKind where
  | file
  | directory
  | other
  deriving DecidableEq

/-- What planning asks of the host: its files, its directories and the case mapping of its texts. -/
structure Host where
  pathKind : String → Option HostPathKind
  canonicalize : String → Option String
  home : Option String
  currentDirectory : Option String
  lowercase : String → String

variable (host : Host)

def isAbsolute (path : String) : Bool := path.toList.head? = some '/'

def joinPath (base path : String) : String :=
  if isAbsolute path = true ∨ base.toList.getLast? = some '/' ∨ base = "" then
    if isAbsolute path then path else base ++ path
  else base ++ "/" ++ path

def expandUserPath (rawValue : String) : String :=
  if rawValue = "~" then host.home.getD rawValue
  else
    match Split.stripLead ['~', '/'] rawValue.toList with
    | none => rawValue
    | some rest => (host.home.map fun home => joinPath home (String.ofList rest)).getD rawValue

def normalizePathString (rawValue : String) : String :=
  let expanded := expandUserPath host rawValue
  if isAbsolute expanded then expanded
  else (host.currentDirectory.map fun directory => joinPath directory expanded).getD expanded

def trim (text : String) : String :=
  String.ofList ((text.toList.dropWhile isWhitespace).reverse.dropWhile isWhitespace).reverse

def pathExtension (path : String) : Option String :=
  match (TextPath.components path).getLast? with
  | some (.normal name) =>
      match Split.rsplitOnce '.' name.toList with
      | some (stem, extension) => if stem = [] then none else some (String.ofList extension)
      | none => none
  | _ => none

def normalizeAllowedExtension (extension : String) : Option String :=
  let normalized := host.lowercase (trim extension)
  if normalized = "" then none
  else if normalized.toList.head? = some '.' then some normalized
  else some ("." ++ normalized)

def extensionIsDisallowed (rawPath : String) (allowedExtensions : List String) : Bool :=
  match pathExtension rawPath with
  | none => false
  | some extension =>
      "." ++ host.lowercase extension ∉ allowedExtensions.filterMap (normalizeAllowedExtension host)

def pathHasPrefix (path lead : String) : Bool :=
  match Split.stripLead lead.toList path.toList with
  | some rest => rest = [] || rest.head? = some '/'
  | none => false

end

section

def scalarInputValueMatches (typeName : String) (value : Json) : Bool :=
  match typeName with
  | "string" | "enum" | "file" | "directory" | "path" | "device_path" => value.isString
  | "integer" => value.isInteger64
  | "boolean" => value.isBoolean
  | "object" => value.isObject
  | "string_list" | "path_list" => value.isArray
  | _ => false

def valueMatchesType (declaration : InputDeclaration) (value : Json) : Bool :=
  if declaration.multiple then
    value.asArray.any fun items => items.all (scalarInputValueMatches declaration.typeName)
  else
    match declaration.typeName with
    | "string_list" | "path_list" => value.asArray.any fun items => items.all Json.isString
    | typeName => scalarInputValueMatches typeName value

def bindingItems (declaration : InputDeclaration) (value : Json) : List Json :=
  if declaration.multiple ∨ declaration.typeName = "string_list" ∨ declaration.typeName = "path_list"
  then value.asArray.getD []
  else [value]

def inputUsesHostPath (typeName : String) : Bool :=
  typeName = "file" || typeName = "directory" || typeName = "path" || typeName = "path_list"

variable (host : Host)

def normalizeBindingItem : Json → Json
  | .string path => .string (normalizePathString host path)
  | other => other

def normalizeBindingValue (declaration : InputDeclaration) (value : Json) : Json :=
  if declaration.typeName = "file" ∨ declaration.typeName = "directory" ∨
      declaration.typeName = "path" then
    if declaration.multiple then
      match value with
      | .array items => .array (items.map (normalizeBindingItem host))
      | other => other
    else normalizeBindingItem host value
  else value

def bindingFailure (code message inputId : String) (details : List (String × Json)) :
    PlannerMessage :=
  ⟨code, "Input '" ++ inputId ++ "' " ++ message, .object ([("input_id", .string inputId)] ++ details)⟩

def entryIndex (index : Nat) : String × Json := ("entry_index", .integer index)

def expectedPathKind (declaration : InputDeclaration) : Option String :=
  declaration.validation.pathKind.or
    (match declaration.typeName with
      | "file" => some "file"
      | "directory" => some "directory"
      | _ => none)

def HostPathKind.matchesKind (kind : HostPathKind) : Option String → Bool
  | some "file" => kind = .file
  | some "directory" => kind = .directory
  | _ => true

def validateExistingPath (inputId : String) (declaration : InputDeclaration) (index : Nat)
    (path : String) : List PlannerMessage :=
  let expected := expectedPathKind declaration
  let failure (code : String) := bindingFailure code
    ("must reference an existing " ++ expected.getD "host path" ++ ".") inputId
    [("expected_path_kind", (expected.map Json.string).getD .null), entryIndex index]
  match host.pathKind path with
  | some kind => if kind.matchesKind expected then [] else [failure "binding_path_kind_mismatch"]
  | none => [failure "binding_path_missing"]

def validateBindingPath (inputId : String) (declaration : InputDeclaration) (index : Nat)
    (path : String) : List PlannerMessage :=
  let validation := declaration.validation
  (if validation.mustExist ∧ inputUsesHostPath declaration.typeName then
    validateExistingPath host inputId declaration index path else []) ++
  (if validation.allowedPrefixes ≠ [] ∧ !validation.allowedPrefixes.any (pathHasPrefix path) then
    [bindingFailure "binding_validation_failed" "is outside its allowed path prefixes." inputId
      [("allowed_prefixes", Json.strings validation.allowedPrefixes), entryIndex index]] else []) ++
  (if validation.allowedExtensions ≠ [] ∧
      extensionIsDisallowed host path validation.allowedExtensions then
    [bindingFailure "binding_extension_unsupported" "has an unsupported path extension." inputId
      [("allowed_extensions", Json.strings validation.allowedExtensions), entryIndex index]] else [])

def pathIdentity (path : String) : List TextPath.Component :=
  TextPath.components ((host.canonicalize path).getD (normalizePathString host path))

def validateBindingItems (inputId : String) (declaration : InputDeclaration)
    (canonicalPaths : OrderedMap (List TextPath.Component) Nat) (index : Nat) :
    List Json → List PlannerMessage
  | [] => []
  | value :: rest =>
      if declaration.typeName = "enum" ∧ !declaration.options.any (·.equal value) then
        bindingFailure "binding_validation_failed" "must use a declared enum option." inputId
            [("expected", .array declaration.options)] ::
          validateBindingItems inputId declaration canonicalPaths (index + 1) rest
      else
        match value.asStr with
        | none => validateBindingItems inputId declaration canonicalPaths (index + 1) rest
        | some path =>
            let errors := validateBindingPath host inputId declaration index path
            if inputUsesHostPath declaration.typeName then
              let identity := pathIdentity host path
              let duplicates := (canonicalPaths.get? identity).toList.map fun first =>
                bindingFailure "binding_duplicate_path" "contains the same path more than once."
                  inputId [entryIndex index, ("first_entry_index", .integer first)]
              errors ++ duplicates ++ validateBindingItems inputId declaration
                (canonicalPaths.insert identity index) (index + 1) rest
            else errors ++ validateBindingItems inputId declaration canonicalPaths (index + 1) rest

def validateBindingValue (inputId : String) (declaration : InputDeclaration) (value : Json) :
    List PlannerMessage :=
  if !valueMatchesType declaration value then
    [bindingFailure "binding_validation_failed"
      ("requires a value compatible with type '" ++ declaration.typeName ++ "'.") inputId
      [("expected_type", .string declaration.typeName)]]
  else
    let values := bindingItems declaration value
    if declaration.required ∧ values = [] then
      [bindingFailure "binding_validation_failed" "requires at least one value." inputId []]
    else validateBindingItems host inputId declaration .empty 0 values

end

section

inductive BindingSource where
  | explicit
  | userConfiguration
  | devicePlan
  | recipeDefault
  deriving DecidableEq

structure ResolvedInputBinding where
  key : String
  recipeId : String
  inputId : String
  typeName : String
  value : Option Json
  source : Option BindingSource

/-- The three layers of bindings, of which the first one that has a key supplies its value. -/
structure BindingLayers where
  explicit : OrderedMap String Json
  userConfiguration : OrderedMap String Json
  devicePlan : OrderedMap String Json

structure BindingResolution where
  resolvedInputs : List ResolvedInputBinding
  diagnostics : List PlannerMessage

variable (host : Host) (recipes : OrderedMap String Authored.Recipe) (expandedRecipeRefs : List String)

def splitBindingKey (key : String) : Option (String × String) :=
  (Split.splitOnce ['/'] key.toList).bind fun parts =>
    if parts.1 = [] ∨ parts.2 = [] ∨ '/' ∈ parts.2 then none
    else some (String.ofList parts.1, String.ofList parts.2)

def unknownBinding (key message : String) : PlannerMessage :=
  ⟨"unknown_binding", "Binding '" ++ key ++ "' " ++ message, .object [("input_id", .string key)]⟩

def bindingKeyErrors (key : String) : List PlannerMessage :=
  match splitBindingKey key with
  | none => [unknownBinding key "is not a qualified recipe input key."]
  | some (recipeId, inputId) =>
      match recipes.get? recipeId with
      | none => [unknownBinding key "references an unknown recipe."]
      | some recipe =>
          if !recipe.inputs.contains inputId then
            [unknownBinding key "references an unknown input."]
          else if recipeId ∉ expandedRecipeRefs then
            [⟨"binding_recipe_not_selected",
              "Binding '" ++ key ++ "' is outside the selected recipe dependency set.",
              .object [("input_id", .string key)]⟩]
          else []

def layerErrors (bindings : OrderedMap String Json) : List PlannerMessage :=
  (bindings.keys.insertionSort (· ≤ ·)).flatMap (bindingKeyErrors recipes expandedRecipeRefs)

def rawBinding (layers : BindingLayers) (key : String) (declaration : InputDeclaration) :
    Option (Json × BindingSource) :=
  ((layers.explicit.get? key).map (·, .explicit)).or
    (((layers.userConfiguration.get? key).map (·, .userConfiguration)).or
      (((layers.devicePlan.get? key).map (·, .devicePlan)).or
        (if declaration.default.isNull then none else some (declaration.default, .recipeDefault))))

def resolveInput (layers : BindingLayers) (recipeId inputId : String)
    (declaration : InputDeclaration) : ResolvedInputBinding :=
  let key := makeExecutionInputId recipeId inputId
  let raw := rawBinding layers key declaration
  { key := key
    recipeId := recipeId
    inputId := inputId
    typeName := declaration.typeName
    value := raw.map fun found => normalizeBindingValue host declaration found.1
    source := raw.map Prod.snd }

def resolvedInputErrors (declaration : InputDeclaration) (resolved : ResolvedInputBinding) :
    List PlannerMessage :=
  match resolved.value with
  | some value => validateBindingValue host resolved.key declaration value
  | none =>
      if declaration.required then
        [⟨"binding_missing", "Required binding '" ++ resolved.key ++ "' is missing.",
          .object [("input_id", .string resolved.key)]⟩]
      else []

def declaredInputs : List (String × String × InputDeclaration) :=
  expandedRecipeRefs.flatMap fun recipeId =>
    (recipes.get? recipeId).toList.flatMap fun recipe =>
      recipe.inputs.entries.map fun entry => (recipeId, entry.1, entry.2)

def resolveRuntimeBindings (layers : BindingLayers) : BindingResolution :=
  let resolved := (declaredInputs recipes expandedRecipeRefs).map fun (recipeId, inputId, declaration) =>
    (declaration, resolveInput host layers recipeId inputId declaration)
  { resolvedInputs := resolved.map Prod.snd
    diagnostics :=
      [layers.explicit, layers.userConfiguration, layers.devicePlan].flatMap
          (layerErrors recipes expandedRecipeRefs) ++
        resolved.flatMap fun entry => resolvedInputErrors host entry.1 entry.2 }

def effectiveInputBindings (resolvedInputs : List ResolvedInputBinding) : OrderedMap String Json :=
  .ofList (resolvedInputs.filterMap fun resolved => resolved.value.map fun value =>
    (resolved.key, value))

end

section

variable (host : Host)

def bindingValue (declaration : InputDeclaration) (inputId : String)
    (inputBindings : OrderedMap String Json) : Option Json :=
  ((inputBindings.get? inputId).or
    (if declaration.default.isNull then none else some declaration.default)).map
      (normalizeBindingValue host declaration)

def multipleRuntimeType (typeName : String) : String × Option String :=
  match typeName with
  | "string" | "enum" => ("string_list", none)
  | "device_path" => ("path_list", some "device")
  | _ => ("path_list", some "host")

def singleRuntimeType (typeName : String) : String × Option String :=
  match typeName with
  | "file" => ("file_path", some "host")
  | "directory" => ("directory_path", some "host")
  | "path" => ("path", some "host")
  | "device_path" => ("device_path", some "device")
  | "enum" | "string" => ("string", none)
  | "integer" => ("integer", none)
  | "boolean" => ("boolean", none)
  | "string_list" => ("string_list", none)
  | "path_list" => ("path_list", some "host")
  | "object" => ("object", none)
  | _ => ("null", none)

def bindingToRuntimeValue (declaration : InputDeclaration) (value : Json) : RuntimeValue :=
  let runtimeType := if declaration.multiple then multipleRuntimeType declaration.typeName
    else singleRuntimeType declaration.typeName
  ⟨runtimeType.1, value, runtimeType.2⟩

def emitExecutionInput (recipes : OrderedMap String Authored.Recipe)
    (inputBindings : OrderedMap String Json) (inputId : String) : Option ExecutionInputValue :=
  (splitQualifiedId inputId).bind fun (recipeId, localInputId) =>
    (recipes.get? recipeId).bind fun recipe =>
      (recipe.inputs.get? localInputId).bind fun declaration =>
        (bindingValue host declaration inputId inputBindings).map fun value =>
          ⟨inputId, bindingToRuntimeValue declaration value⟩

def emitExecutionInputs (recipes : OrderedMap String Authored.Recipe) (inputIds : List String)
    (inputBindings : OrderedMap String Json) : List ExecutionInputValue :=
  inputIds.filterMap (emitExecutionInput host recipes inputBindings)

end

end EmuChef.Planner
