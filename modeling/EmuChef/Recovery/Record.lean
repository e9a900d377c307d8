import EmuChef.Lib.CanonicalJson
import EmuChef.Lib.PrettyJson
import EmuChef.Planner.Bindings

/-! The recovery record: its text, its checks and how it is loaded. -/

namespace EmuChef.Recovery

open Planner (trim)

def recoverySchemaVersion : Nat := 1
def maxRecoveryBytes : Nat := 64 * 1024
def maxRecipes : Nat := 256
def maxBindings : Nat := 512
def maxStringChars : Nat := 4096
def maxValueDepth : Nat := 8
def maxArrayItems : Nat := 256

def maxU64 : Nat := 2 ^ 64 - 1

structure RecoveryRecord where
  schemaVersion : Nat
  generation : Nat
  savedAtEpochMs : Nat
  dirty : Bool
  displayName : Option String
  sourceConfigurationId : Option String
  devicePlan : String
  selectedRecipes : List String
  bindings : OrderedMap String Json
  omittedBindings : List String

def RecoveryRecord.toJson (record : RecoveryRecord) : Json :=
  .object
    ([("schemaVersion", .integer record.schemaVersion),
      ("generation", .integer record.generation),
      ("savedAtEpochMs", .integer record.savedAtEpochMs),
      ("dirty", .bool record.dirty)] ++
    Json.optionalField "displayName" (record.displayName.map .string) ++
    Json.optionalField "sourceConfigurationId" (record.sourceConfigurationId.map .string) ++
    [("devicePlan", .string record.devicePlan),
      ("selectedRecipes", Json.strings record.selectedRecipes),
      ("bindings", .object record.bindings.entries),
      ("omittedBindings", Json.strings record.omittedBindings)])

def recordFields : List String :=
  ["schemaVersion", "generation", "savedAtEpochMs", "dirty", "displayName",
    "sourceConfigurationId", "devicePlan", "selectedRecipes", "bindings", "omittedBindings"]

def asU64 : Json → Option Nat
  | .integer value => if 0 ≤ value ∧ value ≤ maxU64 then some value.toNat else none
  | _ => none

def asBool : Json → Option Bool
  | .bool value => some value
  | _ => none

def asStrings (value : Json) : Option (List String) := value.asArray.bind (·.mapM Json.asStr)

def asMap (value : Json) : Option (OrderedMap String Json) := value.asObject.map .ofList

def optionalText (value : Option Json) : Option (Option String) :=
  match value with
  | none => some none
  | some .null => some none
  | some held => held.asStr.map some

def recordOfFields (fields : List (String × Json)) : Option RecoveryRecord := do
  let held := Json.object fields
  let schemaVersion ← (held.field? "schemaVersion").bind asU64
  let generation ← (held.field? "generation").bind asU64
  let savedAtEpochMs ← (held.field? "savedAtEpochMs").bind asU64
  let dirty ← (held.field? "dirty").bind asBool
  let displayName ← optionalText (held.field? "displayName")
  let sourceConfigurationId ← optionalText (held.field? "sourceConfigurationId")
  let devicePlan ← (held.field? "devicePlan").bind Json.asStr
  let selectedRecipes ← (held.field? "selectedRecipes").bind asStrings
  let bindings ← (held.field? "bindings").bind asMap
  let omittedBindings ← (held.field? "omittedBindings").bind asStrings
  pure {
    schemaVersion, generation, savedAtEpochMs, dirty, displayName, sourceConfigurationId
    devicePlan, selectedRecipes, bindings, omittedBindings }

/-- A record is an object without unknown or repeated fields, or the array of all its values. -/
def recordOfJson : Json → Option RecoveryRecord
  | .object fields =>
      if (fields.map Prod.fst).Nodup ∧ ∀ field ∈ fields, field.1 ∈ recordFields then
        recordOfFields fields
      else none
  | .array items =>
      if items.length = recordFields.length then recordOfFields (recordFields.zip items) else none
  | _ => none

def isAsciiAlphanumeric (letter : Char) : Bool :=
  ('A' ≤ letter && letter ≤ 'Z') || ('a' ≤ letter && letter ≤ 'z') || ('0' ≤ letter && letter ≤ '9')

def validateIdentifier (value : List Char) : Bool :=
  value ≠ [] && value.length ≤ 160 && value.head?.any isAsciiAlphanumeric &&
    value.all fun letter => isAsciiAlphanumeric letter || letter ∈ ['.', '_', '-']

def validateBindingKey (value : String) : Bool :=
  match Split.splitOnce ['/'] value.toList with
  | none => false
  | some (recipe, input) => '/' ∉ input && validateIdentifier recipe && validateIdentifier input

mutual

def validateValue (depth : Nat) : Json → Bool
  | .string value => depth ≤ maxValueDepth && value.toList.length ≤ maxStringChars
  | .array values =>
      depth ≤ maxValueDepth && values.length ≤ maxArrayItems && validateItems (depth + 1) values
  | .object values =>
      depth ≤ maxValueDepth && values.length ≤ maxArrayItems && validateFields (depth + 1) values
  | _ => depth ≤ maxValueDepth

def validateItems (depth : Nat) : List Json → Bool
  | [] => true
  | item :: rest => validateValue depth item && validateItems depth rest

def validateFields (depth : Nat) : List (String × Json) → Bool
  | [] => true
  | field :: rest => validateField depth field && validateFields depth rest

def validateField (depth : Nat) : String × Json → Bool
  | (key, value) => key.toList.length ≤ 256 && validateValue depth value

end

def validateRecord (record : RecoveryRecord) : Bool :=
  record.schemaVersion = recoverySchemaVersion &&
  (record.dirty || record.sourceConfigurationId.isSome) &&
  record.generation ≠ 0 &&
  record.savedAtEpochMs ≠ 0 &&
  record.selectedRecipes.length ≤ maxRecipes &&
  record.bindings.entries.length ≤ maxBindings &&
  record.omittedBindings.length ≤ maxBindings &&
  validateIdentifier record.devicePlan.toList &&
  record.selectedRecipes.all (fun recipe => validateIdentifier recipe.toList) &&
  record.displayName.all (fun name => trim name ≠ "" && name.toList.length ≤ 120) &&
  record.sourceConfigurationId.all (fun identity => validateIdentifier identity.toList) &&
  record.bindings.entries.all (fun entry => validateBindingKey entry.1 && validateValue 0 entry.2) &&
  record.omittedBindings.all (fun key =>
    validateBindingKey key && !record.bindings.contains key) &&
  decide record.omittedBindings.Nodup &&
  record.toJson.render.utf8ByteSize ≤ maxRecoveryBytes

section

inductive Node where
  | absent
  | regular (text : String)
  | other
  deriving DecidableEq

/-- Which of the calls of a load succeed: reading the metadata, reading the file, removing it. -/
structure LoadOutcome where
  metadata : Bool
  read : Bool
  removed : Bool

inductive WriteOutcome where
  | failed
  -- the rename succeeded, but the permissions of the file could not be set
  | replacedThenFailed
  | replaced
  deriving DecidableEq

def Node.remove (file : Node) (removed : Bool) : Node := if removed then .absent else file

/-- What a load gives: the record, the reason why there is none, and the file that is left. -/
structure Loaded where
  record : Option RecoveryRecord
  notice : Option String
  file : Node

def textVersion (value : Json) : Option Nat :=
  ((asMap value).bind (·.get? "schemaVersion")).bind asU64

variable (parse : String → Option Json)

def otherVersion (text : String) : Bool :=
  ((parse text).bind textVersion).any (· ≠ recoverySchemaVersion)

def loadRecord (file : Node) (outcome : LoadOutcome) : Loaded :=
  let refused (notice : String) : Loaded := ⟨none, some notice, file.remove outcome.removed⟩
  if outcome.metadata then
    match file with
    | .absent => ⟨none, none, file⟩
    | .other => refused "privacy_invalid"
    | .regular text =>
        if text.utf8ByteSize > maxRecoveryBytes then refused "oversized"
        else if !outcome.read then refused "invalid"
        else if otherVersion parse text then refused "unsupported_version"
        else
          match (parse text).bind recordOfJson with
          | some record =>
              if validateRecord record then ⟨some record, none, file⟩ else refused "invalid"
          | none => refused "invalid"
  else ⟨none, none, file⟩

def RecoveryRecord.text (record : RecoveryRecord) : String := record.toJson.pretty

def persistRecord (record : RecoveryRecord) (file : Node) : WriteOutcome → Node
  | .failed => file
  | .replacedThenFailed => .regular record.text
  | .replaced => .regular record.text

end

end EmuChef.Recovery
