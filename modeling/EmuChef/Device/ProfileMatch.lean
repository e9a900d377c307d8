import EmuChef.Lib.CaseMapping
import EmuChef.Planner.Bindings

/-! Matching a device profile against detected facts: by the planner, by the collision test and in a
proposed profile. -/

namespace EmuChef.DeviceProfile

open Executor (isWhitespace isAsciiLetter isAsciiDigit)
open Planner (trim)

structure AndroidVersionRange where
  min : Option Int
  max : Option Int
  deriving DecidableEq

structure DeviceMatchCriteria where
  manufacturerContains : List String
  brandContains : List String
  modelPatterns : List String
  androidVersion : Option AndroidVersionRange
  deriving DecidableEq

structure DeviceCapabilityDefaults where
  adbAvailable : Bool
  apkInstall : Bool
  sharedStorageWrite : Bool
  appLaunch : Bool
  shellCommand : Bool
  packageRemoveForUser : Bool
  rootShell : Bool
  appDataWrite : Bool
  deriving DecidableEq

structure DeviceProfileV1 where
  schemaVersion : Int
  kind : String
  id : String
  name : String
  description : Option String
  matchCriteria : DeviceMatchCriteria
  capabilityDefaults : DeviceCapabilityDefaults
  deviceTags : List String
  deriving DecidableEq

structure DetectedDeviceFacts where
  manufacturer : Option String
  brand : Option String
  model : Option String
  androidVersion : Option Int
  deriving DecidableEq

structure AndroidVersionRangeCriteria where
  min : Option Int
  max : Option Int
  deriving DecidableEq

structure DeviceProfileMatchCriteria where
  manufacturerContains : List String
  brandContains : List String
  modelPatterns : List String
  androidVersion : Option AndroidVersionRangeCriteria
  deriving DecidableEq

def profileMatchCriteria (criteria : DeviceMatchCriteria) : DeviceProfileMatchCriteria :=
  { manufacturerContains := criteria.manufacturerContains
    brandContains := criteria.brandContains
    modelPatterns := criteria.modelPatterns
    androidVersion := criteria.androidVersion.map fun version =>
      { min := version.min, max := version.max } }

/-- The regular expressions of a library: compiling may fail, on a pattern that is malformed or too
large, and a compiled pattern tests texts. -/
structure RegexLibrary where
  compile : String → Option (String → Bool)
  escape : String → String

def RegexLibrary.anchored (regex : RegexLibrary) (text : String) : String :=
  "^" ++ regex.escape text ++ "$"

def RegexLibrary.EscapesExactly (regex : RegexLibrary) : Prop :=
  ∀ text isMatch, regex.compile (regex.anchored text) = some isMatch →
    ∀ value, isMatch value = true ↔ value = text

variable (tables : CaseTables) (regex : RegexLibrary)

structure ProfileMatchResult where
  matched : Bool
  reasons : List String
  deriving DecidableEq

def lowercase (text : String) : List Char := tables.lowercase text.toList

def containsAnyCaseInsensitive (value : String) (expectedTokens : List String) : Bool :=
  expectedTokens.any fun token => lowercase tables token <:+: lowercase tables value

def anyPatternMatches (patterns : List String) (value : String) : Bool :=
  patterns.any fun pattern => (regex.compile pattern).any fun isMatch => isMatch value

def stableReprString (value : String) : String :=
  "'" ++ String.ofList (value.toList.flatMap fun letter =>
    if letter = '\\' ∨ letter = '\'' then ['\\', letter] else [letter]) ++ "'"

def ProfileMatchResult.record (result : ProfileMatchResult) (holds : Bool)
    (success failure : String) : ProfileMatchResult :=
  if holds then { result with reasons := result.reasons ++ [success] }
  else { matched := false, reasons := result.reasons ++ [failure] }

def checkText (label rejection : String) (holds : String → List String → Bool)
    (fact : Option String) (expected : List String) (result : ProfileMatchResult) :
    ProfileMatchResult :=
  match fact with
  | none => result
  | some value =>
      if expected = [] then result
      else result.record (holds value expected)
        (label ++ " matched one of: " ++ String.intercalate ", " expected)
        (label ++ " " ++ stableReprString value ++ rejection ++ String.intercalate ", " expected)

def checkManufacturer (detectedFacts : DetectedDeviceFacts)
    (profileMatch : DeviceProfileMatchCriteria) : ProfileMatchResult → ProfileMatchResult :=
  checkText "manufacturer" " did not contain any of: "
    (containsAnyCaseInsensitive tables) detectedFacts.manufacturer profileMatch.manufacturerContains

def checkBrand (detectedFacts : DetectedDeviceFacts)
    (profileMatch : DeviceProfileMatchCriteria) : ProfileMatchResult → ProfileMatchResult :=
  checkText "brand" " did not contain any of: "
    (containsAnyCaseInsensitive tables) detectedFacts.brand profileMatch.brandContains

def checkModel (detectedFacts : DetectedDeviceFacts)
    (profileMatch : DeviceProfileMatchCriteria) : ProfileMatchResult → ProfileMatchResult :=
  checkText "model" " did not match any of: "
    (fun value patterns => anyPatternMatches regex patterns value) detectedFacts.model
    profileMatch.modelPatterns

def checkAndroidVersion (detectedFacts : DetectedDeviceFacts)
    (profileMatch : DeviceProfileMatchCriteria) (result : ProfileMatchResult) :
    ProfileMatchResult :=
  match detectedFacts.androidVersion with
  | none => result
  | some androidVersion =>
      match profileMatch.androidVersion.bind fun criteria => criteria.min with
      | none => result
      | some minimumAndroid =>
          result.record (minimumAndroid ≤ androidVersion)
            ("android version " ++ toString androidVersion ++ " met minimum " ++
              toString minimumAndroid)
            ("android version " ++ toString androidVersion ++ " was below minimum " ++
              toString minimumAndroid)

def matchDetectedDeviceProfile (detectedFacts : DetectedDeviceFacts)
    (profileMatch : DeviceProfileMatchCriteria) : ProfileMatchResult :=
  checkAndroidVersion detectedFacts profileMatch
    (checkModel regex detectedFacts profileMatch
      (checkBrand tables detectedFacts profileMatch
        (checkManufacturer tables detectedFacts profileMatch
          { matched := true, reasons := [] })))

def containsConstraintMatches (expected : List String) (actual : Option String) : Bool :=
  if expected = [] then true
  else
    match actual with
    | none => false
    | some actual => containsAnyCaseInsensitive tables actual expected

def patternConstraintMatches (patterns : List String) (actual : Option String) : Bool :=
  if patterns = [] then true
  else
    match actual with
    | none => false
    | some actual => anyPatternMatches regex patterns actual

def profileMatchesFacts (profile : DeviceProfileV1) (facts : DetectedDeviceFacts) : Bool :=
  containsConstraintMatches tables profile.matchCriteria.manufacturerContains facts.manufacturer &&
    containsConstraintMatches tables profile.matchCriteria.brandContains facts.brand &&
    patternConstraintMatches regex profile.matchCriteria.modelPatterns facts.model

def present (value : Option String) : Option String :=
  (value.map trim).filter fun value => value ≠ ""

/-- The letters and digits of a text in lower case, one underscore for what stands between them. -/
def normalizeIdentifierFrom (normalized : List Char) (separatorPending : Bool) :
    List Char → List Char
  | [] => normalized
  | character :: rest =>
      if isAsciiLetter character || isAsciiDigit character then
        normalizeIdentifierFrom
          ((if separatorPending && !normalized.isEmpty then normalized ++ ['_'] else normalized) ++
            [character.toLower]) false rest
      else normalizeIdentifierFrom normalized (separatorPending || !normalized.isEmpty) rest

def normalizeIdentifierComponent (value : String) : String :=
  String.ofList (normalizeIdentifierFrom [] false value.toList)

def proposedId (manufacturer model : Option String) : String :=
  match manufacturer, model with
  | some manufacturer, some model =>
      let manufacturer := normalizeIdentifierComponent manufacturer
      let model := normalizeIdentifierComponent model
      if manufacturer = "" ∨ model = "" then "" else manufacturer ++ "." ++ model
  | _, _ => ""

def proposedName (manufacturer model : Option String) : String :=
  match manufacturer, model with
  | some manufacturer, some model => manufacturer ++ " " ++ model
  | _, _ => ""

def proposedProfile (facts : DetectedDeviceFacts) : DeviceProfileV1 :=
  let manufacturer := present facts.manufacturer
  let brand := present facts.brand
  let model := present facts.model
  { schemaVersion := 1
    kind := "device_profile"
    id := proposedId manufacturer model
    name := proposedName manufacturer model
    description := none
    matchCriteria :=
      { manufacturerContains := manufacturer.toList
        brandContains := brand.toList
        modelPatterns := (model.map regex.anchored).toList
        androidVersion := facts.androidVersion.map fun minimum =>
          { min := some minimum, max := none } }
    capabilityDefaults :=
      { adbAvailable := true
        apkInstall := true
        sharedStorageWrite := true
        appLaunch := true
        shellCommand := true
        packageRemoveForUser := false
        rootShell := false
        appDataWrite := false }
    deviceTags := [] }

end EmuChef.DeviceProfile
