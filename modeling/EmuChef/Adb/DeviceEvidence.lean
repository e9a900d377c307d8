import Mathlib.Data.List.Infix
import EmuChef.Adb.ShellCommand

/-! What the texts printed by a device say: its physical identity and its root access. -/

namespace EmuChef.Adb

open Executor (isWhitespace isBlank isAsciiDigit)
open Split (stripLead splitOnce)

/-- The shell operation of a process, which selects how its failure is classified. -/
inductive ProcessOperation where
  | probe
  | predicate
  | rootPreflight
  | launch
  | forceStop
  | shellMutation
  | install
  | push
  | deviceCopy
  | genericFallback
  deriving DecidableEq

inductive ProcessFailureKind where
  | spawn
  | wait
  | stdoutRead
  | stderrRead
  | stdoutOverflow
  | stderrOverflow
  | timedOut
  | readerJoin
  deriving DecidableEq

inductive ProcessCleanup where
  | notRequired
  | confirmed
  | uncertain
  deriving DecidableEq

structure AdbCommandResult where
  args : List String
  returncode : Int
  stdout : String
  stderr : String
  deriving DecidableEq

inductive AdbCommandError where
  | resolution (message : String)
  | commandFailed (args : List String) (returncode : Int) (stderr : String)
  | deviceOffline
  | deviceUnauthorized
  | deviceDisconnected
  | deviceStorageExhausted
  | adbServerUnavailable
  | transportReset
  | transportFailure
  | deviceIdentityChanged (phase : IdentityCheckPhase)
  | deviceIdentityUnverified (phase : IdentityCheckPhase)
  | processFailed (kind : ProcessFailureKind) (cleanup : ProcessCleanup)
  | timedOut (cleanup : ProcessCleanup)
  | rootDenied
  | rootUnavailable
  | rootCheckFailed
  | rootAuthorityRevoked
  | rootAuthorityUnverified
  deriving DecidableEq

def AdbCommandError.allowsPostIdentityProbe : AdbCommandError → Bool
  | .commandFailed .. | .rootDenied | .rootUnavailable | .rootCheckFailed
  | .deviceStorageExhausted => true
  | _ => false

def toAsciiLowercase (text : List Char) : List Char := text.map Char.toLower

def splitWhitespace (text : List Char) : List (List Char) :=
  (text.splitOnP isWhitespace).filter fun word => !word.isEmpty

def trimEnd (text : List Char) : List Char := (text.reverse.dropWhile isWhitespace).reverse

def trim (text : List Char) : List Char := trimEnd (text.dropWhile isWhitespace)

def dropReturn (line : List Char) : List Char :=
  if line.getLast? = some '\r' then line.dropLast else line

def lines (text : List Char) : List (List Char) :=
  let pieces := text.splitOnP (· = '\n')
  pieces.dropLast.map dropReturn ++ (pieces.getLast?.filter (· ≠ [])).toList

def contains (text : List Char) (marker : String) : Bool := marker.toList <:+: text

def normalizeTextWithCase (value : List Char) (lowercase : Bool) : Option String :=
  let normalized := [' '].intercalate (splitWhitespace value)
  let lowered := toAsciiLowercase normalized
  if normalized = [] ∨ lowered = "null".toList ∨ lowered = "unknown".toList then none
  else some (String.ofList (if lowercase then lowered else normalized))

def normalizeText (value : List Char) : Option String := normalizeTextWithCase value true

def normalizeCaseSensitiveText (value : List Char) : Option String :=
  normalizeTextWithCase value false

def decimal (digits : List Char) : Nat :=
  digits.foldl (fun value digit => 10 * value + (digit.toNat - '0'.toNat)) 0

def parseU32 (text : List Char) : Option Nat :=
  let digits := (stripLead ['+'] text).getD text
  if digits ≠ [] ∧ digits.all isAsciiDigit ∧ decimal digits < 2 ^ 32 then some (decimal digits)
  else none

example : normalizeText "  AYN \t Odin 2 ".toList = some "ayn odin 2" ∧
    normalizeText " UNKNOWN ".toList = none ∧ parseU32 "+33".toList = some 33 := by decide

structure DeviceIdentityFingerprint where
  manufacturer : String
  brand : String
  model : String
  product : String
  device : String
  board : String
  hardware : String
  hardwareSku : Option String
  androidApiLevel : Nat
  abis : List String
  buildFingerprint : String
  androidId : String
  deriving DecidableEq

structure ParsedGetpropSample where
  manufacturer : Option String
  brand : Option String
  model : Option String
  product : Option String
  device : Option String
  board : Option String
  hardware : Option String
  hardwareSku : Option String
  androidApiLevel : Option Nat
  abis : Option (List String)
  fallbackAbis : List String
  buildFingerprint : Option String
  deriving DecidableEq

def ParsedGetpropSample.empty : ParsedGetpropSample :=
  ⟨none, none, none, none, none, none, none, none, none, none, [], none⟩

def normalizeAbis (values : List (List Char)) : List String :=
  values.filterMap normalizeText

def ParsedGetpropSample.intoFingerprint (sample : ParsedGetpropSample) (androidId : String) :
    Option DeviceIdentityFingerprint := do
  let abis := (sample.abis.filter (· ≠ [])).getD (normalizeAbis (sample.fallbackAbis.map String.toList))
  if abis = [] then none
  else
    return {
      manufacturer := ← sample.manufacturer
      brand := ← sample.brand
      model := ← sample.model
      product := ← sample.product
      device := ← sample.device
      board := ← sample.board
      hardware := ← sample.hardware
      hardwareSku := sample.hardwareSku
      androidApiLevel := ← sample.androidApiLevel
      abis
      buildFingerprint := ← sample.buildFingerprint
      androidId }

def setOnce {α : Type} [DecidableEq α] (slot value : Option α) : Option (Option α) :=
  match slot with
  | some existing => if value = some existing then some slot else none
  | none => some value

def propertyOfLine (line : List Char) : Option (List Char × List Char) := do
  let rest ← stripLead ['['] (trim line)
  let parts ← splitOnce "]: [".toList rest
  if parts.2.getLast? = some ']' then some (parts.1, parts.2.dropLast) else none

def readProperty (sample : ParsedGetpropSample) (key : String) (rawValue : List Char) :
    Option ParsedGetpropSample := do
  let value := normalizeText rawValue
  match key with
  | "ro.product.manufacturer" => return { sample with manufacturer := ← setOnce sample.manufacturer value }
  | "ro.product.brand" => return { sample with brand := ← setOnce sample.brand value }
  | "ro.product.model" => return { sample with model := ← setOnce sample.model value }
  | "ro.product.name" => return { sample with product := ← setOnce sample.product value }
  | "ro.product.device" => return { sample with device := ← setOnce sample.device value }
  | "ro.product.board" => return { sample with board := ← setOnce sample.board value }
  | "ro.hardware" => return { sample with hardware := ← setOnce sample.hardware value }
  | "ro.boot.hardware.sku" | "ro.product.hardware.sku" =>
      return { sample with hardwareSku := ← setOnce sample.hardwareSku value }
  | "ro.build.version.sdk" =>
      let level := (parseU32 (← value).toList).filter (0 < ·)
      return { sample with androidApiLevel := ← setOnce sample.androidApiLevel level }
  | "ro.product.cpu.abilist" =>
      let abis := value.map fun value => normalizeAbis (value.toList.splitOnP (· = ','))
      return { sample with abis := ← setOnce sample.abis abis }
  | "ro.product.cpu.abi" | "ro.product.cpu.abi2" =>
      return { sample with fallbackAbis := sample.fallbackAbis ++ value.toList }
  | "ro.build.fingerprint" =>
      let fingerprint := normalizeCaseSensitiveText rawValue
      return { sample with buildFingerprint := ← setOnce sample.buildFingerprint fingerprint }
  | _ => return sample

def parseGetpropSample (stdout : String) : Option ParsedGetpropSample :=
  (lines stdout.toList).foldlM (fun sample line =>
    match propertyOfLine line with
    | some (key, rawValue) => readProperty sample (String.ofList key) rawValue
    | none => some sample) .empty

def isHexDigit (letter : Char) : Bool :=
  isAsciiDigit letter || ('a' ≤ letter && letter ≤ 'f') || ('A' ≤ letter && letter ≤ 'F')

def normalizeAndroidId (value : List Char) : Option String := do
  let normalized ← normalizeText value
  if normalized = "9774d56d682e549c" ∨ 16 < normalized.length ∨
      ¬ normalized.toList.all isHexDigit then none
  else if normalized.toList.all (· = '0') then none
  else some normalized

def parseAndroidIdOutput (stdout : String) : Option String :=
  match (lines stdout.toList).filter fun line => trim line ≠ [] with
  | [value] => normalizeAndroidId (trim value)
  | _ => none

inductive SampleComparison where
  | same
  | changed
  | unverified
  deriving DecidableEq

def compareSamples (first second : DeviceIdentityFingerprint) : SampleComparison :=
  if first.hardwareSku.isSome ≠ second.hardwareSku.isSome then .unverified
  else if first = second then .same
  else .changed

theorem compareSamples_same {first second : DeviceIdentityFingerprint} :
    compareSamples first second = .same ↔ first = second := by
  unfold compareSamples
  by_cases equal : first = second
  · simp [equal]
  · split_ifs <;> simp_all

inductive RootProbeFailureReason where
  | timedOut
  | transport
  | unexpectedResponse
  deriving DecidableEq

inductive RootProbeOutcome where
  | granted
  | denied
  | unavailable
  | checkFailed (reason : RootProbeFailureReason) (message : String)
  deriving DecidableEq

def rootIdentityHasUidZero (stdout : List Char) : Bool :=
  let normalized := toAsciiLowercase (trim stdout)
  normalized = ['0'] || (splitWhitespace normalized).any fun part =>
    (stripLead "uid=0(".toList part).isSome || part = "uid=0".toList

def isVerifiedContext (context : List Char) : Bool :=
  match context.splitOnP (· = ':') with
  | user :: role :: domain :: level :: _ =>
      user = ['u'] && role = ['r'] &&
        ["su".toList, "magisk".toList, "superuser".toList].contains domain &&
        level.head? = some 's'
  | _ => false

def rootIdentityHasVerifiedContext (stdout : List Char) : Bool :=
  (splitWhitespace stdout).any fun part =>
    (stripLead "context=".toList part).any isVerifiedContext

def isUnavailableRoot (text : List Char) : Bool :=
  ["su: not found", "su: inaccessible", "command not found", "no such file or directory"].any
    (contains text)

def isDeniedRoot (text : List Char) : Bool :=
  ["permission denied", "not permitted", "operation not permitted", "access denied"].any
    (contains text)

def unexpectedRootResponse : RootProbeOutcome :=
  .checkFailed .unexpectedResponse "The root access check returned an unexpected response."

def classifyRootResult (result : AdbCommandResult) : RootProbeOutcome :=
  let stdout := result.stdout.toList
  let lower := toAsciiLowercase (stdout ++ ['\n'] ++ result.stderr.toList)
  if rootIdentityHasUidZero stdout ∧ rootIdentityHasVerifiedContext stdout then .granted
  else if result.returncode = 0 ∧ rootIdentityHasUidZero stdout then unexpectedRootResponse
  else if isUnavailableRoot lower then .unavailable
  else if isDeniedRoot lower then .denied
  else unexpectedRootResponse

def classifyProbe : RootProbeOutcome → Except AdbCommandError Unit
  | .granted => .ok ()
  | .denied | .unavailable => .error .rootAuthorityRevoked
  | .checkFailed .unexpectedResponse _ => .error .rootAuthorityUnverified
  | .checkFailed _ _ => .error .rootCheckFailed

example : classifyRootResult ⟨[], 0, "uid=0(root) context=u:r:magisk:s0", ""⟩ = .granted ∧
    classifyRootResult ⟨[], 1, "", "su: not found"⟩ = .unavailable := by decide

end EmuChef.Adb
