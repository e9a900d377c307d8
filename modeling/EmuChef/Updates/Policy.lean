import EmuChef.Adb.DeviceEvidence
import EmuChef.Artifact.PercentLaw
import EmuChef.Updates.Manifest

/-! The policy of an update manifest: its fields, its validity, its download address and signature. -/

namespace EmuChef.Updates

open Adb (toAsciiLowercase contains trim)
open Artifact (hexDigit)
open Checks (require)
open Split (splitOnce stripLead)

section

structure Url where
  scheme : String
  username : String
  password : Option String
  hostStr : Option String
  portOrKnownDefault : Option Nat
  path : String
  query : Option String
  fragment : Option String
  deriving DecidableEq

/-- What the crates of the application compute: URLs, versions, times (in nanoseconds) and
signatures (of a key, a message and a signature). -/
structure Crates (Version : Type) where
  parseUrl : String → Option Url
  parseVersion : String → Option Version
  isRelease : Version → Bool
  versionLe : Version → Version → Bool
  parseRfc3339 : String → Option Int
  verify : List UInt8 → List UInt8 → List UInt8 → Bool

structure ConfiguredTrust where
  manifestUrl : String
  dmgOrigin : String
  dmgPathPrefix : String
  metadataKeyId : String
  metadataPublicKey : List UInt8
  allowHttpForTests : Bool
  deriving DecidableEq

def cargoPkgVersion : String := "0.1.0"

def notesLimit : Nat := 16 * 1024
def dmgLimit : Nat := 512 * 1024 * 1024
def seconds (count : Int) : Int := count * 1000000000
def futureSkewSeconds : Int := 10 * 60
def maxValiditySeconds : Int := 30 * 24 * 60 * 60

variable {Version : Type} (crates : Crates Version)

def orReject {α : Type} (value : Option α) : Except Fault α := value.elim (.error .rejected) .ok

def currentVersion : Except Fault Version := orReject (crates.parseVersion cargoPkgVersion)

def validateHttpsUrl (value : String) (allowHttp : Bool) : Except Fault Url := do
  let url ← orReject (crates.parseUrl value)
  require ((url.scheme = "https" ∨ (allowHttp = true ∧ url.scheme = "http")) ∧ url.username = "" ∧
    url.password = none ∧ url.hostStr ≠ none) Fault.rejected
  .ok url

def isControl (letter : Char) : Bool :=
  letter.toNat < 0x20 || (0x7F ≤ letter.toNat && letter.toNat ≤ 0x9F)

def pathIsNotNormalized (path : List Char) (requireTrailingSlash : Bool) : Bool :=
  let lower := toAsciiLowercase path
  path.head? ≠ some '/' ||
    (requireTrailingSlash && path.getLast? ≠ some '/') ||
    contains path "//" ||
    contains path "\\" ||
    path.any isControl ||
    contains lower "%2f" ||
    contains lower "%5c" ||
    contains lower "%2e" ||
    contains lower "%25" ||
    (path.splitOn '/').any fun segment => segment = ['.'] || segment = ['.', '.']

def validateDmgPathPrefix (pathPrefix : String) : Except Fault Unit :=
  require (pathPrefix.toList.head? = some '/' ∧ pathPrefix.toList.getLast? = some '/' ∧
    '?' ∉ pathPrefix.toList ∧ '#' ∉ pathPrefix.toList ∧
    pathIsNotNormalized pathPrefix.toList true = false) .rejected

def rawUrlPath (value : String) : Option String :=
  (splitOnce "://".toList value.toList).bind fun parts =>
    let pathAndSuffix := parts.2.dropWhile (· ≠ '/')
    if pathAndSuffix = [] then none
    else some (String.ofList (pathAndSuffix.takeWhile fun letter => letter ≠ '?' ∧ letter ≠ '#'))

def validateDmgUrl (value : String) (trust : ConfiguredTrust) : Except Fault Unit := do
  validateDmgPathPrefix trust.dmgPathPrefix
  let url ← validateHttpsUrl crates value trust.allowHttpForTests
  let origin ← orReject (crates.parseUrl trust.dmgOrigin)
  let rawPath ← orReject (rawUrlPath value)
  require (url.scheme = origin.scheme ∧ url.hostStr = origin.hostStr ∧
    url.portOrKnownDefault = origin.portOrKnownDefault ∧ rawPath = url.path ∧
    trust.dmgPathPrefix.toList <+: url.path.toList ∧ ".dmg".toList <:+ url.path.toList ∧
    url.query = none ∧ url.fragment = none ∧
    pathIsNotNormalized url.path.toList false = false) .rejected

def byteAt (value : List UInt8) (index : Nat) (letter : Char) : Bool :=
  value[index]? = some (UInt8.ofNat letter.toNat)

def parseTimestamp (value : String) : Except Fault Int := do
  let bytes := Artifact.textBytes value.toList
  require (bytes.length = 20 ∧ byteAt bytes 4 '-' ∧ byteAt bytes 7 '-' ∧ byteAt bytes 10 'T' ∧
    byteAt bytes 13 ':' ∧ byteAt bytes 16 ':' ∧ value.toList.getLast? = some 'Z') Fault.rejected
  orReject (crates.parseRfc3339 value)

def namesDrive : List Char → Bool
  | first :: second :: third :: rest =>
    ((first.isAlpha && second = ':' && third = '\\') || namesDrive (second :: third :: rest))
  | _ => false

def containsLocalPathLeak (value : List Char) : Bool :=
  let lower := toAsciiLowercase value
  contains lower "file://" || contains lower "/users/" || contains lower "/home/" ||
    contains lower "/private/" || contains lower "/tmp/" || namesDrive value

def isLowerHex (letter : Char) : Bool := (hexDigit letter).isSome && !letter.isUpper

def hexPairs : List Char → List UInt8
  | high :: low :: rest =>
    UInt8.ofNat (16 * (hexDigit high).getD 0 + (hexDigit low).getD 0) :: hexPairs rest
  | _ => []

def decodeFixedHex (size : Nat) (value : String) : Except Fault (List UInt8) :=
  if value.toList.length = size * 2 ∧ value.toList.all isLowerHex then .ok (hexPairs value.toList)
  else .error .rejected

def fieldsAccepted (manifest : Manifest) (trust : ConfiguredTrust) : Bool :=
  manifest.schemaVersion = 1 && manifest.product = "com.emuchef.desktop" &&
    manifest.channel = "stable" && manifest.platform = "darwin" &&
    manifest.architecture = "aarch64" && manifest.metadataKeyId = trust.metadataKeyId &&
    (Artifact.textBytes manifest.notes.toList).length ≤ notesLimit &&
    '\x00' ∉ manifest.notes.toList && !containsLocalPathLeak manifest.notes.toList &&
    manifest.dmgSizeBytes ≠ 0 && manifest.dmgSizeBytes.toNat ≤ dmgLimit &&
    manifest.dmgSha256.toList.length = 64 && manifest.dmgSha256.toList.all isLowerHex

def validateMinimum (minimum : String) : Except Fault Unit :=
  require (minimum ≠ "" ∧ crates.parseVersion minimum ≠ none ∧ '-' ∉ minimum.toList ∧
    '+' ∉ minimum.toList) .rejected

def validateManifestPolicy (manifest : Manifest) (trust : ConfiguredTrust) (now : Int) :
    Except Fault (Version × Int) := do
  require (fieldsAccepted manifest trust = true) Fault.rejected
  let version ← orReject (crates.parseVersion manifest.version)
  require (crates.isRelease version = true) Fault.rejected
  let published ← parseTimestamp crates manifest.publishedAt
  let expires ← parseTimestamp crates manifest.expiresAt
  require (published ≤ now + seconds futureSkewSeconds ∧ now < expires ∧ published < expires ∧
    expires - published ≤ seconds maxValiditySeconds) Fault.rejected
  manifest.minimumMacosVersion.forM (validateMinimum crates)
  validateDmgUrl crates manifest.dmgUrl trust
  let signature ← decodeFixedHex 64 manifest.metadataSignature
  require (crates.verify trust.metadataPublicKey manifest.canonicalSignedBytes signature = true)
    Fault.rejected
  .ok (version, expires)

end

end EmuChef.Updates
