import EmuChef.Updates.DmgPath

/-! The update service: checks that complete, fail or are cancelled, and the candidate that a request
to open the download gets. -/

namespace EmuChef.Updates

open Adb (toAsciiLowercase trim)
open Executor (isAsciiDigit)
open Checks
open Split (stripLead)

section

def manifestLimit : Nat := 64 * 1024

/-- A response with its status, the values of three headers (`none` is no text) and the chunks of
its body (`none` is a failed read). -/
structure Response where
  status : Nat
  contentTypes : List (Option (List Char))
  contentEncodings : List (Option (List Char))
  contentLengths : List (Option (List Char))
  chunks : List (Option (List UInt8))
  deriving DecidableEq

def parseU64 (text : List Char) : Option Nat :=
  let digits := (stripLead ['+'] text).getD text
  if digits ≠ [] ∧ digits.all isAsciiDigit ∧ Adb.decimal digits < 2 ^ 64 then
    some (Adb.decimal digits)
  else none

def contentTypeAccepted : List (Option (List Char)) → Bool
  | [some contentType] =>
    let normalized := (toAsciiLowercase contentType).filter (· ≠ ' ')
    normalized = "application/json".toList || normalized = "application/json;charset=utf-8".toList
  | _ => false

def encodingAccepted : List (Option (List Char)) → Bool
  | [] => true
  | [some encoding] => toAsciiLowercase (trim encoding) = "identity".toList
  | _ => false

def contentLength : List (Option (List Char)) → Option Nat
  | [some length] => (parseU64 length).filter fun size => size ≠ 0 && size ≤ manifestLimit
  | _ => none

def validateResponsePolicy (response : Response) : Except Fault Nat := do
  require (response.status = 200 ∧ contentTypeAccepted response.contentTypes = true ∧
    encodingAccepted response.contentEncodings = true) Fault.rejected
  orReject (contentLength response.contentLengths)

def readBounded (expected : Nat) (body : List UInt8) : List (Option (List UInt8)) →
    Except Fault (List UInt8)
  | [] => if body ≠ [] ∧ body.length = expected then .ok body else .error .rejected
  | none :: _ => .error .rejected
  | some chunk :: rest =>
    if body.length + chunk.length ≤ expected ∧ body.length + chunk.length ≤ manifestLimit then
      readBounded expected (body ++ chunk) rest
    else .error .rejected

structure ValidatedCandidate (Version : Type) where
  manifest : Manifest
  version : Version
  expiresAt : Int

variable {Version : Type} (crates : Crates Version) (fromSlice : List UInt8 → Option Manifest)

def fetchAndValidate (trust : ConfiguredTrust) (now : Int) (response : Option Response) :
    Except Fault (Option (ValidatedCandidate Version)) := do
  let response ← orReject response
  let expected ← validateResponsePolicy response
  let bytes ← readBounded expected [] response.chunks
  let manifest ← strictParseManifest fromSlice bytes
  let validated ← validateManifestPolicy crates manifest trust now
  let current ← currentVersion crates
  if crates.versionLe validated.1 current then .ok none
  else .ok (some { manifest, version := validated.1, expiresAt := validated.2 })

inductive Phase where
  | idle
  | checking
  | updateAvailable
  | upToDate
  | failed
  deriving DecidableEq

structure RuntimeState (Version : Type) where
  phase : Phase
  candidate : Option (ValidatedCandidate Version)
  message : Option String
  checkInProgress : Bool
  revision : Nat

def RuntimeState.initial : RuntimeState Version :=
  { phase := .idle, candidate := none, message := none, checkInProgress := false, revision := 0 }

def nextRevision (revision : Nat) : Nat := max (min (revision + 1) (2 ^ 64 - 1)) 1

def RuntimeState.began (state : RuntimeState Version) : RuntimeState Version :=
  { phase := .checking, candidate := none, message := none, checkInProgress := true,
    revision := nextRevision state.revision }

def RuntimeState.finished (state : RuntimeState Version)
    (result : Except Fault (Option (ValidatedCandidate Version))) : RuntimeState Version :=
  let state := { state with checkInProgress := false, revision := nextRevision state.revision }
  match result with
  | .ok (some candidate) =>
    { state with phase := .updateAvailable, candidate := some candidate, message := none }
  | .ok none =>
    { state with
      phase := .upToDate, candidate := none
      message := some "This version of EmuChef is up to date." }
  | .error _ =>
    { state with
      phase := .failed, candidate := none
      message := some "EmuChef could not validate update information. Local use is unaffected." }

def RuntimeState.dropped (state : RuntimeState Version) : RuntimeState Version :=
  { state with
    checkInProgress := false, phase := .failed, candidate := none
    message := some "The update check stopped before completion. Local use is unaffected." }

def candidateForOpen (trust : Option ConfiguredTrust) (state : RuntimeState Version) (now : Int) :
    Except Fault (ValidatedCandidate Version) := do
  let trust ← orReject trust
  let candidate ← orReject state.candidate
  let _ ← validateManifestPolicy crates candidate.manifest trust now
  let current ← currentVersion crates
  if crates.versionLe candidate.version current || candidate.expiresAt ≤ now then .error .rejected
  else .ok candidate

/-- What happens to the service: a call of `check` at a time, the end of the request of a check, its
cancellation, and a request to open the download at a time. -/
inductive Event where
  | check (call : Nat) (now : Int)
  | complete (call : Nat) (response : Option Response)
  | cancel (call : Nat)
  | openDownload (now : Int)

/-- The state of the service, and the calls that wait for their response with the time they took. -/
structure Service (Version : Type) where
  state : RuntimeState Version
  waiting : List (Nat × Int)

def Service.initial : Service Version := { state := .initial, waiting := [] }

def Service.without (service : Service Version) (call : Nat) : List (Nat × Int) :=
  service.waiting.filter fun waiting => waiting.1 ≠ call

def Service.check (service : Service Version) (trust : Option ConfiguredTrust) (call : Nat)
    (now : Int) : Service Version :=
  if trust.isNone || service.state.checkInProgress then service
  else { state := service.state.began, waiting := (call, now) :: service.waiting }

def Service.step (trust : Option ConfiguredTrust) (service : Service Version) :
    Event → Option (Service Version)
  | .check call now => some (service.check trust call now)
  | .complete call response => trust.bind fun trust => (service.waiting.lookup call).map fun now =>
    { state := service.state.finished (fetchAndValidate crates fromSlice trust now response)
      waiting := service.without call }
  | .cancel call => (service.waiting.lookup call).map fun _ =>
    { state := service.state.dropped, waiting := service.without call }
  | .openDownload _ => some service

inductive Service.Reaches (trust : Option ConfiguredTrust) : List Event → Service Version → Prop
  | start : Reaches trust [] .initial
  | step {events : List Event} {service next : Service Version} {event : Event} :
      Reaches trust events service → service.step crates fromSlice trust event = some next →
      Reaches trust (events ++ [event]) next

end

section

variable {Version : Type} {crates : Crates Version} {fromSlice : List UInt8 → Option Manifest}
  {trust : Option ConfiguredTrust} {events : List Event} {service next : Service Version}

/-- The candidate is what the last completed check validated, and since then nothing happened but
requests to open the download. -/
def LastValidated (crates : Crates Version) (fromSlice : List UInt8 → Option Manifest)
    (trust : Option ConfiguredTrust) (events : List Event)
    (candidate : ValidatedCandidate Version) : Prop :=
  ∃ configured before service call started response after, trust = some configured ∧
    events = before ++ .complete call response :: after ∧
    Service.Reaches crates fromSlice trust before service ∧
    service.waiting.lookup call = some started ∧
    fetchAndValidate crates fromSlice configured started response = .ok (some candidate) ∧
    ∀ event ∈ after, ∃ now, event = .openDownload now

/-- At most one call waits, which is then the check in progress, and a retained candidate is the one
of the last check. -/
structure Service.Sound (crates : Crates Version) (fromSlice : List UInt8 → Option Manifest)
    (trust : Option ConfiguredTrust) (events : List Event) (service : Service Version) : Prop where
  single : service.waiting.length ≤ 1
  progress : service.state.checkInProgress = true ↔ service.waiting ≠ []
  candidate : ∀ candidate, service.state.candidate = some candidate →
    service.waiting = [] ∧ LastValidated crates fromSlice trust events candidate

theorem Service.initial_sound : Service.Sound crates fromSlice trust [] .initial where
  single := Nat.zero_le _
  progress := by simp [Service.initial, RuntimeState.initial]
  candidate := by
    rintro candidate ⟨⟩

theorem Service.Sound.without {call : Nat} {now : Int}
    (sound : service.Sound crates fromSlice trust events)
    (waits : service.waiting.lookup call = some now) : service.without call = [] := by
  have single := sound.single
  rw [Service.without]
  cases waiting : service.waiting with
  | nil => rfl
  | cons first others =>
    rw [waiting] at waits single
    obtain rfl : others = [] := List.length_eq_zero_iff.mp (by simpa using single)
    have same : call = first.1 := by
      rw [List.lookup_cons] at waits
      by_contra other
      rw [beq_false_of_ne other] at waits
      cases waits
    simp [same]

theorem Service.Sound.check (sound : service.Sound crates fromSlice trust events) (call : Nat)
    (now : Int) : (service.check trust call now).Sound crates fromSlice trust
      (events ++ [.check call now]) := by
  by_cases refused : (trust.isNone || service.state.checkInProgress) = true
  · rw [Service.check, if_pos refused]
    refine ⟨sound.single, sound.progress, fun candidate kept => ?_⟩
    obtain ⟨none, configured, _, _, _, _, _, _, isConfigured, _⟩ := sound.candidate candidate kept
    rw [isConfigured, Option.isNone_some, Bool.false_or, sound.progress] at refused
    exact absurd none refused
  · rw [Service.check, if_neg refused]
    have idle : service.waiting = [] := by
      by_contra busy
      apply refused
      rw [sound.progress.mpr busy, Bool.or_true]
    refine ⟨?_, ?_, ?_⟩
    · rw [idle]
      exact Nat.le_refl 1
    · simp [RuntimeState.began]
    · rintro candidate ⟨⟩

theorem finished_candidate {state : RuntimeState Version}
    {result : Except Fault (Option (ValidatedCandidate Version))}
    {candidate : ValidatedCandidate Version}
    (kept : (state.finished result).candidate = some candidate) : result = .ok (some candidate) := by
  cases result with
  | error fault => cases kept
  | ok found =>
    cases found with
    | none => cases kept
    | some found => exact congrArg (Except.ok ∘ some) (Option.some.inj kept)

theorem finished_checkInProgress (state : RuntimeState Version)
    (result : Except Fault (Option (ValidatedCandidate Version))) :
    (state.finished result).checkInProgress = false := by
  cases result with
  | error fault => rfl
  | ok found => cases found <;> rfl

theorem Service.Sound.step (sound : service.Sound crates fromSlice trust events)
    (reached : Service.Reaches crates fromSlice trust events service) {event : Event}
    (taken : service.step crates fromSlice trust event = some next) :
    next.Sound crates fromSlice trust (events ++ [event]) := by
  cases event with
  | check call now =>
    obtain rfl : service.check trust call now = next := Option.some.inj taken
    exact sound.check call now
  | complete call response =>
    obtain ⟨configured, isConfigured, taken⟩ := Option.bind_eq_some_iff.mp taken
    obtain ⟨started, waits, rfl⟩ := Option.map_eq_some_iff.mp taken
    refine ⟨?_, ?_, fun candidate kept => ?_⟩
    · rw [sound.without waits]
      exact Nat.zero_le 1
    · rw [sound.without waits, finished_checkInProgress]
      simp
    · refine ⟨sound.without waits, configured, events, service, call, started, response, [],
        isConfigured, rfl, reached, waits, finished_candidate kept, ?_⟩
      exact fun _ member => absurd member List.not_mem_nil
  | cancel call =>
    obtain ⟨started, waits, rfl⟩ := Option.map_eq_some_iff.mp taken
    refine ⟨?_, ?_, ?_⟩
    · rw [sound.without waits]
      exact Nat.zero_le 1
    · rw [sound.without waits]
      simp [RuntimeState.dropped]
    · rintro candidate ⟨⟩
  | openDownload now =>
    obtain rfl : service = next := Option.some.inj taken
    refine ⟨sound.single, sound.progress, fun candidate kept => ?_⟩
    obtain ⟨idle, configured, before, past, call, started, response, after, isConfigured, rfl,
      earlier, waits, validated, opened⟩ := sound.candidate candidate kept
    refine ⟨idle, configured, before, past, call, started, response, after ++ [.openDownload now],
      isConfigured, by rw [List.append_assoc, List.cons_append], earlier, waits, validated, ?_⟩
    intro event member
    rcases List.mem_append.mp member with old | new
    · exact opened event old
    · exact ⟨now, List.mem_singleton.mp new⟩

theorem Service.Reaches.sound (reached : Service.Reaches crates fromSlice trust events service) :
    service.Sound crates fromSlice trust events := by
  induction reached with
  | start => exact Service.initial_sound
  | step reached taken ih => exact ih.step reached taken

structure Openable (crates : Crates Version) (fromSlice : List UInt8 → Option Manifest)
    (trust : Option ConfiguredTrust) (events : List Event) (now : Int)
    (candidate : ValidatedCandidate Version) : Prop where
  last : LastValidated crates fromSlice trust events candidate
  unexpired : now < candidate.expiresAt
  newer : ∃ current, crates.parseVersion cargoPkgVersion = some current ∧
    crates.versionLe candidate.version current = false
  authentic : ∃ configured signature, trust = some configured ∧
    decodeFixedHex 64 candidate.manifest.metadataSignature = .ok signature ∧
    crates.verify configured.metadataPublicKey candidate.manifest.canonicalSignedBytes signature = true

theorem validateManifestPolicy_authentic {manifest : Manifest} {configured : ConfiguredTrust}
    {now : Int} {validated : Version × Int}
    (valid : validateManifestPolicy crates manifest configured now = .ok validated) :
    ∃ signature, decodeFixedHex 64 manifest.metadataSignature = .ok signature ∧
      crates.verify configured.metadataPublicKey manifest.canonicalSignedBytes signature = true := by
  obtain ⟨⟨⟩, -, valid⟩ := bind_eq_ok.mp valid
  obtain ⟨version, -, valid⟩ := bind_eq_ok.mp valid
  obtain ⟨⟨⟩, -, valid⟩ := bind_eq_ok.mp valid
  obtain ⟨published, -, valid⟩ := bind_eq_ok.mp valid
  obtain ⟨expires, -, valid⟩ := bind_eq_ok.mp valid
  obtain ⟨⟨⟩, -, valid⟩ := bind_eq_ok.mp valid
  obtain ⟨⟨⟩, -, valid⟩ := bind_eq_ok.mp valid
  obtain ⟨⟨⟩, -, valid⟩ := bind_eq_ok.mp valid
  obtain ⟨signature, decoded, valid⟩ := bind_eq_ok.mp valid
  obtain ⟨⟨⟩, verified, -⟩ := bind_eq_ok.mp valid
  exact ⟨signature, decoded, require_eq_ok.mp verified⟩

theorem candidateForOpen_openable (reached : Service.Reaches crates fromSlice trust events service)
    {now : Int} {candidate : ValidatedCandidate Version}
    (offered : candidateForOpen crates trust service.state now = .ok candidate) :
    Openable crates fromSlice trust events now candidate := by
  obtain ⟨configured, isConfigured, offered⟩ := bind_eq_ok.mp offered
  obtain ⟨retained, kept, offered⟩ := bind_eq_ok.mp offered
  obtain ⟨validated, valid, offered⟩ := bind_eq_ok.mp offered
  obtain ⟨current, version, offered⟩ := bind_eq_ok.mp offered
  split_ifs at offered with stale
  obtain rfl : retained = candidate := Except.ok.inj offered
  rw [Bool.or_eq_true, decide_eq_true_eq, not_or, Int.not_le, Bool.not_eq_true] at stale
  obtain ⟨signature, decoded, verified⟩ := validateManifestPolicy_authentic valid
  exact {
    last := (reached.sound.candidate retained (orReject_eq_ok.mp kept)).2
    unexpired := stale.2
    newer := ⟨current, orReject_eq_ok.mp version, stale.1⟩
    authentic := ⟨configured, signature, orReject_eq_ok.mp isConfigured, decoded, verified⟩ }

/-- Manifests are accepted from their canonical bytes alone and told apart by what is signed, an
accepted download address stays below the trusted one, and only the manifest of the last completed
check is opened, while it is valid and newer than the running version. -/
theorem updates_authentic_canonical_current (crates : Crates Version)
    (fromSlice : List UInt8 → Option Manifest)
    (reads : ∀ manifest : Manifest, fromSlice manifest.canonicalFullBytes = some manifest) :
    (∀ bytes, strictParseManifest fromSlice bytes ≠ .error .panicked ∧
      ∀ manifest, strictParseManifest fromSlice bytes = .ok manifest ↔ IsCanonical bytes manifest) ∧
    (∀ bytes other manifest different, strictParseManifest fromSlice bytes = .ok manifest →
      strictParseManifest fromSlice other = .ok different →
      manifest.canonicalSignedBytes = different.canonicalSignedBytes →
      manifest.signed = different.signed) ∧
    (∀ value configured, validateDmgUrl crates value configured = .ok () →
      ∃ url origin, TrustedAddress crates configured value url origin) ∧
    ∀ trust events service, Service.Reaches crates fromSlice trust events service →
      ∀ now candidate, candidateForOpen crates trust service.state now = .ok candidate →
        Openable crates fromSlice trust events now candidate := by
  refine ⟨fun bytes => ⟨strictParseManifest_panicked fromSlice bytes, fun manifest =>
    strictParseManifest_eq_ok reads⟩, ?_, fun value configured => validateDmgUrl_trusted, ?_⟩
  · intro bytes other manifest different _ _ same
    exact signed_of_canonicalSignedBytes same
  · intro trust events service reached now candidate offered
    exact candidateForOpen_openable reached offered

def sampleTrust : ConfiguredTrust where
  manifestUrl := "https://updates.example/emuchef/stable.json"
  dmgOrigin := "https://updates.example"
  dmgPathPrefix := "/emuchef/releases/"
  metadataKeyId := "metadata-2026"
  metadataPublicKey := [7]
  allowHttpForTests := false

def sampleDmgUrl : String := "https://updates.example/emuchef/releases/EmuChef%209.dmg"

def sampleUrl (path : String) : Url where
  scheme := "https"
  username := ""
  password := none
  hostStr := some "updates.example"
  portOrKnownDefault := some 443
  path := path
  query := none
  fragment := none

def sampleManifest : Manifest where
  schemaVersion := 1
  product := "com.emuchef.desktop"
  channel := "stable"
  platform := "darwin"
  architecture := "aarch64"
  version := "9.0.0"
  publishedAt := "2026-07-14T20:00:00Z"
  expiresAt := "2026-07-20T20:00:00Z"
  notes := "Faster \"copies\".\nCafé."
  dmgUrl := sampleDmgUrl
  dmgSizeBytes := 42
  dmgSha256 := String.ofList (List.replicate 64 '0')
  minimumMacosVersion := some "14.0.0"
  metadataKeyId := "metadata-2026"
  metadataSignature := String.ofList (List.replicate 128 '0')

def sampleCrates : Crates Nat where
  parseUrl value :=
    if value = sampleTrust.dmgOrigin then some (sampleUrl "/")
    else if value = sampleDmgUrl then some (sampleUrl "/emuchef/releases/EmuChef%209.dmg")
    else none
  parseVersion version := List.lookup version [("0.1.0", 100), ("9.0.0", 90000), ("14.0.0", 140000)]
  isRelease _ := true
  versionLe := (· ≤ ·)
  parseRfc3339 time := List.lookup time
    [(sampleManifest.publishedAt, seconds 1784059200), (sampleManifest.expiresAt, seconds 1784577600)]
  verify key message signature :=
    key = [7] && message = sampleManifest.canonicalSignedBytes && signature = List.replicate 64 0

def sampleResponse : Response where
  status := 200
  contentTypes := [some "application/json".toList]
  contentEncodings := []
  contentLengths := [some "621".toList]
  chunks :=
    [some (sampleManifest.canonicalFullBytes.take 100), some (sampleManifest.canonicalFullBytes.drop 100)]

def sampleNow : Int := seconds 1784062800

def sampleCandidate : ValidatedCandidate Nat where
  manifest := sampleManifest
  version := 90000
  expiresAt := seconds 1784577600

def checkedService : Service Nat where
  state := RuntimeState.initial.began.finished (.ok (some sampleCandidate))
  waiting := []

/-- A canonical manifest with escapes is read back, its address is a trusted one, and the check that
received it offers it. -/
theorem updates_authentic_sample :
    strictParseManifest readCanonical sampleManifest.canonicalFullBytes = .ok sampleManifest ∧
      (∃ url origin, TrustedAddress sampleCrates sampleTrust sampleDmgUrl url origin) ∧
        candidateForOpen sampleCrates (some sampleTrust) checkedService.state sampleNow =
            .ok sampleCandidate ∧
          Openable sampleCrates readCanonical (some sampleTrust)
            [.check 0 sampleNow, .complete 0 (some sampleResponse)] sampleNow sampleCandidate := by
  obtain ⟨canonical, -, trusted, opened⟩ := updates_authentic_canonical_current sampleCrates
    readCanonical readCanonical_canonicalFullBytes
  have integers : ∀ field ∈ sampleManifest.fields, Scalar.Safe field.2 := by
    decide +kernel
  have parsed := ((canonical _).2 sampleManifest).mpr {
    encoding := rfl
    unescaped := sampleManifest.unescaped
    distinct := sampleManifest.keys_nodup
    integers := safe_iff.mp integers }
  have expected : (validateResponsePolicy sampleResponse).toOption = some 621 := by decide +kernel
  have received : (readBounded 621 [] sampleResponse.chunks).toOption =
      some sampleManifest.canonicalFullBytes := by decide +kernel
  have valid : (validateManifestPolicy sampleCrates sampleManifest sampleTrust sampleNow).toOption =
      some (90000, seconds 1784577600) := by decide +kernel
  rw [Checks.toOption_eq_some] at expected received valid
  have fetched : fetchAndValidate sampleCrates readCanonical sampleTrust sampleNow
      (some sampleResponse) = .ok (some sampleCandidate) := by
    refine bind_eq_ok.mpr ⟨_, rfl, bind_eq_ok.mpr ⟨_, expected, bind_eq_ok.mpr ⟨_, received, ?_⟩⟩⟩
    exact bind_eq_ok.mpr ⟨_, parsed, bind_eq_ok.mpr ⟨_, valid, rfl⟩⟩
  have began : Service.Reaches sampleCrates readCanonical (some sampleTrust)
      ([] ++ [.check 0 sampleNow]) _ := .step .start rfl
  have ended : Service.Reaches sampleCrates readCanonical (some sampleTrust)
      ([.check 0 sampleNow] ++ [.complete 0 (some sampleResponse)]) checkedService := by
    rw [checkedService, ← fetched]
    exact .step began rfl
  have chosen : candidateForOpen sampleCrates (some sampleTrust) checkedService.state sampleNow =
      .ok sampleCandidate :=
    bind_eq_ok.mpr ⟨_, rfl, bind_eq_ok.mpr ⟨_, rfl, bind_eq_ok.mpr ⟨_, valid, rfl⟩⟩⟩
  exact ⟨parsed, trusted sampleDmgUrl sampleTrust (by decide +kernel), chosen,
    opened _ _ _ ended _ _ chosen⟩

end

end EmuChef.Updates
