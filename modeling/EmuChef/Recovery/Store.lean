import EmuChef.Recovery.Record
import Mathlib.Data.Finset.Filter

/-! The recovery store of one process and its operations. -/

namespace EmuChef.Recovery

open Checks (require)
open Planner (trim)

inductive DraftDisposition where
  | deferred
  | restored
  | currentSession
  deriving DecidableEq

structure RecoveryStore where
  record : Option RecoveryRecord
  loadNotice : Option String
  sessionGeneration : Nat
  latestRequestGeneration : Nat
  latestDraftGeneration : Nat
  latestRecordGeneration : Nat
  disposition : Option DraftDisposition
  sensitivity : OrderedMap String Bool
  requiredReentry : Finset String
  cleanHandoffProven : Bool
  processMarkerUnavailable : Bool

structure StageRecoveryDraftRequest where
  sessionGeneration : Nat
  requestGeneration : Nat
  draftGeneration : Nat
  displayName : Option String
  dirty : Bool
  devicePlan : String
  selectedRecipes : List String
  bindings : OrderedMap String Json

structure RecoveryRecordRequest where
  sessionGeneration : Nat
  recordGeneration : Nat

def safeError (code message : String) : String :=
  (Json.object [("code", .string code), ("message", .string message)]).render

def invalidDraft : String :=
  safeError "recovery_draft_invalid" "The portable recovery draft is invalid and was not saved."

def recoveryUnavailable : String :=
  safeError "recovery_unavailable" "The recovery draft is no longer available."

def recoveryIoError (code : String) : String :=
  safeError code "Recovery data could not be updated safely."

/-- The next value of an unsigned 64-bit counter, which stays at its end and is never zero. -/
def nextGeneration (generation : Nat) : Nat := max (min (generation + 1) maxU64) 1

def RecoveryStore.load (loaded : Loaded) (markerAbsent : Bool) : RecoveryStore where
  record := loaded.record
  loadNotice := loaded.notice
  sessionGeneration := 0
  latestRequestGeneration := 0
  latestDraftGeneration := 0
  latestRecordGeneration := (loaded.record.map (·.generation)).getD 0
  disposition := none
  sensitivity := .empty
  requiredReentry := ∅
  cleanHandoffProven := markerAbsent
  processMarkerUnavailable := false

variable (store : RecoveryStore)

def availableRecovery (record : RecoveryRecord) (interrupted : Bool) : Json :=
  .object
    [("state", .string "available"),
      ("draftGeneration", .integer record.generation),
      ("displayName", (record.displayName.map Json.string).getD .null),
      ("savedAtEpochMs", .integer record.savedAtEpochMs),
      ("sourceSavedConfiguration", .bool record.sourceConfigurationId.isSome),
      ("reason", .string (if interrupted then
          "EmuChef found portable setup work from a session that did not finish normally."
        else "EmuChef found portable setup work that was kept for a later launch.")),
      ("restores", .string
        "Setup identity, selected features, and approved non-sensitive portable input references."),
      ("doesNotRestore", .string "Device identity, generated plans, review authority, execution progress, secrets, or omitted sensitive values."),
      ("restoreConsequence", .string "The setup returns as portable intent and requires a fresh device connection, validation, plan, and review."),
      ("discardConsequence", .string "Only this recovery draft is removed. Saved setup files and external content remain unchanged.")]

def recoveryPresentation (interrupted : Bool) : Json × Option String :=
  match store.record, store.loadNotice with
  | some record, notice => (availableRecovery record interrupted, notice)
  | none, some reason =>
      (.object [("state", .string "invalid_removed"), ("reason", .string reason)], none)
  | none, none => (.object [("state", .string "none")], none)

def beginSession (markerWritten : Bool) : Except String Json × RecoveryStore :=
  let first := store.sessionGeneration = 0
  let interrupted := decide first && !store.cleanHandoffProven
  if first ∧ !markerWritten then
    (.error (recoveryIoError "recovery_session_marker_failed"),
      { store with processMarkerUnavailable := true })
  else
    let shown := recoveryPresentation store interrupted
    let generation := nextGeneration store.sessionGeneration
    (.ok (.object
        [("sessionGeneration", .integer generation), ("interruptedSession", .bool interrupted),
          ("recovery", shown.1)]),
      { store with
        sessionGeneration := generation
        latestRequestGeneration := 0
        latestDraftGeneration := 0
        disposition := none
        sensitivity := .empty
        requiredReentry := ∅
        loadNotice := shown.2 })

def declarations (description : Json) : List (String × Bool) :=
  (((description.field? "inputs").bind Json.asArray).getD []).filterMap fun input => do
    let key ← (input.field? "key").bind Json.asStr
    let sensitive ← (input.field? "sensitive").bind asBool
    pure (key, sensitive)

def recordSchema (description : Json) : RecoveryStore :=
  { store with sensitivity := .ofList (declarations description) }

def noteRequiredReentry (keys : Finset String) : RecoveryStore :=
  { store with requiredReentry := store.requiredReentry ∪ keys }

def noteCurrentBindingKeys (bindings : Finset String) : RecoveryStore :=
  { store with requiredReentry := store.requiredReentry.filter (· ∉ bindings) }

def requireSession (generation : Nat) : Except String Unit :=
  require (generation = store.sessionGeneration) (safeError "recovery_session_stale"
    "The recovery request belongs to an older application session.")

def requireRecordGeneration (generation : Nat) : Except String Unit :=
  require (store.record.map (·.generation) = some generation) (safeError "recovery_generation_conflict"
    "The recovery draft changed before this action completed.")

section

variable (request : StageRecoveryDraftRequest)

def admitDraft : Except String Unit := do
  requireSession store request.sessionGeneration
  require (store.latestRequestGeneration < request.requestGeneration ∧
      store.latestDraftGeneration < request.draftGeneration)
    (safeError "recovery_generation_stale" "A newer recovery draft request has already been accepted.")
  require (validateIdentifier request.devicePlan.toList) invalidDraft
  require (request.selectedRecipes.length ≤ maxRecipes) invalidDraft
  require (request.selectedRecipes.all fun recipe => validateIdentifier recipe.toList) invalidDraft
  require (request.bindings.entries.length ≤ maxBindings) invalidDraft

def safeOptionalName (value : Option String) : Option String :=
  value.bind fun name =>
    if trim name = "" then none else some (String.ofList ((trim name).toList.take 120))

def keepsValue (entry : String × Json) : Bool := store.sensitivity.get? entry.1 = some false

def draftRecord (source : Option (String × String)) (now : Nat) : Except String RecoveryRecord := do
  let entries := sortKeys request.bindings.entries
  require (entries.all fun entry => validateBindingKey entry.1 && validateValue 0 entry.2) invalidDraft
  let record : RecoveryRecord := {
    schemaVersion := recoverySchemaVersion
    generation := nextGeneration store.latestRecordGeneration
    savedAtEpochMs := min now maxU64
    dirty := request.dirty
    displayName := (source.map Prod.snd).or (safeOptionalName request.displayName)
    sourceConfigurationId := source.map Prod.fst
    devicePlan := request.devicePlan
    selectedRecipes := request.selectedRecipes
    bindings := .ofList (entries.filter (keepsValue store))
    omittedBindings := (entries.filter fun entry => !keepsValue store entry).map Prod.fst }
  require (validateRecord record) invalidDraft
  pure record

def accepted (record : RecoveryRecord) : RecoveryStore :=
  { store with
    record := some record
    latestRequestGeneration := request.requestGeneration
    latestDraftGeneration := request.draftGeneration
    latestRecordGeneration := record.generation
    disposition := some .currentSession }

def stagedAnswer (record : RecoveryRecord) : Json :=
  .object
    [("requestGeneration", .integer request.requestGeneration),
      ("draftGeneration", .integer request.draftGeneration),
      ("recordGeneration", .integer record.generation),
      ("omittedBindings", Json.strings record.omittedBindings)]

def stage (source : Option (String × String)) (now : Nat) (write : WriteOutcome) (file : Node) :
    Except String Json × RecoveryStore × Node :=
  match admitDraft store request with
  | .error stop => (.error stop, store, file)
  | .ok () =>
      let noted := noteCurrentBindingKeys store request.bindings.keys.toFinset
      match draftRecord noted request source now with
      | .error stop => (.error stop, noted, file)
      | .ok record =>
          if write = .replaced then
            (.ok (stagedAnswer request record), accepted noted request record,
              persistRecord record file write)
          else
            (.error (recoveryIoError "recovery_write_failed"), noted, persistRecord record file write)

end

section

variable (request : RecoveryRecordRequest)

def defer : Except String RecoveryStore := do
  requireSession store request.sessionGeneration
  requireRecordGeneration store request.recordGeneration
  pure { store with disposition := some .deferred }

def prepareRestore : Except String (RecoveryRecord × RecoveryStore) := do
  requireSession store request.sessionGeneration
  requireRecordGeneration store request.recordGeneration
  match store.record with
  | none => .error recoveryUnavailable
  | some record =>
      pure (record, { store with
        requiredReentry := record.omittedBindings.toFinset
        disposition := some .restored })

def clearUnchecked (removed : Bool) : Except String RecoveryStore := do
  require (removed = true) (recoveryIoError "recovery_clear_failed")
  pure { store with record := none, disposition := none, requiredReentry := ∅ }

def clear (removed : Bool) : Except String RecoveryStore := do
  requireSession store request.sessionGeneration
  requireRecordGeneration store request.recordGeneration
  clearUnchecked store removed

def clearAfterSave (removed : Bool) : Except String RecoveryStore := clearUnchecked store removed

def resetRecoveryData (expectedGeneration : Nat) (removed : Bool) : Except String RecoveryStore := do
  requireRecordGeneration store expectedGeneration
  clearUnchecked store removed

end

end EmuChef.Recovery
