import EmuChef.Recovery.Store
import Mathlib.Data.Finset.Lattice.Lemmas

/-! Staged drafts over runs of operations, failures and crashes. -/

namespace EmuChef.Recovery

open Checks (bind_eq_ok require_eq_ok)

section

/-- What the run promises so far: the draft that must survive, the keys of restored drafts that were
not bound again, whether a draft was restored since the session began, and the latest schema. -/
structure History where
  kept : Option RecoveryRecord
  owed : Finset String
  restored : Bool
  schema : Option Json

/-- The file, the store of the running process, if there is one, and the promises. -/
structure World where
  file : Node
  store : Option RecoveryStore
  history : History

inductive Event where
  | load (outcome : LoadOutcome) (markerAbsent : Bool)
  | crash
  | beginSession (markerWritten : Bool)
  | recordSchema (description : Json)
  | noteRequiredReentry (keys : Finset String)
  | noteCurrentBindingKeys (keys : Finset String)
  | stage (request : StageRecoveryDraftRequest) (source : Option (String × String)) (now : Nat)
      (write : WriteOutcome)
  -- the process ends when the file is renamed
  | crashInStage (request : StageRecoveryDraftRequest) (source : Option (String × String)) (now : Nat)
  | defer (request : RecoveryRecordRequest)
  | restore (request : RecoveryRecordRequest)
  | clear (request : RecoveryRecordRequest) (removed : Bool)
  | clearAfterSave (removed : Bool)
  | resetRecoveryData (expectedGeneration : Nat) (removed : Bool)
  -- the process ends when the file is removed
  | crashInClear

def start (file : Node) : World := ⟨file, none, ⟨none, ∅, false, none⟩⟩

def preparedRecord (store : RecoveryStore) (request : StageRecoveryDraftRequest)
    (source : Option (String × String)) (now : Nat) : Except String RecoveryRecord :=
  draftRecord (noteCurrentBindingKeys store request.bindings.keys.toFinset) request source now

def History.staged (history : History) (record : Option RecoveryRecord) (keys : List String) : History :=
  { history with kept := record, owed := history.owed.filter (· ∉ keys) }

def History.ended (history : History) : History := { history with restored := false, schema := none }

def History.discarded (history : History) : History := { history with kept := none, owed := ∅ }

def World.cleared (world : World) (outcome : Except String RecoveryStore) : World :=
  match outcome with
  | .ok store => ⟨.absent, some store, world.history.discarded⟩
  | .error _ => world

variable (parse : String → Option Json) (world : World)

def operate (store : RecoveryStore) : Event → World
  | .beginSession markerWritten =>
      match beginSession store markerWritten with
      | (.ok _, next) => ⟨world.file, some next, world.history.ended⟩
      | (.error _, next) => { world with store := some next }
  | .recordSchema description =>
      ⟨world.file, some (recordSchema store description),
        { world.history with schema := some description }⟩
  | .noteRequiredReentry keys => { world with store := some (noteRequiredReentry store keys) }
  | .noteCurrentBindingKeys keys =>
      ⟨world.file, some (noteCurrentBindingKeys store keys),
        { world.history with owed := world.history.owed.filter (· ∉ keys) }⟩
  | .stage request source now write =>
      match stage store request source now write world.file with
      | (.ok _, next, file) =>
          ⟨file, some next, world.history.staged next.record request.bindings.keys⟩
      | (.error _, next, file) => ⟨file, some next, world.history⟩
  | .crashInStage request source now =>
      match admitDraft store request, preparedRecord store request source now with
      | .ok (), .ok record =>
          ⟨persistRecord record world.file .replaced, none,
            (world.history.staged (some record) request.bindings.keys).ended⟩
      | _, _ => ⟨world.file, none, world.history.ended⟩
  | .defer request =>
      match defer store request with
      | .ok next => { world with store := some next }
      | .error _ => world
  | .restore request =>
      match prepareRestore store request with
      | .ok (record, next) =>
          ⟨world.file, some next, { world.history with
            owed := world.history.owed ∪ record.omittedBindings.toFinset
            restored := true }⟩
      | .error _ => world
  | .clear request removed => world.cleared (clear store request removed)
  | .clearAfterSave removed => world.cleared (clearAfterSave store removed)
  | .resetRecoveryData expectedGeneration removed =>
      world.cleared (resetRecoveryData store expectedGeneration removed)
  | .crashInClear => ⟨.absent, none, world.history.discarded.ended⟩
  | .crash => ⟨world.file, none, world.history.ended⟩
  | .load _ _ => world

def after (event : Event) : World :=
  match event with
  | .load outcome markerAbsent =>
      let loaded := loadRecord parse world.file outcome
      ⟨loaded.file, some (RecoveryStore.load loaded markerAbsent), world.history.ended⟩
  | event =>
      match world.store with
      | some store => operate world store event
      | none => world

end

section

variable (parse : String → Option Json)

def LoadsTo (file : Node) (record : RecoveryRecord) : Prop :=
  ∀ outcome : LoadOutcome, outcome.metadata = true → outcome.read = true →
    loadRecord parse file outcome = ⟨some record, none, file⟩

def Listed (world : World) (key : String) : Prop :=
  match world.store with
  | some store =>
      if world.history.restored then key ∈ store.requiredReentry
      else ∃ record, store.record = some record ∧ key ∈ record.omittedBindings
  | none => ∃ record, LoadsTo parse world.file record ∧ key ∈ record.omittedBindings

structure Sound (world : World) : Prop where
  survives : ∀ record, world.history.kept = some record → LoadsTo parse world.file record ∧
    ∀ store, world.store = some store → store.record = some record
  listed : ∀ key ∈ world.history.owed, Listed parse world key

def DeclaredOpen (schema : Option Json) (key : String) : Prop :=
  ∃ description before rest, schema = some description ∧
    declarations description = before ++ (key, false) :: rest ∧ key ∉ rest.map Prod.fst

/-- The identifiers, selections and values of a request, each value kept or its key omitted. -/
structure Mirrors (request : StageRecoveryDraftRequest) (source : Option (String × String))
    (record : RecoveryRecord) : Prop where
  devicePlan : record.devicePlan = request.devicePlan
  selectedRecipes : record.selectedRecipes = request.selectedRecipes
  dirty : record.dirty = request.dirty
  sourceConfigurationId : record.sourceConfigurationId = source.map Prod.fst
  kept : ∀ key value, record.bindings.get? key = some value → request.bindings.get? key = some value
  omitted : ∀ key, key ∈ record.omittedBindings ↔
    key ∈ request.bindings.keys ∧ key ∉ record.bindings.keys

/-- What a stage does: a refused one changes neither the draft nor the re-entry markers, and an
accepted one makes its request the draft that must survive. -/
def LawfulStage (world : World) (store : RecoveryStore) (request : StageRecoveryDraftRequest)
    (source : Option (String × String)) (now : Nat) (write : WriteOutcome) : Prop :=
  let result := stage store request source now write world.file
  (∀ stop, result.1 = .error stop → result.2.2 = world.file ∧
      result.2.1.record = store.record ∧ result.2.1.requiredReentry = store.requiredReentry) ∧
    ∀ answer, result.1 = .ok answer → ∃ record,
      (operate world store (.stage request source now write)).history.kept = some record ∧
        Mirrors request source record

def WritesDeclared (world next : World) : Prop :=
  next.file = world.file ∨ next.file = .absent ∨ ∃ record : RecoveryRecord,
    next.file = .regular record.text ∧
      ∀ entry ∈ record.bindings.entries, DeclaredOpen world.history.schema entry.1

structure Lawful (world : World) (event : Event) : Prop where
  stage : ∀ store request source now write, world.store = some store →
    event = .stage request source now write → LawfulStage world store request source now write
  writes : WritesDeclared world (after parse world event)

def HoldsThroughout : World → List Event → Prop
  | world, [] => Sound parse world
  | world, event :: rest =>
      Sound parse world ∧ Lawful parse world event ∧ HoldsThroughout (after parse world event) rest

end

section

variable {parse : String → Option Json} {record : RecoveryRecord} {file : Node}

theorem asU64_integer {value : Nat} (bounded : value ≤ maxU64) :
    asU64 (.integer value) = some value := by
  rw [asU64, if_pos ⟨Int.natCast_nonneg value, Int.ofNat_le.mpr bounded⟩, Int.toNat_natCast]

theorem asStrings_strings (texts : List String) : asStrings (Json.strings texts) = some texts := by
  rw [asStrings, Json.strings, Json.asArray, Option.bind_some]
  induction texts with
  | nil => rfl
  | cons text rest ih => rw [List.map_cons, List.mapM_cons, ih]; rfl

theorem asMap_entries (map : OrderedMap String Json) : asMap (.object map.entries) = some map := by
  rw [asMap, Json.asObject, Option.map_some]
  exact congrArg some (OrderedMap.ext_entries (OrderedMap.entries_ofList map.distinct))

theorem optionalText_map (text : Option String) :
    optionalText (text.map Json.string) = some text := by
  cases text with
  | none => rfl
  | some value => rfl

theorem recordOfJson_toJson (version : record.schemaVersion ≤ maxU64)
    (generation : record.generation ≤ maxU64) (saved : record.savedAtEpochMs ≤ maxU64) :
    recordOfJson record.toJson = some record := by
  obtain ⟨schemaVersion, generation, savedAtEpochMs, dirty, displayName, sourceConfigurationId,
    devicePlan, selectedRecipes, bindings, omittedBindings⟩ := record
  rw [RecoveryRecord.toJson, recordOfJson, if_pos]
  · simp [recordOfFields, asU64_integer, *, asBool, optionalText_map, Json.asStr, asStrings_strings,
      asMap_entries]
  · cases displayName with
    | none => cases sourceConfigurationId <;> simp [Json.optionalField, recordFields]
    | some name => cases sourceConfigurationId <;> simp [Json.optionalField, recordFields]

def Durable (parse : String → Option Json) (record : RecoveryRecord) : Prop :=
  record.text.utf8ByteSize ≤ maxRecoveryBytes ∧ parse record.text = some record.toJson

structure Bounded (record : RecoveryRecord) : Prop where
  schemaVersion : record.schemaVersion = recoverySchemaVersion
  generation : record.generation ≤ maxU64
  savedAtEpochMs : record.savedAtEpochMs ≤ maxU64

theorem textVersion_toJson (bounded : Bounded record) :
    textVersion record.toJson = some recoverySchemaVersion := by
  have fields : ∃ rest, record.toJson =
      .object (("schemaVersion", .integer record.schemaVersion) :: rest) ∧
        "schemaVersion" ∉ rest.map Prod.fst := by
    refine ⟨_, rfl, ?_⟩
    cases record.displayName <;> cases record.sourceConfigurationId <;> simp [Json.optionalField]
  obtain ⟨rest, same, absent⟩ := fields
  rw [textVersion, same, asMap, Json.asObject, Option.map_some, Option.bind_some]
  have held : (OrderedMap.ofList (("schemaVersion", Json.integer record.schemaVersion) :: rest)).get?
      "schemaVersion" = some (.integer record.schemaVersion) := by
    refine OrderedMap.get?_ofList_of_agree (.head _) fun other member => ?_
    rcases List.mem_cons.mp member with first | later
    · exact (Prod.mk.inj first).2
    · exact absurd (List.mem_map_of_mem later) absent
  rw [held, bounded.schemaVersion]
  rfl

theorem loadsTo_text (valid : validateRecord record = true) (bounded : Bounded record)
    (durable : Durable parse record) : LoadsTo parse (.regular record.text) record := by
  intro outcome metadata read
  have supported : record.schemaVersion ≤ maxU64 := by
    rw [bounded.schemaVersion]
    decide
  have again := recordOfJson_toJson supported bounded.generation bounded.savedAtEpochMs
  have current := textVersion_toJson bounded
  have fits : ¬record.text.utf8ByteSize > maxRecoveryBytes := not_lt.mpr durable.1
  have version : otherVersion parse record.text = false := by
    rw [otherVersion, durable.2, Option.bind_some, current]
    rfl
  simp [loadRecord, metadata, fits, read, version, durable.2, again, valid]

theorem loadRecord_loadsTo {outcome : LoadOutcome}
    (found : (loadRecord parse file outcome).record = some record) :
    (loadRecord parse file outcome).file = file ∧ LoadsTo parse file record := by
  by_cases metadata : outcome.metadata = true
  · cases file with
    | absent => simp [loadRecord, metadata] at found
    | other => simp [loadRecord, metadata] at found
    | regular text =>
        by_cases oversized : text.utf8ByteSize > maxRecoveryBytes
        · simp [loadRecord, metadata, oversized] at found
        by_cases read : outcome.read = true
        · by_cases version : otherVersion parse text = true
          · simp [loadRecord, metadata, oversized, read, version] at found
          cases held : (parse text).bind recordOfJson with
          | none => simp [loadRecord, metadata, oversized, read, version, held] at found
          | some other =>
              by_cases valid : validateRecord other = true
              · have loads : LoadsTo parse (.regular text) other := by
                  intro again first second
                  simp [loadRecord, first, oversized, second, version, held, valid]
                rw [loads outcome metadata read] at found ⊢
                cases found
                exact ⟨rfl, loads⟩
              · simp [loadRecord, metadata, oversized, read, version, held, valid] at found
        · simp [loadRecord, metadata, oversized, read] at found
  · simp [loadRecord, metadata] at found

theorem LoadsTo.unique {other : RecoveryRecord} (first : LoadsTo parse file record)
    (second : LoadsTo parse file other) : record = other := by
  have both := (first ⟨true, true, true⟩ rfl rfl).symm.trans (second ⟨true, true, true⟩ rfl rfl)
  exact Option.some.inj (congrArg Loaded.record both)

end

section

variable {store : RecoveryStore} {request : StageRecoveryDraftRequest}
  {source : Option (String × String)} {now : Nat} {record : RecoveryRecord}

theorem nextGeneration_le (generation : Nat) : nextGeneration generation ≤ maxU64 :=
  max_le (min_le_right _ _) (by decide)

theorem draftRecord_eq_ok (prepared : draftRecord store request source now = .ok record) :
    (validateRecord record = true ∧ Bounded record ∧ Mirrors request source record) ∧
      ∀ entry ∈ record.bindings.entries, store.sensitivity.get? entry.1 = some false := by
  simp only [draftRecord, bind_eq_ok] at prepared
  obtain ⟨_, _, _, valid, same⟩ := prepared
  have checked := require_eq_ok.mp valid
  cases Except.ok.inj same
  have listed : ∀ entry ∈ (OrderedMap.ofList ((sortKeys request.bindings.entries).filter
      (keepsValue store))).entries, entry ∈ request.bindings.entries ∧ keepsValue store entry = true := by
    intro entry member
    have held := OrderedMap.mem_of_get?_ofList (OrderedMap.get?_eq_some.mpr member)
    exact ⟨mem_sortKeys.mp (List.mem_of_mem_filter held), (List.mem_filter.mp held).2⟩
  refine ⟨⟨checked, ⟨rfl, nextGeneration_le _, min_le_right _ _⟩, ⟨rfl, rfl, rfl, rfl, ?_, ?_⟩⟩, ?_⟩
  · intro key value found
    exact OrderedMap.get?_eq_some.mpr (listed _ (OrderedMap.get?_eq_some.mp found)).1
  · intro key
    rw [OrderedMap.mem_keys_ofList]
    simp only [List.mem_map, List.mem_filter, mem_sortKeys, OrderedMap.keys]
    constructor
    · rintro ⟨entry, ⟨member, omitted⟩, rfl⟩
      refine ⟨⟨entry, member, rfl⟩, ?_⟩
      rintro ⟨other, ⟨_, kept⟩, same⟩
      rw [keepsValue, same] at kept
      rw [keepsValue, kept] at omitted
      cases omitted
    · rintro ⟨⟨entry, member, rfl⟩, absent⟩
      refine ⟨entry, ⟨member, ?_⟩, rfl⟩
      by_contra kept
      exact absent ⟨entry, ⟨member, by simpa using kept⟩, rfl⟩
  · intro entry member
    exact of_decide_eq_true (listed entry member).2

theorem declaredOpen_of_get? {description : Json} {key : String}
    (held : (OrderedMap.ofList (declarations description)).get? key = some false) :
    DeclaredOpen (some description) key := by
  obtain ⟨before, rest, spelled, absent⟩ := OrderedMap.exists_last_of_get?_ofList held
  exact ⟨description, before, rest, rfl, spelled, absent⟩

theorem stage_cases {write : WriteOutcome} {file : Node} :
    (∃ stop, admitDraft store request = .error stop ∧
      stage store request source now write file = (.error stop, store, file)) ∨
    (admitDraft store request = .ok () ∧
      (∀ record, preparedRecord store request source now ≠ .ok record) ∧
      ∃ stop, stage store request source now write file =
        (.error stop, noteCurrentBindingKeys store request.bindings.keys.toFinset, file)) ∨
    ∃ record, admitDraft store request = .ok () ∧
      preparedRecord store request source now = .ok record ∧
      ((write = .replaced ∧ stage store request source now write file =
          (.ok (stagedAnswer request record),
            accepted (noteCurrentBindingKeys store request.bindings.keys.toFinset) request record,
            .regular record.text)) ∨
        (write ≠ .replaced ∧ ∃ stop, stage store request source now write file =
          (.error stop, noteCurrentBindingKeys store request.bindings.keys.toFinset,
            persistRecord record file write))) := by
  unfold stage
  cases admitted : admitDraft store request with
  | error stop => exact .inl ⟨stop, rfl, rfl⟩
  | ok held =>
      cases prepared : preparedRecord store request source now with
      | error stop =>
          refine .inr (.inl ⟨rfl, fun record found => (by cases found), stop, ?_⟩)
          rw [preparedRecord] at prepared
          simp only [prepared]
      | ok record =>
          refine .inr (.inr ⟨record, rfl, rfl, ?_⟩)
          rw [preparedRecord] at prepared
          simp only [prepared]
          by_cases replaced : write = .replaced
          · exact .inl ⟨replaced, by rw [if_pos replaced, replaced]; rfl⟩
          · exact .inr ⟨replaced, _, by rw [if_neg replaced]⟩

end

section

variable (parse : String → Option Json)

/-- A stage that is accepted writes a durable record and binds every key that is owed; the rename is
not followed by a failure; a stage that fails after the early checks binds no key that is marked. -/
structure CarefulStage (world : World) (store : RecoveryStore) (request : StageRecoveryDraftRequest)
    (source : Option (String × String)) (now : Nat) (write : WriteOutcome) : Prop where
  durable : ∀ record, preparedRecord store request source now = .ok record → write = .replaced →
    Durable parse record ∧ ∀ key ∈ world.history.owed, key ∈ request.bindings.keys
  settled : ∀ record, preparedRecord store request source now = .ok record →
    write ≠ .replacedThenFailed
  unbound : (∀ record, preparedRecord store request source now = .ok record → write ≠ .replaced) →
    ∀ key ∈ store.requiredReentry, key ∉ request.bindings.keys

/-- The condition on one step. A load that fails to read the file is harmless only while nothing is
promised of it. -/
def Careful (world : World) : Event → Prop
  | .load outcome _ => (outcome.metadata = true ∧ outcome.read = true) ∨
      (world.history.kept = none ∧ world.history.owed = ∅)
  | .stage request source now write => ∀ store, world.store = some store →
      admitDraft store request = .ok () → CarefulStage parse world store request source now write
  | .crashInStage request source now => ∀ store, world.store = some store →
      admitDraft store request = .ok () → CarefulStage parse world store request source now .replaced
  | _ => True

def CarefulRun : World → List Event → Prop
  | _, [] => True
  | world, event :: rest => Careful parse world event ∧ CarefulRun (after parse world event) rest

end

section

variable (parse : String → Option Json)

/-- The facts about a running process: its record is the one in the file, and it has the markers of
the drafts that it restored. -/
structure Running (file : Node) (store : RecoveryStore) (history : History) : Prop where
  held : ∀ record, store.record = some record → LoadsTo parse file record
  survives : ∀ record, history.kept = some record → store.record = some record
  owed : ∀ key ∈ history.owed,
    (∃ record, store.record = some record ∧ key ∈ record.omittedBindings) ∧
      (history.restored = true → key ∈ store.requiredReentry)
  schema : store.sensitivity =
    (history.schema.map fun description => .ofList (declarations description)).getD .empty

structure Stopped (file : Node) (history : History) : Prop where
  survives : ∀ record, history.kept = some record → LoadsTo parse file record
  owed : ∀ key ∈ history.owed, ∃ record, LoadsTo parse file record ∧ key ∈ record.omittedBindings

def Invariant (world : World) : Prop :=
  match world.store with
  | some store => Running parse world.file store world.history
  | none => Stopped parse world.file world.history

variable {parse} {world : World} {file : Node} {store next : RecoveryStore} {history : History}

section

variable (running : Running parse file store history)

include running

theorem Running.stopped : Stopped parse file history.ended where
  survives record kept := running.held record (running.survives record kept)
  owed key member := by
    obtain ⟨⟨record, held, omitted⟩, _⟩ := running.owed key member
    exact ⟨record, running.held record held, omitted⟩

theorem Running.step (record : next.record = store.record)
    (sensitivity : next.sensitivity = store.sensitivity)
    (markers : history.restored = true →
      ∀ key ∈ history.owed, key ∈ store.requiredReentry → key ∈ next.requiredReentry) :
    Running parse file next history where
  held := by
    rw [record]
    exact running.held
  survives := by
    rw [record]
    exact running.survives
  owed key member := by
    rw [record]
    refine ⟨(running.owed key member).1, fun restored => ?_⟩
    exact markers restored key member ((running.owed key member).2 restored)
  schema := by
    rw [sensitivity]
    exact running.schema

omit running in
theorem invariant_sound (invariant : Invariant parse world) : Sound parse world := by
  obtain ⟨file, store, history⟩ := world
  cases store with
  | none =>
      exact {
        survives := fun record kept => ⟨invariant.survives record kept, fun store found => by cases found⟩
        listed := invariant.owed }
  | some store =>
      have running : Running parse file store history := invariant
      refine ⟨fun record kept => ?_, fun key member => ?_⟩
      · have found := running.survives record kept
        refine ⟨running.held record found, fun other same => ?_⟩
        rw [← Option.some.inj same, found]
      · obtain ⟨offered, marked⟩ := running.owed key member
        change if history.restored = true then key ∈ store.requiredReentry else
          ∃ record, store.record = some record ∧ key ∈ record.omittedBindings
        split_ifs with restored
        · exact marked restored
        · exact offered

omit running in
theorem load_invariant {outcome : LoadOutcome} {markerAbsent : Bool}
    (careful : Careful parse world (.load outcome markerAbsent))
    (stopped : Stopped parse world.file world.history) :
    Invariant parse (after parse world (.load outcome markerAbsent)) := by
  have known : ∀ record, LoadsTo parse world.file record →
      world.history.kept ≠ none ∨ world.history.owed.Nonempty →
      loadRecord parse world.file outcome = ⟨some record, none, world.file⟩ := by
    intro record loads promised
    rcases careful with ⟨metadata, read⟩ | ⟨nothing, empty⟩
    · exact loads outcome metadata read
    · rcases promised with kept | ⟨key, member⟩
      · exact absurd nothing kept
      · rw [empty] at member
        exact absurd member (Finset.notMem_empty key)
  change Running parse _ (RecoveryStore.load _ markerAbsent) world.history.ended
  refine ⟨fun record found => ?_, fun record kept => ?_, fun key member => ⟨?_, fun restored => ?_⟩, rfl⟩
  · obtain ⟨same, loads⟩ := loadRecord_loadsTo found
    change LoadsTo parse (loadRecord parse world.file outcome).file record
    rw [same]
    exact loads
  · have kept : world.history.kept = some record := kept
    have loaded := known record (stopped.survives record kept) (.inl (by simp [kept]))
    simp only [RecoveryStore.load, loaded]
  · obtain ⟨record, loads, omitted⟩ := stopped.owed key member
    have loaded := known record loads (.inr ⟨key, member⟩)
    exact ⟨record, by simp only [RecoveryStore.load, loaded], omitted⟩
  · cases restored

theorem beginSession_invariant {markerWritten : Bool} (here : world = ⟨file, some store, history⟩) :
    Invariant parse (operate world store (.beginSession markerWritten)) := by
  subst here
  by_cases failed : store.sessionGeneration = 0 ∧ !markerWritten
  · simp only [operate, beginSession, if_pos failed]
    exact running.step rfl rfl fun _ _ _ marked => marked
  · simp only [operate, beginSession, if_neg failed]
    exact {
      held := running.held
      survives := running.survives
      owed := fun key member => ⟨(running.owed key member).1, fun restored => by cases restored⟩
      schema := rfl }

variable {source : Option (String × String)} {request : StageRecoveryDraftRequest}

theorem staged_running {now : Nat}
    {record : RecoveryRecord} (prepared : preparedRecord store request source now = .ok record)
    (durable : Durable parse record) (bound : ∀ key ∈ history.owed, key ∈ request.bindings.keys) :
    Running parse (.regular record.text)
      (accepted (noteCurrentBindingKeys store request.bindings.keys.toFinset) request record)
      (history.staged (some record) request.bindings.keys) := by
  obtain ⟨⟨valid, bounded, _⟩, _⟩ := draftRecord_eq_ok prepared
  refine ⟨fun other found => ?_, fun other kept => kept, fun key member => ?_, running.schema⟩
  · rw [← Option.some.inj found]
    exact loadsTo_text valid bounded durable
  · obtain ⟨owed, free⟩ := Finset.mem_filter.mp member
    exact absurd (bound key owed) free

theorem stage_invariant {now : Nat} {write : WriteOutcome}
    (careful : Careful parse ⟨file, some store, history⟩ (.stage request source now write)) :
    Invariant parse (operate ⟨file, some store, history⟩ store (.stage request source now write)) := by
  have noted (free : ∀ key ∈ store.requiredReentry, key ∉ request.bindings.keys) :
      Running parse file (noteCurrentBindingKeys store request.bindings.keys.toFinset) history := by
    refine running.step rfl rfl fun _ key _ marked => Finset.mem_filter.mpr ⟨marked, ?_⟩
    rw [List.mem_toFinset]
    exact free key marked
  rcases @stage_cases store request source now write file with
    ⟨stop, _, same⟩ | ⟨admitted, unprepared, stop, same⟩ | ⟨record, admitted, prepared, outcome⟩
  · simp only [operate, same]
    exact running
  · have step := careful store rfl admitted
    simp only [operate, same]
    exact noted (step.unbound fun record prepared => absurd prepared (unprepared record))
  · have step := careful store rfl admitted
    rcases outcome with ⟨replaced, same⟩ | ⟨unwritten, stop, same⟩
    · obtain ⟨durable, bound⟩ := step.durable record prepared replaced
      simp only [operate, same]
      exact staged_running running prepared durable bound
    · have kept : persistRecord record file write = file := by
        cases write with
        | failed => rfl
        | replacedThenFailed => exact absurd rfl (step.settled record prepared)
        | replaced => exact absurd rfl unwritten
      simp only [operate, same, kept]
      exact noted (step.unbound fun _ _ => unwritten)

theorem crashInStage_invariant {now : Nat}
    (careful : Careful parse ⟨file, some store, history⟩ (.crashInStage request source now)) :
    Invariant parse (operate ⟨file, some store, history⟩ store (.crashInStage request source now)) := by
  rw [operate]
  split
  next record admitted prepared =>
    obtain ⟨durable, bound⟩ := (careful store rfl admitted).durable record prepared rfl
    exact (staged_running running prepared durable bound).stopped
  next => exact running.stopped

omit running in
theorem prepareRestore_eq_ok {request : RecoveryRecordRequest} {record : RecoveryRecord}
    (restored : prepareRestore store request = .ok (record, next)) :
    store.record = some record ∧ next = { store with
      requiredReentry := record.omittedBindings.toFinset
      disposition := some .restored } := by
  obtain ⟨_, _, restored⟩ := bind_eq_ok.mp restored
  obtain ⟨_, _, restored⟩ := bind_eq_ok.mp restored
  split at restored
  next => cases restored
  next draft held =>
    cases Except.ok.inj restored
    exact ⟨held, rfl⟩

theorem restore_invariant {request : RecoveryRecordRequest} :
    Invariant parse (operate ⟨file, some store, history⟩ store (.restore request)) := by
  rw [operate]
  split
  next record next restored =>
    obtain ⟨held, rfl⟩ := prepareRestore_eq_ok restored
    have listed : ∀ key ∈ history.owed ∪ record.omittedBindings.toFinset,
        key ∈ record.omittedBindings := by
      intro key member
      rcases Finset.mem_union.mp member with earlier | own
      · obtain ⟨other, same, omitted⟩ := (running.owed key earlier).1
        rw [Option.some.inj (held.symm.trans same)]
        exact omitted
      · exact List.mem_toFinset.mp own
    refine ⟨running.held, running.survives, fun key member => ⟨⟨record, held, listed key member⟩, ?_⟩,
      running.schema⟩
    exact fun _ => List.mem_toFinset.mpr (listed key member)
  next => exact running

end

theorem cleared_invariant (removed : Bool) {outcome : Except String RecoveryStore}
    (running : Running parse file store history)
    (cleared : ∀ next, outcome = .ok next → clearUnchecked store removed = .ok next) :
    Invariant parse (World.cleared ⟨file, some store, history⟩ outcome) := by
  cases outcome with
  | error stop => exact running
  | ok next =>
      obtain ⟨_, _, same⟩ := bind_eq_ok.mp (cleared next rfl)
      cases Except.ok.inj same
      exact {
        held := fun record found => by cases found
        survives := fun record kept => by cases kept
        owed := fun key member => absurd member (Finset.notMem_empty key)
        schema := running.schema }

theorem after_invariant {event : Event} (invariant : Invariant parse world)
    (careful : Careful parse world event) : Invariant parse (after parse world event) := by
  obtain ⟨file, store, history⟩ := world
  cases store with
  | none =>
      cases event with
      | load outcome markerAbsent => exact load_invariant careful invariant
      | _ => exact invariant
  | some store =>
      have running : Running parse file store history := invariant
      cases event with
      | load outcome markerAbsent =>
          exact load_invariant careful ⟨running.stopped.survives, running.stopped.owed⟩
      | crash => exact running.stopped
      | beginSession markerWritten => exact beginSession_invariant running rfl
      | recordSchema description =>
          exact ⟨running.held, running.survives, running.owed, rfl⟩
      | noteRequiredReentry keys =>
          exact running.step rfl rfl fun _ _ _ marked => Finset.mem_union_left keys marked
      | noteCurrentBindingKeys keys =>
          refine ⟨running.held, running.survives, fun key member => ?_, running.schema⟩
          obtain ⟨owed, free⟩ := Finset.mem_filter.mp member
          obtain ⟨offered, marked⟩ := running.owed key owed
          exact ⟨offered, fun restored => Finset.mem_filter.mpr ⟨marked restored, free⟩⟩
      | stage request source now write => exact stage_invariant running careful
      | crashInStage request source now => exact crashInStage_invariant running careful
      | defer request =>
          change Invariant parse (operate ⟨file, some store, history⟩ store (.defer request))
          rw [operate]
          split
          next next deferred =>
            obtain ⟨_, _, deferred⟩ := bind_eq_ok.mp deferred
            obtain ⟨_, _, deferred⟩ := bind_eq_ok.mp deferred
            cases Except.ok.inj deferred
            exact running.step rfl rfl fun _ _ _ marked => marked
          next => exact running
      | restore request => exact restore_invariant running
      | clear request removed =>
          refine cleared_invariant removed running fun next cleared => ?_
          obtain ⟨_, _, cleared⟩ := bind_eq_ok.mp cleared
          obtain ⟨_, _, cleared⟩ := bind_eq_ok.mp cleared
          exact cleared
      | clearAfterSave removed => exact cleared_invariant removed running fun _ cleared => cleared
      | resetRecoveryData expectedGeneration removed =>
          refine cleared_invariant removed running fun next cleared => ?_
          obtain ⟨_, _, cleared⟩ := bind_eq_ok.mp cleared
          exact cleared
      | crashInClear =>
          exact {
            survives := fun record kept => by cases kept
            owed := fun key member => absurd member (Finset.notMem_empty key) }

end

section

variable {parse : String → Option Json} {world : World} {file : Node} {store : RecoveryStore}
  {history : History}

theorem loadRecord_file {outcome : LoadOutcome} :
    (loadRecord parse file outcome).file = file ∨ (loadRecord parse file outcome).file = .absent := by
  have removal : file.remove outcome.removed = file ∨ file.remove outcome.removed = .absent := by
    rw [Node.remove]
    split_ifs
    · exact .inr rfl
    · exact .inl rfl
  unfold loadRecord
  split
  · split
    · exact .inl rfl
    · exact removal
    · split_ifs
      · exact removal
      · exact removal
      · exact removal
      · split
        · split
          · exact .inl rfl
          · exact removal
        · exact removal
  · exact .inl rfl

variable {source : Option (String × String)} {request : StageRecoveryDraftRequest}

theorem prepared_declared {now : Nat}
    {record : RecoveryRecord} (running : Running parse file store history)
    (prepared : preparedRecord store request source now = .ok record) :
    ∀ entry ∈ record.bindings.entries, DeclaredOpen history.schema entry.1 := by
  intro entry member
  have held : store.sensitivity.get? entry.1 = some false := (draftRecord_eq_ok prepared).2 entry member
  rw [running.schema] at held
  cases found : history.schema with
  | none =>
      rw [found] at held
      cases held
  | some description =>
      rw [found] at held
      exact declaredOpen_of_get? held

theorem stage_lawful {now : Nat} {write : WriteOutcome}
    (careful : Careful parse ⟨file, some store, history⟩ (.stage request source now write)) :
    LawfulStage ⟨file, some store, history⟩ store request source now write := by
  have unmarked (free : ∀ key ∈ store.requiredReentry, key ∉ request.bindings.keys) :
      (noteCurrentBindingKeys store request.bindings.keys.toFinset).requiredReentry =
        store.requiredReentry := by
    refine Finset.filter_true_of_mem fun key marked => ?_
    rw [List.mem_toFinset]
    exact free key marked
  rcases @stage_cases store request source now write file with
    ⟨stop, _, same⟩ | ⟨admitted, unprepared, stop, same⟩ | ⟨record, admitted, prepared, outcome⟩
  · refine ⟨fun other _ => ?_, fun answer found => ?_⟩
    · rw [same]
      exact ⟨rfl, rfl, rfl⟩
    · rw [same] at found
      cases found
  · have step := careful store rfl admitted
    refine ⟨fun other _ => ?_, fun answer found => ?_⟩
    · rw [same]
      exact ⟨rfl, rfl, unmarked (step.unbound fun record held => absurd held (unprepared record))⟩
    · rw [same] at found
      cases found
  · have step := careful store rfl admitted
    rcases outcome with ⟨_, same⟩ | ⟨unwritten, stop, same⟩
    · refine ⟨fun other found => ?_, fun answer _ => ⟨record, ?_, ?_⟩⟩
      · rw [same] at found
        cases found
      · simp only [operate, same]
        rfl
      · exact (draftRecord_eq_ok prepared).1.2.2
    · refine ⟨fun other _ => ?_, fun answer found => ?_⟩
      · rw [same]
        refine ⟨?_, rfl, unmarked (step.unbound fun _ _ => unwritten)⟩
        cases write with
        | failed => rfl
        | replacedThenFailed => exact absurd rfl (step.settled record prepared)
        | replaced => exact absurd rfl unwritten
      · rw [same] at found
        cases found

theorem stage_writes {now : Nat} {write : WriteOutcome}
    (running : Running parse file store history) :
    WritesDeclared ⟨file, some store, history⟩
      (operate ⟨file, some store, history⟩ store (.stage request source now write)) := by
  rcases @stage_cases store request source now write file with
    ⟨stop, _, same⟩ | ⟨_, _, stop, same⟩ | ⟨record, _, prepared, ⟨_, same⟩ | ⟨_, stop, same⟩⟩
  · simp only [operate, same]
    exact .inl rfl
  · simp only [operate, same]
    exact .inl rfl
  · simp only [operate, same]
    exact .inr (.inr ⟨record, rfl, prepared_declared running prepared⟩)
  · simp only [operate, same]
    cases write with
    | failed => exact .inl rfl
    | _ => exact .inr (.inr ⟨record, rfl, prepared_declared running prepared⟩)

theorem cleared_writes {outcome : Except String RecoveryStore} :
    WritesDeclared world (world.cleared outcome) := by
  cases outcome with
  | ok next => exact .inr (.inl rfl)
  | error stop => exact .inl rfl

theorem after_writes {event : Event} (invariant : Invariant parse world) :
    WritesDeclared world (after parse world event) := by
  obtain ⟨file, store, history⟩ := world
  cases store with
  | none =>
      cases event with
      | load outcome markerAbsent => exact loadRecord_file.imp_right .inl
      | _ => exact .inl rfl
  | some store =>
      have running : Running parse file store history := invariant
      cases event with
      | load outcome markerAbsent => exact loadRecord_file.imp_right .inl
      | beginSession markerWritten =>
          refine .inl ?_
          by_cases failed : store.sessionGeneration = 0 ∧ !markerWritten
          · simp only [after, operate, beginSession, if_pos failed]
          · simp only [after, operate, beginSession, if_neg failed]
      | stage request source now write => exact stage_writes running
      | crashInStage request source now =>
          simp only [after, operate]
          split
          next record _ prepared =>
            exact .inr (.inr ⟨record, rfl, prepared_declared running prepared⟩)
          next => exact .inl rfl
      | defer request =>
          refine .inl ?_
          simp only [after, operate]
          split <;> rfl
      | restore request =>
          refine .inl ?_
          simp only [after, operate]
          split <;> rfl
      | clear request removed => exact cleared_writes
      | clearAfterSave removed => exact cleared_writes
      | resetRecoveryData expectedGeneration removed => exact cleared_writes
      | crashInClear => exact .inr (.inl rfl)
      | _ => exact .inl rfl

theorem run_invariant {events : List Event} (invariant : Invariant parse world)
    (careful : CarefulRun parse world events) : HoldsThroughout parse world events := by
  induction events generalizing world with
  | nil => exact invariant_sound invariant
  | cons event rest ih =>
      refine ⟨invariant_sound invariant, ⟨?_, after_writes invariant⟩,
        ih (after_invariant invariant careful.1) careful.2⟩
      rintro store request source now write running rfl
      obtain ⟨file, _, history⟩ := world
      cases running
      exact stage_lawful careful.1

/-- From any file, in every run whose steps are careful: a staged draft survives, refused stages
change nothing, only open values are written, and the keys of restored drafts stay listed. -/
theorem careful_runs_keep_drafts {file : Node} {events : List Event}
    (careful : CarefulRun parse (start file) events) : HoldsThroughout parse (start file) events :=
  run_invariant
    (show Stopped parse file ⟨none, ∅, false, none⟩ from {
      survives := fun record kept => by cases kept
      owed := fun key member => absurd member (Finset.notMem_empty key) }) careful

end

section

variable {parse : String → Option Json} {world : World} {first rest : List Event}

theorem carefulRun_append : CarefulRun parse world (first ++ rest) ↔
    CarefulRun parse world first ∧ CarefulRun parse (first.foldl (after parse) world) rest := by
  induction first generalizing world with
  | nil => simp [CarefulRun]
  | cons event later ih => simp only [List.cons_append, CarefulRun, ih, List.foldl_cons, and_assoc]

theorem holdsThroughout_append (holds : HoldsThroughout parse world (first ++ rest)) :
    HoldsThroughout parse (first.foldl (after parse) world) rest := by
  induction first generalizing world with
  | nil => exact holds
  | cons event later ih => exact ih holds.2.2

end

def sampleDraft (generation : Nat) (omitted : List String) : RecoveryRecord where
  schemaVersion := 1
  generation
  savedAtEpochMs := 1
  dirty := true
  displayName := none
  sourceConfigurationId := none
  devicePlan := "base"
  selectedRecipes := ["roms"]
  bindings := .empty
  omittedBindings := omitted

def sampleParse (text : String) : Option Json :=
  if text = (sampleDraft 1 ["roms/key"]).text then some (sampleDraft 1 ["roms/key"]).toJson
  else if text = (sampleDraft 2 []).text then some (sampleDraft 2 []).toJson
  else none

def sampleRequest : StageRecoveryDraftRequest where
  sessionGeneration := 1
  requestGeneration := 1
  draftGeneration := 1
  displayName := none
  dirty := true
  devicePlan := "base"
  selectedRecipes := ["roms"]
  bindings := .empty

def offeredFile : Node := .regular (sampleDraft 1 ["roms/key"]).text

theorem offered_loads : LoadsTo sampleParse offeredFile (sampleDraft 1 ["roms/key"]) :=
  loadsTo_text (by decide +kernel) ⟨rfl, by decide, by decide⟩ ⟨by decide +kernel, if_pos rfl⟩

theorem staged_durable : Durable sampleParse (sampleDraft 2 []) := by
  refine ⟨by decide +kernel, ?_⟩
  rw [sampleParse, if_neg (by decide +kernel), if_pos rfl]

theorem sample_prepared {store : RecoveryStore} (latest : store.latestRecordGeneration = 1) :
    preparedRecord store sampleRequest none 1 = .ok (sampleDraft 2 []) := by
  have valid : validateRecord (sampleDraft 2 []) = true := by decide +kernel
  have record : ({
      schemaVersion := recoverySchemaVersion
      generation := nextGeneration store.latestRecordGeneration
      savedAtEpochMs := min 1 maxU64
      dirty := true
      displayName := none
      sourceConfigurationId := none
      devicePlan := "base"
      selectedRecipes := ["roms"]
      bindings := .empty
      omittedBindings := [] } : RecoveryRecord) = sampleDraft 2 [] := by
    rw [latest]
    rfl
  rw [preparedRecord, draftRecord]
  refine bind_eq_ok.mpr ⟨(), require_eq_ok.mpr rfl, ?_⟩
  change (Checks.require (validateRecord _ = true) invalidDraft >>= fun _ => pure _) = _
  refine bind_eq_ok.mpr ⟨(), require_eq_ok.mpr ?_, congrArg Except.ok record⟩
  exact (congrArg validateRecord record).trans valid

theorem sample_admitted {store : RecoveryStore} (session : store.sessionGeneration = 1)
    (request : store.latestRequestGeneration = 0) (draft : store.latestDraftGeneration = 0) :
    admitDraft store sampleRequest = .ok () := by
  simp only [admitDraft, requireSession, session, request, draft]
  rfl

theorem stage_accepted {store : RecoveryStore} {request : StageRecoveryDraftRequest}
    {source : Option (String × String)} {now : Nat} {file : Node} {record : RecoveryRecord}
    (admitted : admitDraft store request = .ok ())
    (prepared : preparedRecord store request source now = .ok record) :
    stage store request source now .replaced file =
      (.ok (stagedAnswer request record),
        accepted (noteCurrentBindingKeys store request.bindings.keys.toFinset) request record,
        .regular record.text) := by
  rw [preparedRecord] at prepared
  simp only [stage, admitted, prepared]
  rfl

def restoredStore : RecoveryStore where
  record := some (sampleDraft 1 ["roms/key"])
  loadNotice := none
  sessionGeneration := 1
  latestRequestGeneration := 0
  latestDraftGeneration := 0
  latestRecordGeneration := 1
  disposition := some .restored
  sensitivity := .empty
  requiredReentry := {"roms/key"}
  cleanHandoffProven := true
  processMarkerUnavailable := false

def restoring : List Event :=
  [.load ⟨true, true, true⟩ true, .beginSession true, .restore ⟨1, 1⟩]

theorem after_restoring : restoring.foldl (after sampleParse) (start offeredFile) =
    ⟨offeredFile, some restoredStore, ⟨none, {"roms/key"}, true, none⟩⟩ := by
  have loaded : after sampleParse (start offeredFile) (.load ⟨true, true, true⟩ true) =
      ⟨offeredFile, some (.load ⟨some (sampleDraft 1 ["roms/key"]), none, offeredFile⟩ true),
        ⟨none, ∅, false, none⟩⟩ := by
    simp only [after]
    rw [show (start offeredFile).file = offeredFile from rfl,
      offered_loads ⟨true, true, true⟩ rfl rfl]
    rfl
  rw [restoring, List.foldl_cons, loaded]
  rfl

/-- A setup that binds the restored key again before it is staged is kept as it was staged. -/
theorem careful_runs_keep_drafts_sample : HoldsThroughout sampleParse (start offeredFile)
    (restoring ++ [.noteCurrentBindingKeys {"roms/key"}, .stage sampleRequest none 1 .replaced,
      .crash, .load ⟨true, true, true⟩ false]) := by
  refine careful_runs_keep_drafts (carefulRun_append.mpr ⟨?_, ?_⟩)
  · exact ⟨.inl ⟨rfl, rfl⟩, trivial, trivial, trivial⟩
  · rw [after_restoring]
    refine ⟨trivial, ?_, trivial, .inl ⟨rfl, rfl⟩, trivial⟩
    rintro store same _
    have bound : noteCurrentBindingKeys restoredStore {"roms/key"} = store := Option.some.inj same
    subst bound
    refine ⟨fun record prepared _ => ?_, fun _ _ same => (by cases same), fun unwritten => ?_⟩
    · rw [Except.ok.inj (prepared.symm.trans (sample_prepared rfl))]
      refine ⟨staged_durable, fun key member => ?_⟩
      exact absurd (Finset.mem_filter.mp member).2 (by simpa using (Finset.mem_filter.mp member).1)
    · exact absurd rfl (unwritten _ (sample_prepared rfl))

/-- Automatic staging of a restored draft that lacks the omitted key loses the marker at a crash. -/
theorem not_holds_restoredDraft : ¬HoldsThroughout sampleParse (start offeredFile)
    (restoring ++ [.stage sampleRequest none 1 .replaced, .crash]) := by
  intro holds
  have later := holdsThroughout_append holds
  rw [after_restoring] at later
  have staged : after sampleParse ⟨offeredFile, some restoredStore, ⟨none, {"roms/key"}, true, none⟩⟩
      (.stage sampleRequest none 1 .replaced) =
        ⟨.regular (sampleDraft 2 []).text,
          some (accepted (noteCurrentBindingKeys restoredStore sampleRequest.bindings.keys.toFinset)
            sampleRequest (sampleDraft 2 [])),
          ⟨some (sampleDraft 2 []), {"roms/key"}, true, none⟩⟩ := by
    simp only [after, operate,
      stage_accepted (@sample_admitted restoredStore rfl rfl rfl) (sample_prepared rfl)]
    rfl
  obtain ⟨_, _, _, _, sound⟩ := later
  rw [staged] at sound
  obtain ⟨record, loads, omitted⟩ := sound.listed "roms/key" (Finset.mem_singleton_self _)
  have staged : LoadsTo sampleParse (.regular (sampleDraft 2 []).text) (sampleDraft 2 []) :=
    loadsTo_text (by decide +kernel) ⟨rfl, by decide, by decide⟩ staged_durable
  rw [loads.unique staged] at omitted
  exact absurd omitted List.not_mem_nil

end EmuChef.Recovery
