import EmuChef.Session.ReportLaw

/-! The law of the session manager over whole runs: every step of the process keeps it, so every
reachable moment has it. -/

namespace EmuChef.Session

open Planner Executor Program

section

variable {record : ExecutionRecord}

def Numbered (record : ExecutionRecord) : Prop :=
  record.events.map (·.sequence) = List.range' 1 record.report.latestSequence

structure Extends (old new : ExecutionRecord) : Prop where
  events : old.events <+: new.events
  numbered : Numbered old → Numbered new
  plan : new.report.reviewedPlan = old.report.reviewedPlan

theorem Extends.refl (record : ExecutionRecord) : Extends record record :=
  ⟨List.prefix_rfl, id, rfl⟩

theorem extends_appendEvent {report : ExecutionReport} {requested : Bool} {body : EventBody}
    (count : report.latestSequence = record.report.latestSequence)
    (plan : report.reviewedPlan = record.report.reviewedPlan) :
    Extends record (appendEvent ⟨report, record.events, requested⟩ body) where
  events := List.prefix_append _ _
  numbered := by
    intro numbered
    have last : List.range' 1 (report.latestSequence + 1) =
        List.range' 1 report.latestSequence ++ [report.latestSequence + 1] := by
      rw [List.range'_concat]
      simp [Nat.add_comm]
    rw [Numbered] at numbered ⊢
    simp only [appendEvent, List.map_append, numbered, List.map_cons, List.map_nil]
    rw [last, count]
  plan := plan

theorem extends_recordProgress (event : ExecutionProgressEvent) :
    Extends record (recordProgress record event) :=
  extends_appendEvent rfl rfl

theorem extends_finishAttempt (result : ExecutionRunResult) :
    Extends record (finishAttempt record result) := by
  have kept : ∀ (records : List StepRunRecord) (report : ExecutionReport),
      (records.foldl finishStep report).latestSequence = report.latestSequence ∧
        (records.foldl finishStep report).reviewedPlan = report.reviewedPlan := by
    intro records
    induction records with
    | nil => exact fun report => ⟨rfl, rfl⟩
    | cons run rest ih =>
        intro report
        have count : (finishStep report run).latestSequence = report.latestSequence := by
          unfold finishStep
          split <;> rfl
        obtain ⟨counts, plans⟩ := ih (finishStep report run)
        exact ⟨counts.trans count, plans.trans finishStep_plan⟩
  obtain ⟨count, plan⟩ := kept result.steps record.report
  exact extends_appendEvent count plan

theorem extends_finishPanicked : Extends record (finishPanicked record) :=
  extends_appendEvent rfl rfl

theorem cancelRecord_running (running : record.report.status = .running) :
    cancelRecord record = appendEvent { record with cancelRequested := true } cancelBody := by
  simp [cancelRecord, running]

theorem cancelRecord_terminal (ended : record.report.status ≠ .running) :
    cancelRecord record = record := by
  simp [cancelRecord, ended]

theorem extends_cancelRecord : Extends record (cancelRecord record) := by
  by_cases running : record.report.status = .running
  · rw [cancelRecord_running running]
    exact extends_appendEvent rfl rfl
  · rw [cancelRecord_terminal running]
    exact Extends.refl record

theorem numbered_start (executionId : String) (reviewed : ReviewedPlan) (mode : ExecutionMode) :
    Numbered (appendEvent ⟨initialReport executionId reviewed mode, [], false⟩ (startedBody mode)) :=
  rfl

theorem executionName_injective {first second : Nat}
    (same : executionName first = executionName second) : first = second := by
  have names : toString first = toString second := (String.append_right_inj _).mp same
  have digits : Nat.toDigits 10 first = Nat.toDigits 10 second := by
    rw [← Nat.toList_repr, ← Nat.toList_repr]
    exact congrArg String.toList names
  rw [← @Nat.ofDigitChars_ten_toDigits first, digits, Nat.ofDigitChars_ten_toDigits]

end

section

variable {state : SessionState} {executionId other : String}
  {change : ExecutionRecord → ExecutionRecord}

theorem get?_update : (state.update executionId change).records.get? other =
      if other = executionId then (state.records.get? executionId).map change
      else state.records.get? other := by
  unfold SessionState.update
  cases held : state.records.get? executionId with
  | none =>
      by_cases same : other = executionId
      · simp [same, held]
      · simp [same]
  | some record => simp

@[simp] theorem active_update :
    (state.update executionId change).activeExecutionId = state.activeExecutionId := by
  unfold SessionState.update
  split <;> rfl

@[simp] theorem next_update :
    (state.update executionId change).nextExecutionId = state.nextExecutionId := by
  unfold SessionState.update
  split <;> rfl

@[simp] theorem records_release : (state.release executionId).records = state.records := by
  unfold SessionState.release
  split <;> rfl

@[simp] theorem next_release :
    (state.release executionId).nextExecutionId = state.nextExecutionId := by
  unfold SessionState.release
  split <;> rfl

end

section

def Follows (record : ExecutionRecord) : WorkerPhase → Prop
  | .running rest => record.report.status = .running ∧ ∃ events,
      Leaves (runReporting record.report.reviewedPlan.plan) events rest ∧ Tracks record (notes events)
  | .reported => record.report.status ≠ .running

/-- One worker at most, which holds the slot; every other record is terminal. -/
inductive Occupied (world : World) : Prop
  | idle : world.workers = [] → world.state.activeExecutionId = none →
      (∀ executionId record, world.record? executionId = some record →
        record.report.status ≠ .running) → Occupied world
  | busy (executionId : String) (phase : WorkerPhase) (record : ExecutionRecord) :
      world.workers = [⟨executionId, phase⟩] → world.state.activeExecutionId = some executionId →
      world.record? executionId = some record → Follows record phase →
      (∀ otherId other, world.record? otherId = some other → other.report.status = .running →
        otherId = executionId) → Occupied world

structure Invariant (world : World) : Prop where
  numbered : ∀ executionId record, world.record? executionId = some record → Numbered record
  named : ∀ executionId record, world.record? executionId = some record →
    ∃ number ≤ world.state.nextExecutionId, executionId = executionName number
  received : ∀ reader ∈ world.readers, reader.received = [] ∨ ∃ record,
    world.record? reader.executionId = some record ∧ reader.received <+: record.events
  reported : ∀ entry ∈ world.results, ∃ record, world.record? entry.1 = some record ∧
    record.report.status ≠ .running ∧ (PlanUnique record → ReportsRun record entry.2)
  occupied : Occupied world

/-- What a step does to the records: those that exist stay or grow, and terminal ones do not
change; a new one has its first event and a new number. -/
structure Moves (world next : World) : Prop where
  counted : world.state.nextExecutionId ≤ next.state.nextExecutionId
  kept : ∀ executionId record, world.record? executionId = some record → ∃ later,
    next.record? executionId = some later ∧ Extends record later ∧
      (record.report.status ≠ .running → later = record)
  fresh : ∀ executionId later, next.record? executionId = some later →
    world.record? executionId = none →
      Numbered later ∧ ∃ number ≤ next.state.nextExecutionId, executionId = executionName number

variable {world : World} {next : World}

theorem moves_same (records : next.state.records = world.state.records)
    (count : next.state.nextExecutionId = world.state.nextExecutionId) : Moves world next where
  counted := count.ge
  kept := by
    intro executionId record held
    refine ⟨record, ?_, Extends.refl record, fun _ => rfl⟩
    rw [World.record?, records]
    exact held
  fresh := by
    intro executionId later held absent
    rw [World.record?, records] at held
    exact nomatch absent.symm.trans held

theorem moves_update {executionId : String} {change : ExecutionRecord → ExecutionRecord}
    (state : next.state = world.state.update executionId change)
    (extends_ : ∀ record, Extends record (change record))
    (frozen : ∀ record, world.record? executionId = some record →
      record.report.status ≠ .running → change record = record) : Moves world next where
  counted := by
    rw [state, next_update]
  kept := by
    intro otherId record held
    by_cases same : otherId = executionId
    · subst same
      refine ⟨change record, ?_, extends_ record, frozen record held⟩
      rw [World.record?, state, get?_update, if_pos rfl]
      exact congrArg (Option.map change) held
    · refine ⟨record, ?_, Extends.refl record, fun _ => rfl⟩
      rw [World.record?, state, get?_update, if_neg same]
      exact held
  fresh := by
    intro otherId later held absent
    rw [World.record?, state, get?_update] at held
    by_cases same : otherId = executionId
    · subst same
      rw [if_pos rfl, show world.state.records.get? otherId = none from absent] at held
      exact nomatch held
    · rw [if_neg same] at held
      exact nomatch absent.symm.trans held

theorem Invariant.fresh_name (invariant : Invariant world) :
    world.record? (executionName (world.state.nextExecutionId + 1)) = none := by
  cases held : world.record? (executionName (world.state.nextExecutionId + 1)) with
  | none => rfl
  | some record =>
      obtain ⟨number, bound, same⟩ := invariant.named _ _ held
      have equal := executionName_injective same
      omega

theorem moves_start (invariant : Invariant world) {reviewed : ReviewedPlan}
    {mode : ExecutionMode} (state : next.state = world.state.start reviewed mode) :
    Moves world next where
  counted := by
    rw [state]
    exact Nat.le_succ _
  kept := by
    intro executionId record held
    have apart : executionId ≠ executionName (world.state.nextExecutionId + 1) := by
      rintro rfl
      exact nomatch invariant.fresh_name.symm.trans held
    refine ⟨record, ?_, Extends.refl record, fun _ => rfl⟩
    rw [World.record?, state]
    simpa [World.record?, SessionState.start, apart] using held
  fresh := by
    intro executionId later held absent
    rw [World.record?, state] at held
    by_cases own : executionId = executionName (world.state.nextExecutionId + 1)
    · subst own
      obtain rfl : appendEvent ⟨initialReport _ reviewed mode, [], false⟩ (startedBody mode) = later := by
        simpa [SessionState.start] using held
      refine ⟨numbered_start _ reviewed mode, _, ?_, rfl⟩
      rw [state]
      exact Nat.le_refl _
    · have old : world.record? executionId = some later := by
        simpa [World.record?, SessionState.start, own] using held
      exact nomatch absent.symm.trans old

theorem Occupied.worker (occupied : Occupied world) {before after : List WorkerThread}
    {executionId : String} {phase : WorkerPhase}
    (held : world.workers = before ++ ⟨executionId, phase⟩ :: after) :
    before = [] ∧ after = [] ∧ world.state.activeExecutionId = some executionId ∧
      (∃ record, world.record? executionId = some record ∧ Follows record phase) ∧
      ∀ otherId other, world.record? otherId = some other → other.report.status = .running →
        otherId = executionId := by
  cases occupied with
  | idle alone _ _ =>
      rw [alone] at held
      simp at held
  | busy ownId ownPhase record only active found follows others =>
      rw [only] at held
      match before with
      | [] =>
          obtain ⟨same, rfl⟩ := List.cons.inj held
          obtain ⟨rfl, rfl⟩ := WorkerThread.mk.inj same
          exact ⟨rfl, rfl, active, ⟨record, found, follows⟩, others⟩
      | _ :: rest =>
          have rest_nil := (List.cons.inj held).2
          simp at rest_nil

theorem Occupied.running_record (occupied : Occupied world) {before after : List WorkerThread}
    {executionId : String} {rest : Worker ExecutionRunResult} {record : ExecutionRecord}
    (held : world.workers = before ++ ⟨executionId, .running rest⟩ :: after)
    (found : world.record? executionId = some record) : Follows record (.running rest) := by
  obtain ⟨_, _, _, ⟨other, same, follows⟩, _⟩ := occupied.worker held
  cases found.symm.trans same
  exact follows

theorem moves (invariant : Invariant world) (step : WorldStep world next) : Moves world next := by
  cases step with
  | start reviewed mode _ => exact moves_start invariant rfl
  | operate before after executionId record issued continues response _ _ _ =>
      exact moves_same rfl rfl
  | report before after executionId event continues held =>
      refine moves_update rfl (fun record => extends_recordProgress event) ?_
      intro record found ended
      exact absurd (invariant.occupied.running_record held found).1 ended
  | finish before after executionId result held =>
      refine moves_update rfl (fun record => extends_finishAttempt result) ?_
      intro record found ended
      exact absurd (invariant.occupied.running_record held found).1 ended
  | panic before after executionId rest held =>
      refine moves_update rfl (fun record => extends_finishPanicked) ?_
      intro record found ended
      exact absurd (invariant.occupied.running_record held found).1 ended
  | release before after executionId _ => exact moves_same records_release next_release
  | cancel executionId =>
      exact moves_update rfl (fun record => extends_cancelRecord)
        fun record _ ended => cancelRecord_terminal ended
  | watch executionId => exact moves_same rfl rfl
  | poll before after reader record _ _ => exact moves_same rfl rfl

end

section

variable {world : World}

theorem occupied_update {next : World} {executionId : String} {phase : WorkerPhase}
    {change : ExecutionRecord → ExecutionRecord} {record : ExecutionRecord}
    (workers : next.workers = [⟨executionId, phase⟩])
    (state : next.state = world.state.update executionId change)
    (active : world.state.activeExecutionId = some executionId)
    (found : world.record? executionId = some record) (follows : Follows (change record) phase)
    (others : ∀ otherId other, world.record? otherId = some other →
      other.report.status = .running → otherId = executionId) : Occupied next := by
  refine .busy executionId phase (change record) workers ?_ ?_ follows ?_
  · rw [state, active_update]
    exact active
  · rw [World.record?, state, get?_update, if_pos rfl]
    exact congrArg (Option.map change) found
  · intro otherId other held running
    by_cases same : otherId = executionId
    · exact same
    · rw [World.record?, state, get?_update, if_neg same] at held
      exact others otherId other held running

theorem follows_start (executionId : String) (reviewed : ReviewedPlan) (mode : ExecutionMode) :
    Follows (appendEvent ⟨initialReport executionId reviewed mode, [], false⟩ (startedBody mode))
      (.running (runReporting reviewed.plan)) :=
  ⟨rfl, [], .here _, tracks_start executionId reviewed mode⟩

theorem follows_cancel {record : ExecutionRecord} {phase : WorkerPhase}
    (follows : Follows record phase) : Follows (cancelRecord record) phase := by
  by_cases running : record.report.status = .running
  · rw [cancelRecord_running running]
    cases phase with
    | running rest =>
        obtain ⟨_, events, left, tracks⟩ := follows
        have cancelled := tracks.cancel
        rw [cancelRecord_running running] at cancelled
        exact ⟨running, events, left, cancelled⟩
    | reported => exact absurd running follows
  · rw [cancelRecord_terminal running]
    exact follows

theorem occupied_step (invariant : Invariant world) {next : World} (step : WorldStep world next) :
    Occupied next := by
  have occupied := invariant.occupied
  cases step with
  | start reviewed mode idle =>
      cases occupied with
      | idle alone _ terminal =>
          refine .busy (executionName (world.state.nextExecutionId + 1)) _
            (appendEvent ⟨initialReport (executionName (world.state.nextExecutionId + 1)) reviewed
              mode, [], false⟩ (startedBody mode)) ?_ rfl ?_ (follows_start _ reviewed mode) ?_
          · rw [alone]
            rfl
          · simp [World.record?, SessionState.start]
          · intro otherId other held running
            by_cases same : otherId = executionName (world.state.nextExecutionId + 1)
            · exact same
            · have old : world.record? otherId = some other := by
                simpa [World.record?, SessionState.start, same] using held
              exact absurd running (terminal otherId other old)
      | busy _ _ _ _ active _ _ _ => exact nomatch idle.symm.trans active
  | operate before after executionId record issued continues response held found answers =>
      obtain ⟨rfl, rfl, active, _, others⟩ := occupied.worker held
      obtain ⟨running, events, left, tracks⟩ := occupied.running_record held found
      refine .busy executionId _ record rfl active found ⟨running, _, left.answer response, ?_⟩ others
      rw [notes_append]
      exact (List.append_nil (notes events)).symm ▸ tracks
  | report before after executionId event continues held =>
      obtain ⟨rfl, rfl, active, ⟨record, found, running, events, left, tracks⟩, others⟩ :=
        occupied.worker held
      refine occupied_update rfl rfl active found ⟨running, _, left.answer (), ?_⟩ others
      rw [notes_append]
      exact tracks.recordProgress event
  | finish before after executionId result held =>
      obtain ⟨rfl, rfl, active, ⟨record, found, _⟩, others⟩ := occupied.worker held
      exact occupied_update rfl rfl active found (overallStatus_ne_running _ _) others
  | panic before after executionId rest held =>
      obtain ⟨rfl, rfl, active, ⟨record, found, _⟩, others⟩ := occupied.worker held
      have ended : (finishPanicked record).report.status ≠ .running := by
        simp [finishPanicked, appendEvent, refreshRecipeStatuses]
      exact occupied_update rfl rfl active found ended others
  | release before after executionId held =>
      obtain ⟨rfl, rfl, active, ⟨record, found, ended⟩, others⟩ := occupied.worker held
      refine .idle rfl ?_ ?_
      · simp [SessionState.release, active]
      · intro otherId other present running
        rw [World.record?, records_release] at present
        obtain rfl := others otherId other present running
        cases found.symm.trans present
        exact ended running
  | cancel executionId =>
      cases occupied with
      | idle alone empty terminal =>
          refine .idle alone ?_ ?_
          · rw [active_update]
            exact empty
          · intro otherId other held running
            rw [World.record?, get?_update] at held
            by_cases same : otherId = executionId
            · rw [if_pos same] at held
              obtain ⟨record, present, rfl⟩ := Option.map_eq_some_iff.mp held
              have ended := terminal executionId record present
              rw [cancelRecord_terminal ended] at running
              exact ended running
            · rw [if_neg same] at held
              exact terminal otherId other held running
      | busy ownId phase record only active found follows others =>
          by_cases own : executionId = ownId
          · subst own
            exact occupied_update only rfl active found (follows_cancel follows) others
          · refine .busy ownId phase record only ?_ ?_ follows ?_
            · rw [active_update]
              exact active
            · rw [World.record?, get?_update, if_neg (Ne.symm own)]
              exact found
            · intro otherId other held running
              rw [World.record?, get?_update] at held
              by_cases same : otherId = executionId
              · rw [if_pos same] at held
                obtain ⟨before, present, rfl⟩ := Option.map_eq_some_iff.mp held
                by_cases active : before.report.status = .running
                · exact same.trans (others executionId before present active)
                · rw [cancelRecord_terminal active] at running
                  exact absurd running active
              · rw [if_neg same] at held
                exact others otherId other held running
  | watch executionId =>
      cases occupied with
      | idle alone empty terminal => exact .idle alone empty terminal
      | busy ownId phase record only active found follows others =>
          exact .busy ownId phase record only active found follows others
  | poll before after reader record _ _ =>
      cases occupied with
      | idle alone empty terminal => exact .idle alone empty terminal
      | busy ownId phase record only active found follows others =>
          exact .busy ownId phase record only active found follows others

end

section

variable {record : ExecutionRecord}

theorem eventsAfter_prefix (numbered : Numbered record) {reader : Reader}
    (known : reader.received <+: record.events) :
    reader.received ++ eventsAfter record reader.lastSeen = record.events := by
  obtain ⟨more, whole⟩ := known
  have numbers : reader.received.map (·.sequence) ++ more.map (·.sequence) =
      List.range' 1 record.report.latestSequence := by
    rw [← List.map_append, whole]
    exact numbered
  have counts : reader.received.length + more.length = record.report.latestSequence := by
    have lengths := congrArg List.length numbers
    simpa using lengths
  have parts : reader.received.map (·.sequence) ++ more.map (·.sequence) =
      List.range' 1 reader.received.length ++
        List.range' (1 + reader.received.length) more.length := by
    rw [numbers, ← counts, List.range'_append_1]
  obtain ⟨early, late⟩ := List.append_inj parts (by simp)
  have seen : reader.lastSeen = reader.received.length := by
    have last : (reader.received.map (·.sequence)).getLast? =
        (List.range' 1 reader.received.length).getLast? := congrArg List.getLast? early
    rw [List.getLast?_map] at last
    rw [Reader.lastSeen, last, List.getLast?_range']
    split
    · next empty => simp [empty]
    · next nonempty =>
      simp only [Option.getD_some]
      omega
  rw [← whole, eventsAfter, ← whole, List.filter_append, seen]
  have none_early : reader.received.filter (fun event => event.sequence > reader.received.length) = [] := by
    rw [List.filter_eq_nil_iff]
    intro event member
    have inside : event.sequence ∈ List.range' 1 reader.received.length := by
      rw [← early]
      exact List.mem_map.mpr ⟨event, member, rfl⟩
    have bound := (List.mem_range'_1.mp inside).2
    simp only [gt_iff_lt, decide_eq_true_eq]
    omega
  have all_late : more.filter (fun event => event.sequence > reader.received.length) = more := by
    rw [List.filter_eq_self]
    intro event member
    have inside : event.sequence ∈ List.range' (1 + reader.received.length) more.length := by
      rw [← late]
      exact List.mem_map.mpr ⟨event, member, rfl⟩
    have bound := (List.mem_range'_1.mp inside).1
    simp only [gt_iff_lt, decide_eq_true_eq]
    omega
  rw [none_early, all_late, List.nil_append]

end

section

variable {world : World}

theorem invariant_initial : Invariant .initial where
  numbered := by
    intro executionId record held
    exact nomatch held
  named := by
    intro executionId record held
    exact nomatch held
  received := by simp [World.initial]
  reported := by simp [World.initial]
  occupied := by
    refine .idle rfl rfl ?_
    intro executionId record held
    exact nomatch held

variable {next : World}

theorem received_step (invariant : Invariant world) (step : WorldStep world next) :
    ∀ reader ∈ next.readers, reader ∈ world.readers ∨ reader.received = [] ∨
      ∃ record, next.record? reader.executionId = some record ∧
        reader.received = record.events := by
  intro reader member
  cases step with
  | start _ _ _ => exact .inl member
  | operate _ _ _ _ _ _ _ _ _ _ => exact .inl member
  | report _ _ _ _ _ _ => exact .inl member
  | finish _ _ _ _ _ => exact .inl member
  | panic _ _ _ _ _ => exact .inl member
  | release _ _ _ _ => exact .inl member
  | cancel _ => exact .inl member
  | watch executionId =>
      rcases List.mem_append.mp member with old | new
      · exact .inl old
      · rw [List.mem_singleton.mp new]
        exact .inr (.inl rfl)
  | poll before after polled record held found =>
      have shape : reader ∈ before ∨ reader = { polled with
          received := polled.received ++ eventsAfter record polled.lastSeen } ∨ reader ∈ after := by
        simpa using member
      rcases shape with old | rfl | old
      · exact .inl (by simp [held, old])
      · have present : polled ∈ world.readers := by simp [held]
        have known : polled.received <+: record.events := by
          rcases invariant.received polled present with empty | ⟨other, same, known⟩
          · rw [empty]
            exact List.nil_prefix
          · cases found.symm.trans same
            exact known
        exact .inr (.inr ⟨record, found,
          eventsAfter_prefix (invariant.numbered _ _ found) known⟩)
      · exact .inl (by simp [held, old])

theorem reported_step (invariant : Invariant world) (step : WorldStep world next) :
    ∀ entry ∈ next.results, entry ∈ world.results ∨ ∃ record,
      next.record? entry.1 = some record ∧ record.report.status ≠ .running ∧
        (PlanUnique record → ReportsRun record entry.2) := by
  intro entry member
  cases step with
  | start _ _ _ => exact .inl member
  | operate _ _ _ _ _ _ _ _ _ _ => exact .inl member
  | report _ _ _ _ _ _ => exact .inl member
  | panic _ _ _ _ _ => exact .inl member
  | release _ _ _ _ => exact .inl member
  | cancel _ => exact .inl member
  | watch _ => exact .inl member
  | poll _ _ _ _ _ _ => exact .inl member
  | finish before after executionId result held =>
      rcases List.mem_append.mp member with old | new
      · exact .inl old
      · obtain rfl := List.mem_singleton.mp new
        obtain ⟨_, _, _, ⟨record, found, _, events, left, tracks⟩, _⟩ :=
          invariant.occupied.worker held
        refine .inr ⟨finishAttempt record result, ?_, overallStatus_ne_running _ _, ?_⟩
        · rw [World.record?, get?_update, if_pos rfl]
          exact congrArg (Option.map _) found
        · intro unique
          rw [PlanUnique, (extends_finishAttempt result).plan] at unique
          exact tracks.finish rfl unique left.runs

theorem invariant_step (invariant : Invariant world) (step : WorldStep world next) :
    Invariant next := by
  have moved := moves invariant step
  refine ⟨?_, ?_, ?_, ?_, occupied_step invariant step⟩
  · intro executionId later held
    cases before : world.record? executionId with
    | none => exact (moved.fresh executionId later held before).1
    | some record =>
        obtain ⟨_, same, extended, _⟩ := moved.kept executionId record before
        cases held.symm.trans same
        exact extended.numbered (invariant.numbered executionId record before)
  · intro executionId later held
    cases before : world.record? executionId with
    | none => exact (moved.fresh executionId later held before).2
    | some record =>
        obtain ⟨number, bound, same⟩ := invariant.named executionId record before
        exact ⟨number, bound.trans moved.counted, same⟩
  · intro reader member
    rcases received_step invariant step reader member with old | empty | ⟨record, found, whole⟩
    · rcases invariant.received reader old with empty | ⟨record, found, known⟩
      · exact .inl empty
      · obtain ⟨later, same, extended, _⟩ := moved.kept _ _ found
        exact .inr ⟨later, same, known.trans extended.events⟩
    · exact .inl empty
    · exact .inr ⟨record, found, whole ▸ List.prefix_rfl⟩
  · intro entry member
    rcases reported_step invariant step entry member with old | new
    · obtain ⟨record, found, ended, facts⟩ := invariant.reported entry old
      obtain ⟨later, same, _, frozen⟩ := moved.kept _ _ found
      obtain rfl := frozen ended
      exact ⟨later, same, ended, facts⟩
    · exact new

theorem invariant_of_reachable (reached : Reachable world) : Invariant world := by
  induction reached with
  | refl => exact invariant_initial
  | tail _ step ih => exact invariant_step ih step

theorem Invariant.sessionLaw (invariant : Invariant world) : SessionLaw world where
  numbered := invariant.numbered
  received := by
    intro reader member record found
    have known : reader.received <+: record.events := by
      rcases invariant.received reader member with empty | ⟨other, same, known⟩
      · rw [empty]
        exact List.nil_prefix
      · cases found.symm.trans same
        exact known
    exact ⟨known, eventsAfter_prefix (invariant.numbered _ _ found) known⟩
  reported := by
    intro entry member
    obtain ⟨record, found, _, facts⟩ := invariant.reported entry member
    exact ⟨record, found, facts⟩
  exclusive := by
    intro executionId record found running
    cases invariant.occupied with
    | idle _ _ terminal => exact absurd running (terminal executionId record found)
    | busy ownId _ _ _ active _ _ others =>
        rw [active, others executionId record found running]

theorem Invariant.keepsTerminal (invariant : Invariant world) : KeepsTerminal world := by
  intro later ran executionId record found ended
  have both : Invariant later ∧ later.record? executionId = some record := by
    induction ran with
    | refl => exact ⟨invariant, found⟩
    | tail _ step ih =>
        obtain ⟨held, same⟩ := ih
        obtain ⟨next, present, _, frozen⟩ := (moves held step).kept executionId record same
        obtain rfl := frozen ended
        exact ⟨invariant_step held step, present⟩
  exact both.2

/-- Every moment of the process: numbered events that readers get once, reports that agree with
their runs, one running execution at most, and terminal records that never change again. -/
theorem reachable_sessionLaw (reached : Reachable world) :
    SessionLaw world ∧ KeepsTerminal world :=
  ⟨(invariant_of_reachable reached).sessionLaw, (invariant_of_reachable reached).keepsTerminal⟩

end

section

variable {world : World} {executionId : String} {record : ExecutionRecord}

def told (executionId : String) (state : SessionState) (event : ExecutionProgressEvent) :
    SessionState :=
  state.update executionId fun record => recordProgress record event

theorem runs_through {wanted : Bool} (found : world.record? executionId = some record)
    (flag : record.cancelRequested = wanted) {program : Worker ExecutionRunResult}
    {events : List WorkerEvent} {result : ExecutionRunResult} (ran : Runs program events result)
    (answered : ∀ event ∈ operations events, ∀ held : ExecutionRecord,
      held.cancelRequested = wanted → Answers held event.operation event.response)
    (alone : world.workers = [⟨executionId, .running program⟩]) :
    Relation.ReflTransGen WorldStep world
      { world with
        state := (notes events).foldl (told executionId) world.state
        workers := [⟨executionId, .running (.done result)⟩] } := by
  induction ran generalizing world record with
  | done value =>
      rw [← alone]
      exact .refl
  | @call operation next events result response tail ih =>
      cases operation with
      | report note =>
          have first : WorldStep world
              { world with
                state := told executionId world.state note
                workers := [] ++ ⟨executionId, .running (next ())⟩ :: [] } :=
            .report world [] [] executionId note next alone
          have known : (told executionId world.state note).records.get? executionId =
              some (recordProgress record note) := by
            rw [told, get?_update, if_pos rfl]
            exact congrArg (Option.map _) found
          exact .head first (@ih { world with
            state := told executionId world.state note
            workers := [⟨executionId, .running (next ())⟩] } _ known flag answered rfl)
      | operation issued =>
          have first : WorldStep world
              { world with workers := [] ++ ⟨executionId, .running (next response)⟩ :: [] } :=
            .operate world [] [] executionId record issued next response alone found
              (answered ⟨issued, response⟩ (by simp [operations]) record flag)
          exact .head first (@ih
            { world with workers := [⟨executionId, .running (next response)⟩] } _ found flag
            (fun event member => answered event (List.mem_cons_of_mem _ member)) rfl)

def workerAnswers (cancelled : Bool) : (operation : WorkerOperation) →
    Reporting.Answer RunnerOperation.Response operation
  | .operation .shouldCancel => cancelled
  | .operation issued => smoothAnswers issued
  | .report _ => ()

def chained : ReviewedPlan := ⟨chainPlan, ["setup"]⟩

def chainEvents (cancelled : Bool) : List WorkerEvent :=
  trace (fixed (workerAnswers cancelled)) (runReporting chained.plan) ()

def chainResult (cancelled : Bool) : ExecutionRunResult :=
  (run (fixed (workerAnswers cancelled)) (runReporting chained.plan) ()).1

theorem answers_worker {cancelled : Bool} :
    ∀ event ∈ operations (chainEvents cancelled), ∀ record : ExecutionRecord,
      record.cancelRequested = cancelled → Answers record event.operation event.response := by
  intro event member record flag
  have same := response_of_mem_trace (mem_of_operations member)
  obtain ⟨operation, response⟩ := event
  cases operation with
  | shouldCancel => exact Eq.trans same flag.symm
  | _ => trivial

/-- A world in which one more execution begins. -/
def World.begin (world : World) : World :=
  { world with
    state := world.state.start chained .real
    workers := world.workers ++ [⟨executionName (world.state.nextExecutionId + 1),
      .running (runReporting chained.plan)⟩] }

def endedWorld : World :=
  { World.initial.begin with
    state := (((notes (chainEvents false)).foldl (told (executionName 1))
      World.initial.begin.state).update (executionName 1)
        fun record => finishAttempt record (chainResult false)).release (executionName 1)
    workers := []
    results := [(executionName 1, chainResult false)] }

theorem reachable_begin : Reachable World.initial.begin := .single (.start .initial chained .real rfl)

theorem reachable_endedWorld : Reachable endedWorld := by
  have through : Relation.ReflTransGen WorldStep World.initial.begin _ :=
    @runs_through _ (executionName 1) _ false rfl rfl _ _ _
      (runs_trace (fixed (workerAnswers false)) (runReporting chained.plan) ()) answers_worker rfl
  exact ((reachable_begin.trans through).tail (.finish _ [] [] (executionName 1) _ rfl)).tail
    (.release _ [] [] (executionName 1) rfl)

theorem exists_endedRecord : ∃ record, endedWorld.record? (executionName 1) = some record ∧
    record.report.status = .succeeded ∧
    shows record.report = [("setup/first", .succeeded), ("setup/second", .succeeded)] := by
  have held : (endedWorld.record? (executionName 1)).map (fun record =>
      (record.report.status, shows record.report)) =
        some (.succeeded, [("setup/first", .succeeded), ("setup/second", .succeeded)]) := by
    decide +kernel
  obtain ⟨record, found, same⟩ := Option.map_eq_some_iff.mp held
  exact ⟨record, found, (Prod.mk.inj same).1, (Prod.mk.inj same).2⟩

theorem reachable_sessionLaw_sample : SessionLaw endedWorld ∧ KeepsTerminal endedWorld :=
  reachable_sessionLaw reachable_endedWorld

def cancelledWorld : World :=
  { World.initial.begin with state := World.initial.begin.state.update (executionName 1) cancelRecord }

/-- Steps that are cancelled before they are scheduled have cancelled run records, and the report
shows them as never started. -/
theorem not_every_record_shown : ¬ ∀ world, Reachable world → ∀ entry ∈ world.results,
    ∀ record, world.record? entry.1 = some record →
      (record.report.reviewedPlan.plan.steps.map (·.id)).Nodup →
        ∀ step ∈ record.report.steps, ∀ run ∈ entry.2.steps, step.stepId = run.stepId →
          step.status = stepStatus run.status := by
  intro all
  obtain ⟨record, found, flag, shown, unique⟩ :
      ∃ record, cancelledWorld.record? (executionName 1) = some record ∧
        record.cancelRequested = true ∧ shows (finishAttempt record (chainResult true)).report =
          [("setup/first", .pending), ("setup/second", .pending)] ∧
        (record.report.reviewedPlan.plan.steps.map (·.id)).Nodup :=
    ⟨_, rfl, rfl, rfl, by decide⟩
  have quiet : notes (chainEvents true) = [] := rfl
  have quietly := runs_through found flag
    (runs_trace (fixed (workerAnswers true)) (runReporting chained.plan) ()) answers_worker rfl
  rw [← chainEvents, quiet] at quietly
  have cancelled : Reachable cancelledWorld := reachable_begin.tail (.cancel _ (executionName 1))
  have finished := (cancelled.trans quietly).tail
    (.finish _ [] [] (executionName 1) (chainResult true) rfl)
  have held : (cancelledWorld.state.update (executionName 1)
      fun record => finishAttempt record (chainResult true)).records.get? (executionName 1) =
        some (finishAttempt record (chainResult true)) := by
    rw [get?_update, if_pos rfl]
    exact congrArg (Option.map _) found
  obtain ⟨step, member, same⟩ : ∃ step ∈ (finishAttempt record (chainResult true)).report.steps,
      (step.stepId, step.status) = ("setup/first", .pending) := by
    have inside : ("setup/first", StepExecutionStatus.pending) ∈
        shows (finishAttempt record (chainResult true)).report := by simp [shown]
    exact List.mem_map.mp inside
  obtain ⟨named, pending⟩ := Prod.mk.inj same
  obtain ⟨run, recorded, runNamed, cancelled⟩ : ∃ run ∈ (chainResult true).steps,
      run.stepId = "setup/first" ∧ run.status = .cancelled :=
    ⟨_, List.mem_cons_self, rfl, rfl⟩
  have plans : (finishAttempt record (chainResult true)).report.reviewedPlan =
      record.report.reviewedPlan := (extends_finishAttempt (chainResult true)).plan
  have wrong := all _ finished (executionName 1, chainResult true) List.mem_cons_self
    _ held (plans ▸ unique) step member run recorded (named.trans runNamed.symm)
  rw [pending, cancelled] at wrong
  exact nomatch wrong

end

end EmuChef.Session
