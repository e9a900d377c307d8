import EmuChef.Executor.StepLaw

/-! The invariant of a whole run of the executor: what is recorded, which calls are made, and
what a successful result says. -/

namespace EmuChef.Executor

open Planner Program Relation

/-- The step at one position names the step at an earlier one, which is the latest of its id. -/
def DependsOn (plan : ExecutionPlan) (later earlier : Nat) : Prop :=
  ∃ step dependency, plan.steps[later]? = some step ∧ plan.steps[earlier]? = some dependency ∧
    earlier < later ∧ dependency.id ∈ step.dependencies ∧
    ∀ between other, earlier < between → between < later →
      plan.steps[between]? = some other → other.id ≠ dependency.id

def DependenciesEarlier (plan : ExecutionPlan) : Prop :=
  ∀ (later : Nat) (step : ExecutionStep), plan.steps[later]? = some step →
    ∀ dependency ∈ step.dependencies,
      ∃ (earlier : Nat) (other : ExecutionStep), earlier < later ∧ plan.steps[earlier]? = some other ∧ other.id = dependency

def IsDone (status : StepRunStatus) : Prop := status = .executed ∨ status = .skipped

def Done (records : List StepRunRecord) (position : Nat) : Prop :=
  ∃ record, records[position]? = some record ∧ IsDone record.status

def requiresDeviceFailStop (record : StepRunRecord) : Bool :=
  record.failureKind.any StepFailureKind.requiresDeviceFailStop

/-- A call for the step at a position is allowed: the step has its capabilities, its dependencies
are found, and all that it depends on, directly or not, is done. -/
structure MayCall (plan : ExecutionPlan) (records : List StepRunRecord) (position : Nat) : Prop where
  capable : ∀ step, plan.steps[position]? = some step →
    ∀ capability ∈ step.constraints.capabilities, runtimeCapabilityEnabled plan capability = true
  found : ∀ step, plan.steps[position]? = some step → ∀ dependency ∈ step.dependencies,
    ∃ earlier other, DependsOn plan position earlier ∧ plan.steps[earlier]? = some other ∧
      other.id = dependency
  done : ∀ earlier, TransGen (DependsOn plan) position earlier → Done records earlier

/-- What holds of every run: its records follow the plan, a call is made only for a step that may
be called, and none is made after a fail-stop record, a refused root or a cancelled record. -/
structure RunInvariant (plan : ExecutionPlan) (events : List RunnerEvent)
    (result : ExecutionRunResult) : Prop where
  recorded : result.steps.map (·.stepId) <+: plan.steps.map (·.id)
  allowed : ∀ event ∈ events, ∀ position stepCall, entered event = some (position, stepCall) →
    MayCall plan result.steps position
  failStop : ∀ position record, result.steps[position]? = some record →
    requiresDeviceFailStop record = true → ∀ event ∈ events, ∀ later stepCall,
      entered event = some (later, stepCall) → later ≤ position
  refused : events.Pairwise NoCallAfterRefusal
  cancelled : ∀ position record, result.steps[position]? = some record →
    record.status = .cancelled → ∀ event ∈ events, ∀ later stepCall,
      entered event = some (later, stepCall) → later < position

/-- The result says success exactly when every step has a record that says executed or skipped. -/
def SucceedsExactly (plan : ExecutionPlan) (result : ExecutionRunResult) : Prop :=
  result.success = true ↔ result.steps.length = plan.steps.length ∧
    ∀ record ∈ result.steps, IsDone record.status

theorem exists_latest {plan : ExecutionPlan} {later earlier : Nat} {other : ExecutionStep}
    (before : earlier < later) (named : plan.steps[earlier]? = some other) :
    ∃ latest found, earlier ≤ latest ∧ latest < later ∧ plan.steps[latest]? = some found ∧
      found.id = other.id ∧ ∀ between step, latest < between → between < later →
        plan.steps[between]? = some step → step.id ≠ other.id := by
  induction later with
  | zero => omega
  | succ later ih =>
      cases here : plan.steps[later]? with
      | none =>
          have short : plan.steps.length ≤ later := List.getElem?_eq_none_iff.mp here
          have inside := (List.getElem?_eq_some_iff.mp named).1
          obtain ⟨latest, found, above, below, lookup, same, last⟩ := ih (by omega)
          refine ⟨latest, found, above, by omega, lookup, same, fun between step after upto found => ?_⟩
          have bound := (List.getElem?_eq_some_iff.mp found).1
          exact last between step after (by omega) found
      | some step =>
          by_cases same : step.id = other.id
          · exact ⟨later, step, by omega, by omega, here, same, fun _ _ _ _ => by omega⟩
          · have apart : earlier ≠ later := by
              rintro rfl
              rw [here] at named
              exact same (congrArg _ (Option.some.inj named))
            obtain ⟨latest, found, above, below, lookup, equal, last⟩ := ih (by omega)
            refine ⟨latest, found, above, by omega, lookup, equal, fun between item after upto at_ => ?_⟩
            by_cases final : between = later
            · subst final
              rw [here] at at_
              exact (Option.some.inj at_) ▸ same
            · exact last between item after (by omega) at_

theorem exists_dependsOn {plan : ExecutionPlan} (ordered : DependenciesEarlier plan) {later : Nat}
    {step : ExecutionStep} (here : plan.steps[later]? = some step) {dependency : String}
    (named : dependency ∈ step.dependencies) :
    ∃ earlier other, DependsOn plan later earlier ∧ plan.steps[earlier]? = some other ∧
      other.id = dependency := by
  obtain ⟨earlier, other, before, lookup, rfl⟩ := ordered later step here dependency named
  obtain ⟨latest, found, _, below, at_, same, last⟩ := exists_latest before lookup
  refine ⟨latest, found, ⟨step, found, here, at_, below, by rwa [same], ?_⟩, at_, same⟩
  rw [same]
  exact last

def recordedStatus (records : List StepRunRecord) (id : String) : Option StepRuntimeStatus :=
  (records.reverse.find? fun record => record.stepId = id).map fun record =>
    runtimeStatus record.status

theorem recordedStatus_append {records : List StepRunRecord} {record : StepRunRecord} {id : String} :
    recordedStatus (records ++ [record]) id =
      if record.stepId = id then some (runtimeStatus record.status)
      else recordedStatus records id := by
  by_cases same : record.stepId = id <;> simp [recordedStatus, same]

theorem recordedStatus_latest {records : List StepRunRecord} {position : Nat}
    {record : StepRunRecord} (here : records[position]? = some record)
    (last : ∀ later other, position < later → records[later]? = some other →
      other.stepId ≠ record.stepId) :
    recordedStatus records record.stepId = some (runtimeStatus record.status) := by
  induction records using List.reverseRecOn with
  | nil => simp at here
  | append_singleton records final ih =>
      rw [recordedStatus_append]
      by_cases same : final.stepId = record.stepId
      · rw [if_pos same]
        by_cases ending : position = records.length
        · subst ending
          simp only [List.getElem?_concat_length, Option.some.injEq] at here
          rw [here]
        · have inside := (List.getElem?_eq_some_iff.mp here).1
          have short : position < records.length := by
            simp only [List.length_append, List.length_singleton] at inside
            omega
          exact absurd same (last records.length final short (by simp))
      · rw [if_neg same]
        have inside := (List.getElem?_eq_some_iff.mp here).1
        have apart : position ≠ records.length := by
          rintro rfl
          simp only [List.getElem?_concat_length, Option.some.injEq] at here
          exact same (congrArg _ here)
        have short : position < records.length := by
          simp only [List.length_append, List.length_singleton] at inside
          omega
        rw [List.getElem?_append_left short] at here
        refine ih here fun later other after found => last later other after ?_
        have bound := (List.getElem?_eq_some_iff.mp found).1
        rwa [List.getElem?_append_left bound]

section

variable {plan : ExecutionPlan}

def DirectDone (plan : ExecutionPlan) (records : List StepRunRecord) (position : Nat) : Prop :=
  ∀ earlier, DependsOn plan position earlier → Done records earlier

variable {records : List StepRunRecord} {events more seen : List RunnerEvent} {count : Nat}
  {state : RunnerState} {result : Except RunnerState RunnerState}

theorem Done.append {more : List StepRunRecord} {position : Nat} (done : Done records position) :
    Done (records ++ more) position := by
  obtain ⟨record, here, status⟩ := done
  have inside := (List.getElem?_eq_some_iff.mp here).1
  exact ⟨record, by rwa [List.getElem?_append_left inside], status⟩

theorem done_of_transGen {position earlier : Nat}
    (closed : ∀ position, Done records position → DirectDone plan records position)
    (direct : DirectDone plan records position)
    (chain : TransGen (DependsOn plan) position earlier) : Done records earlier := by
  induction chain with
  | single edge => exact direct _ edge
  | tail _ edge ih => exact closed _ ih _ edge

/-- The state of the loop after `count` steps, and the events seen until then; `ended` says that the
loop was left there. -/
structure Going (plan : ExecutionPlan) (ended : Prop) (count : Nat) (state : RunnerState)
    (seen : List RunnerEvent) : Prop where
  recorded : state.records.map (·.stepId) = (plan.steps.take count).map (·.id)
  counted : state.records.length = count
  known : state.aborted = false → state.cancelled = false → ∀ id,
    (state.execution.steps.get? id).map (·.status) = recordedStatus state.records id
  closed : ∀ position, Done state.records position → DirectDone plan state.records position
  calls : ∀ event ∈ seen, ∀ position stepCall, entered event = some (position, stepCall) →
    position < count ∧ DirectDone plan state.records position ∧
      ∀ step, plan.steps[position]? = some step → missingCapabilities plan step = []
  quiet : seen.Pairwise NoCallAfterRefusal
  refused : Refused seen → state.aborted = true ∨ ended
  marked : ∀ record ∈ state.records, record.status = .cancelled → state.cancelled = true
  cancelled : ∀ position record, state.records[position]? = some record →
    record.status = .cancelled → ∀ event ∈ seen, ∀ later stepCall,
      entered event = some (later, stepCall) → later < position

theorem going_start : Going plan False 0 (initialState plan) [] where
  recorded := by simp [initialState]
  counted := rfl
  known := by simp [initialState, ExecutionState.fromPlan, recordedStatus]
  closed := by simp [initialState, Done]
  calls := by simp
  quiet := .nil
  refused := by simp [Refused]
  marked := by simp [initialState]
  cancelled := by simp

structure Extends (plan : ExecutionPlan) (ended : Prop) (count : Nat) (step : ExecutionStep) (state next : RunnerState)
    (record : StepRunRecord) (more : List RunnerEvent) : Prop where
  records : next.records = state.records ++ [record]
  named : record.stepId = step.id
  known : next.aborted = false → next.cancelled = false → ∀ id,
    (next.execution.steps.get? id).map (·.status) = recordedStatus next.records id
  done : IsDone record.status → DirectDone plan state.records count
  calls : ∀ event ∈ more, ∀ position stepCall, entered event = some (position, stepCall) →
    position = count ∧ DirectDone plan state.records count ∧ missingCapabilities plan step = []
  quiet : more.Pairwise NoCallAfterRefusal
  refused : Refused more → next.aborted = true ∨ ended
  aborted : state.aborted = true → next.aborted = true
  cancelled : state.cancelled = true → next.cancelled = true
  marked : record.status = .cancelled → next.cancelled = true
  silent : state.aborted = true ∨ state.cancelled = true ∨ record.status = .cancelled → Silent more

variable {record : StepRunRecord}

theorem Done.of_append {position : Nat} (done : Done (records ++ [record]) position) :
    Done records position ∨ position = records.length ∧ IsDone record.status := by
  obtain ⟨found, here, status⟩ := done
  by_cases short : position < records.length
  · rw [List.getElem?_append_left short] at here
    exact .inl ⟨found, here, status⟩
  · have inside := (List.getElem?_eq_some_iff.mp here).1
    have final : position = records.length := by
      simp only [List.length_append, List.length_singleton] at inside
      omega
    subst final
    simp only [List.getElem?_concat_length, Option.some.injEq] at here
    exact .inr ⟨rfl, here ▸ status⟩

theorem DirectDone.append {more : List StepRunRecord} {position : Nat}
    (direct : DirectDone plan records position) : DirectDone plan (records ++ more) position :=
  fun earlier edge => (direct earlier edge).append

variable {step : ExecutionStep}

theorem Going.extend {ended : Prop} {next : RunnerState} (going : Going plan False count state seen)
    (here : plan.steps[count]? = some step)
    (ext : Extends plan ended count step state next record more) :
    Going plan ended (count + 1) next (seen ++ more) where
  recorded := by
    rw [ext.records, List.map_append, going.recorded, List.take_add_one, here]
    simp [ext.named]
  counted := by simp [ext.records, going.counted]
  known := ext.known
  closed := by
    intro position done
    rw [ext.records] at done ⊢
    rcases done.of_append with old | ⟨rfl, status⟩
    · exact (going.closed position old).append
    · rw [going.counted]
      exact (ext.done status).append
  calls := by
    intro event member position stepCall found
    rw [ext.records]
    rcases List.mem_append.mp member with early | late
    · obtain ⟨before, direct, capable⟩ := going.calls event early position stepCall found
      exact ⟨by omega, direct.append, capable⟩
    · obtain ⟨rfl, direct, capable⟩ := ext.calls event late position stepCall found
      refine ⟨by omega, direct.append, fun other found => ?_⟩
      rw [here] at found
      exact Option.some.inj found ▸ capable
  quiet := List.pairwise_append.mpr ⟨going.quiet, ext.quiet, fun event member later laterMember
    refused => ext.silent (.inl ((going.refused ⟨event, member, refused⟩).resolve_right id)) later laterMember⟩
  refused := by
    intro found
    rcases refused_append.mp found with early | late
    · exact .inl (ext.aborted ((going.refused early).resolve_right id))
    · exact ext.refused late
  marked := by
    intro item member status
    rw [ext.records] at member
    rcases List.mem_append.mp member with old | new
    · exact ext.cancelled (going.marked item old status)
    · exact ext.marked (List.mem_singleton.mp new ▸ status)
  cancelled := by
    intro position item found status event member later stepCall entry
    rw [ext.records] at found
    by_cases short : position < state.records.length
    · rw [List.getElem?_append_left short] at found
      rcases List.mem_append.mp member with early | late
      · exact going.cancelled position item found status event early later stepCall entry
      · have stopped := going.marked item (List.mem_of_getElem? found) status
        have quiet := ext.silent (.inr (.inl stopped)) event late
        rw [quiet] at entry
        exact nomatch entry
    · have inside := (List.getElem?_eq_some_iff.mp found).1
      have final : position = state.records.length := by
        simp only [List.length_append, List.length_singleton] at inside
        omega
      subst final
      simp only [List.getElem?_concat_length, Option.some.injEq] at found
      rcases List.mem_append.mp member with early | late
      · rw [going.counted]
        exact (going.calls event early later stepCall entry).1
      · have quiet := ext.silent (.inr (.inr (found ▸ status))) event late
        rw [quiet] at entry
        exact nomatch entry

theorem Going.directDone (going : Going plan False count state seen)
    (here : plan.steps[count]? = some step) (running : state.aborted = false)
    (wanted : state.cancelled = false) (free : blockingDependencies step state.execution = []) :
    DirectDone plan state.records count := by
  rintro earlier ⟨later, dependency, found, named, before, depends, last⟩
  obtain rfl : step = later := Option.some.inj (here.symm.trans found)
  have ids : ∀ position : Nat, position < count →
      (state.records[position]?).map (·.stepId) = (plan.steps[position]?).map (·.id) := by
    intro position inside
    have same := congrArg (fun ids => ids[position]?) going.recorded
    simpa [List.getElem?_map, List.getElem?_take_of_lt inside] using same
  obtain ⟨record, lookup⟩ : ∃ record, state.records[earlier]? = some record :=
    ⟨_, List.getElem?_eq_getElem (by rw [going.counted]; exact before)⟩
  have same : record.stepId = dependency.id := by
    have equal := ids earlier before
    rw [lookup, named] at equal
    exact Option.some.inj equal
  have status := recordedStatus_latest lookup fun between other after otherFound => by
    have inside : between < count := by
      have bound := (List.getElem?_eq_some_iff.mp otherFound).1
      rwa [going.counted] at bound
    have equal := ids between inside
    rw [otherFound] at equal
    obtain ⟨item, itemFound, itemNamed⟩ := Option.map_eq_some_iff.mp equal.symm
    rw [same]
    exact fun equal => last between item after inside itemFound (itemNamed.trans equal)
  rw [same, ← going.known running wanted] at status
  obtain ⟨stepState, stored, recorded⟩ := Option.map_eq_some_iff.mp status
  have unblocked : isBlocking state.execution dependency.id = false := by
    simpa using List.filter_eq_nil_iff.mp free dependency.id depends
  simp only [isBlocking, stored, Option.any_some, recorded] at unblocked
  refine ⟨record, lookup, ?_⟩
  cases outcome : record.status <;> simp [outcome, runtimeStatus, IsDone] at unblocked ⊢

/-- The latest round of the loop: a fail-stop record ends it, and so does nothing but a failure. -/
structure Round (plan : ExecutionPlan) (count : Nat) (step : ExecutionStep) (state : RunnerState)
    (more : List RunnerEvent) (result : Except RunnerState RunnerState) : Prop where
  extension : ∃ record, Extends plan (∃ stop, result = .error stop) count step state (stateOf result) record more ∧
    (∀ next, result = .ok next → requiresDeviceFailStop record = false) ∧
    (∀ stop, result = .error stop → record.status = .failed)

theorem round_pass {status : StepRunStatus} {message : String}
    (silent : Silent more) (calm : ¬ Refused more) (undone : ¬ IsDone status)
    (ends : state.aborted = true ∨ state.cancelled = true ∨ status = .cancelled) :
    Round plan count step state more (.ok (state.pass step status message)) := by
  refine ⟨_, ⟨rfl, rfl, ?_, fun done => absurd done undone, ?_, silent.quiet,
    fun found => absurd found calm, fun old => old, ?_, ?_, fun _ => silent⟩, fun _ _ => rfl, nofun⟩
  · intro running wanted
    change state.aborted = false at running
    change (decide (status = .cancelled) || state.cancelled) = false at wanted
    simp only [Bool.or_eq_false_iff, decide_eq_false_iff_not] at wanted
    simp [running, wanted] at ends
  · intro event member position stepCall found
    rw [silent event member] at found
    exact nomatch found
  · intro old
    simp [stateOf, RunnerState.pass, old]
  · intro same
    change status = .cancelled at same
    simp [stateOf, RunnerState.pass, same]

theorem round_settle (going : Going plan False count state seen)
    (here : plan.steps[count]? = some step) (running : state.aborted = false)
    (wanted : state.cancelled = false) {ran : Except StepOutcome StepOutcome}
    (attempted : Attempts (attemptStep plan step count state.execution state.root) more ran)
    (settled : result = if (outcomeOf ran).after = .stop then
      .error (state.settle step (outcomeOf ran)) else .ok (state.settle step (outcomeOf ran))) :
    Round plan count step state more result := by
  obtain ⟨sound, done, calls⟩ := sound_attemptStep plan step attempted
  have state_eq : stateOf result = state.settle step (outcomeOf ran) := by
    rw [settled]
    split <;> rfl
  refine ⟨recordOf step (outcomeOf ran), ⟨by rw [state_eq]; rfl, rfl, ?_, ?_, ?_, sound.quiet, ?_,
    ?_, ?_, fun status => absurd status sound.notCancelled, ?_⟩, ?_, ?_⟩
  · intro _ _ id
    rw [state_eq]
    simp only [RunnerState.settle, recordedStatus_append, StepOutcome.execute, sound.kept,
      OrderedMap.get?_insert]
    have before := going.known running wanted id
    by_cases same : step.id = id
    · simp [recordOf, same]
    · simpa [recordOf, same, Ne.symm same] using before
  · intro status
    exact going.directDone here running wanted (done status)
  · intro event member position stepCall found
    have loud : ¬ Silent more := by
      intro silent
      rw [silent event member] at found
      exact nomatch found
    obtain ⟨free, capable⟩ := calls loud
    exact ⟨sound.calls event member _ found, going.directDone here running wanted free, capable⟩
  · intro found
    cases after : (outcomeOf ran).after with
    | proceed => exact absurd after (sound.refused found)
    | abort => exact .inl (by simp [state_eq, RunnerState.settle, after])
    | stop => exact .inr ⟨_, by rw [settled, if_pos after]⟩
  · simp [running]
  · simp [wanted]
  · rintro (aborted | cancelled | status)
    · simp [running] at aborted
    · simp [wanted] at cancelled
    · exact absurd status sound.notCancelled
  · rintro next rfl
    have goesOn : (outcomeOf ran).after ≠ .stop := by
      intro stops
      simp [stops] at settled
    exact sound.failStop goesOn
  · rintro stop rfl
    have stops : (outcomeOf ran).after = .stop := by
      by_contra goesOn
      simp [goesOn] at settled
    exact sound.stopFailed stops

theorem cancelRequested_events {asked : List RunnerEvent} {wanted : Bool}
    (ran : Runs (cancelRequested state) asked wanted) : Silent asked ∧ ¬ Refused asked ∧
      (wanted = false → state.cancelled = false) := by
  unfold cancelRequested at ran
  split at ran
  · obtain ⟨rfl, rfl⟩ := runs_pure.mp ran
    exact ⟨by simp [Silent], by simp [Refused], nofun⟩
  · next going =>
    obtain rfl := runs_request.mp ran
    exact ⟨by simp [Silent, entered], by simp [Refused, rootRefused], fun _ => by simpa using going⟩

theorem Silent.extends {ended : Prop} {next : RunnerState}
    {before : List RunnerEvent} (silent : Silent before)
    (calm : ¬ Refused before) (ext : Extends plan ended count step state next record more) :
    Extends plan ended count step state next record (before ++ more) where
  records := ext.records
  named := ext.named
  known := ext.known
  done := ext.done
  calls := by
    intro event member position stepCall found
    rcases List.mem_append.mp member with early | late
    · rw [silent event early] at found
      exact nomatch found
    · exact ext.calls event late position stepCall found
  quiet := List.pairwise_append.mpr ⟨silent.quiet, ext.quiet,
    fun event member _ _ refused => absurd ⟨event, member, refused⟩ calm⟩
  refused := fun found => ext.refused ((refused_append.mp found).resolve_left calm)
  aborted := ext.aborted
  cancelled := ext.cancelled
  marked := ext.marked
  silent := fun ends => silent_append.mpr ⟨silent, ext.silent ends⟩

theorem round_scheduleStep (going : Going plan False count state seen)
    (here : plan.steps[count]? = some step)
    (ran : Attempts (scheduleStep plan state (step, count)) more result) :
    Round plan count step state more result := by
  unfold scheduleStep at ran
  by_cases aborted : state.aborted = true
  · rw [if_pos aborted] at ran
    obtain ⟨rfl, rfl⟩ := attempts_pure.mp ran
    exact round_pass (by simp [Silent]) (by simp [Refused]) (by simp [IsDone]) (.inl aborted)
  rw [if_neg aborted] at ran
  rcases attempts_bind.mp ran with ⟨_, stopped, _⟩ | ⟨wanted, asked, rest, answered, goesOn, rfl⟩
  · obtain ⟨_, _, impossible⟩ := attempts_lift.mp stopped
    cases impossible
  obtain ⟨_, requested, same⟩ := attempts_lift.mp answered
  cases same
  obtain ⟨silent, calm, kept⟩ := cancelRequested_events requested
  by_cases cancels : wanted = true
  · rw [if_pos cancels] at goesOn
    obtain ⟨rfl, rfl⟩ := attempts_pure.mp goesOn
    rw [List.append_nil]
    exact round_pass silent calm (by simp [IsDone]) (.inr (.inr rfl))
  rw [if_neg cancels] at goesOn
  rcases attempts_bind.mp goesOn with ⟨_, stopped, _⟩ | ⟨ended, body, tail, attempted, last, rfl⟩
  · obtain ⟨_, _, impossible⟩ := attempts_lift.mp stopped
    cases impossible
  obtain ⟨_, attempt, same⟩ := attempts_lift.mp attempted
  cases same
  have settled : tail = [] ∧ result = if (outcomeOf ended).after = .stop then
      .error (state.settle step (outcomeOf ended)) else .ok (state.settle step (outcomeOf ended)) := by
    by_cases stops : (outcomeOf ended).after = .stop
    · rw [if_pos stops] at last ⊢
      exact attempts_throw.mp last
    · rw [if_neg stops] at last ⊢
      exact attempts_pure.mp last
  obtain ⟨rfl, settled⟩ := settled
  rw [List.append_nil]
  obtain ⟨record, ext, others⟩ := (round_settle going here (by simpa using aborted)
    (kept (by simpa using cancels)) attempt settled).extension
  exact ⟨record, silent.extends calm ext, others⟩

structure Ended (plan : ExecutionPlan) (state : RunnerState) (events : List RunnerEvent) : Prop where
  going : ∃ ended count, Going plan ended count state events ∧ count ≤ plan.steps.length ∧
    (∀ position record, state.records[position]? = some record →
      requiresDeviceFailStop record = true → position + 1 = count) ∧
    (count = plan.steps.length ∨ ∃ record ∈ state.records, record.status = .failed)

theorem item_of_zipIdx {items : List ExecutionStep} {passed rest : List (ExecutionStep × Nat)}
    {item : ExecutionStep × Nat} (split : items.zipIdx = passed ++ item :: rest) :
    item.2 = passed.length ∧ items[passed.length]? = some item.1 := by
  have here : items.zipIdx[passed.length]? = some item := by simp [split]
  rw [List.getElem?_zipIdx] at here
  obtain ⟨found, lookup, same⟩ := Option.map_eq_some_iff.mp here
  subst same
  exact ⟨by simp, lookup⟩

theorem ended_runSteps (ran : Attempts (runSteps plan) events result) :
    Ended plan (stateOf result) events := by
  have rounds := attempts_foldlM
    (fun passed state seen => Going plan False passed.length state seen ∧
      ∀ record ∈ state.records, requiresDeviceFailStop record = false)
    ⟨going_start, by simp [initialState]⟩ (by
      rintro passed ⟨step, index⟩ rest state seen split ⟨going, calm⟩ more next body
      obtain ⟨rfl, here⟩ := item_of_zipIdx split
      obtain ⟨record, ext, goesOn, _⟩ := (round_scheduleStep going here body).extension
      refine ⟨?_, ?_⟩
      · have extended := going.extend here ext
        simpa [stateOf] using extended
      · intro item member
        rw [show next = stateOf (.ok next) from rfl, ext.records] at member
        rcases List.mem_append.mp member with old | new
        · exact calm item old
        · exact List.mem_singleton.mp new ▸ goesOn next rfl) ran
  have length_zipIdx : plan.steps.zipIdx.length = plan.steps.length := List.length_zipIdx
  rcases rounds with ⟨state, rfl, going, calm⟩ |
    ⟨passed, ⟨step, index⟩, rest, state, seen, more, stop, split, ⟨going, calm⟩, body, rfl, rfl⟩
  · refine ⟨False, _, going, by omega, fun position record here fails => ?_, .inl length_zipIdx⟩
    rw [calm record (List.mem_of_getElem? here)] at fails
    exact nomatch fails
  · obtain ⟨rfl, here⟩ := item_of_zipIdx split
    obtain ⟨record, ext, _, failed⟩ := (round_scheduleStep going here body).extension
    have inside := (List.getElem?_eq_some_iff.mp here).1
    refine ⟨_, _, going.extend here ext, inside, fun position item found fails => ?_,
      .inr ⟨record, by simp [ext.records], failed stop rfl⟩⟩
    rw [ext.records] at found
    by_cases short : position < state.records.length
    · rw [List.getElem?_append_left short] at found
      rw [calm item (List.mem_of_getElem? found)] at fails
      exact nomatch fails
    · have bound := (List.getElem?_eq_some_iff.mp found).1
      rw [List.length_append, List.length_singleton] at bound
      have counted := going.counted
      omega

theorem mem_missing (enabled : missingCapabilities plan step = [])
    {capability : String} (needed : capability ∈ step.constraints.capabilities) :
    runtimeCapabilityEnabled plan capability = true := by
  simpa using List.filter_eq_nil_iff.mp enabled capability needed

theorem Ended.runInvariant (ordered : DependenciesEarlier plan)
    (ended : Ended plan state events) :
    RunInvariant plan events (finish plan state) := by
  obtain ⟨_, count, going, _, failStop, _⟩ := ended.going
  refine ⟨?_, ?_, ?_, going.quiet, going.cancelled⟩
  · rw [show (finish plan state).steps = state.records from rfl, going.recorded, List.map_take]
    exact List.take_prefix _ _
  · intro event member position stepCall found
    obtain ⟨_, direct, capable⟩ := going.calls event member position stepCall found
    exact ⟨fun step here capability needed => mem_missing (capable step here) needed,
      fun step here dependency named => exists_dependsOn ordered here named,
      fun earlier chain => done_of_transGen going.closed direct chain⟩
  · intro position record here fails event member later stepCall found
    have last := failStop position record here fails
    obtain ⟨before, _, _⟩ := going.calls event member later stepCall found
    omega

theorem isUnsuccessful_iff : isUnsuccessful record = false ↔ IsDone record.status := by
  cases status : record.status <;> simp [isUnsuccessful, IsDone, status]

theorem Ended.succeedsExactly (ended : Ended plan state events) :
    SucceedsExactly plan (finish plan state) := by
  obtain ⟨_, count, going, _, _, complete⟩ := ended.going
  have success : (finish plan state).success = true ↔ ∀ record ∈ state.records, IsDone record.status := by
    simp only [finish, Bool.not_eq_true', List.any_eq_false, Bool.not_eq_true, isUnsuccessful_iff]
  rw [SucceedsExactly, success]
  constructor
  · intro done
    refine ⟨?_, done⟩
    rcases complete with whole | ⟨record, member, failed⟩
    · exact going.counted.trans whole
    · have status := done record member
      simp [IsDone, failed] at status
  · exact fun holds => holds.2

end

section

variable (plan : ExecutionPlan)

theorem only_admitCopyPlan {allowed : RunnerOperation → Prop} (hosts : allowed .hostDirectories) :
    Only allowed (admitCopyPlan plan).run := by
  have asks : Only allowed (issue .hostDirectories : RunnerAttempt String _).run :=
    only_attempt_lift (only_request.mpr hosts)
  refine only_attempt_bind (only_attempt_forM fun step _ => ?_) fun _ => ?_
  · exact only_attempt_bind asks fun _ => only_check
  · refine only_attempt_bind (only_attempt_forM fun step _ => ?_) fun _ => only_check
    exact only_attempt_bind asks fun _ => only_check

theorem only_admitPlan {allowed : RunnerOperation → Prop} (inputs : allowed .admitLocalInputs)
    (hosts : allowed .hostDirectories) : Only allowed (admitPlan plan).run := by
  refine only_attempt_bind ?_ fun _ => ?_
  · refine only_attempt_bind (only_attempt_lift (only_request.mpr inputs)) fun code => ?_
    cases code with
    | none => exact only_pure
    | some code => exact only_pure
  · exact only_attempt_bind (only_attempt_lift (only_admitCopyPlan plan hosts)) fun _ => only_check

theorem plain_admitPlan : Only (fun operation => isPlain operation = true) (admitPlan plan).run :=
  only_admitPlan plan rfl rfl

variable {events : List RunnerEvent} {result : ExecutionRunResult}

theorem admitPlan_events {result : Except ExecutionRunResult Unit}
    (ran : Attempts (admitPlan plan) events result) : Silent events ∧ ¬ Refused events := by
  have plain := (plain_admitPlan plan).events ran
  refine ⟨fun event member => (plain_event (plain event member)).1, ?_⟩
  rintro ⟨event, member, refused⟩
  rw [(plain_event (plain event member)).2] at refused
  exact nomatch refused

variable {plan}

theorem admitPlan_error (ran : Attempts (admitPlan plan) events (.error result)) :
    ∃ failed blocked, result = refusePlan plan failed blocked := by
  rcases attempts_bind.mp ran with ⟨_, stopped, same⟩ | ⟨_, before, after, _, last, rfl⟩
  · cases same
    obtain ⟨code, after, rest, rfl⟩ := attempts_request_bind.mp stopped
    cases code with
    | none =>
        obtain ⟨_, impossible⟩ := attempts_pure.mp rest
        exact nomatch impossible
    | some code =>
        obtain ⟨_, same⟩ := attempts_throw.mp rest
        cases same
        exact ⟨_, _, rfl⟩
  · rcases attempts_bind.mp last with ⟨_, stopped, _⟩ | ⟨answer, _, _, _, checked, rfl⟩
    · obtain ⟨_, _, impossible⟩ := attempts_lift.mp stopped
      exact nomatch impossible
    · obtain ⟨_, same⟩ := attempts_check.mp checked
      cases answer with
      | ok value => exact nomatch same
      | error message =>
          cases same
          exact ⟨_, _, rfl⟩

theorem refusePlan_steps (failed blocked : String) :
    (refusePlan plan failed blocked).steps.map (·.stepId) = plan.steps.map (·.id) := by
  have names : ∀ item : ExecutionStep × Nat,
      (if item.2 = 0 then (⟨item.1.id, .failed, some failed, .empty, none⟩ : StepRunRecord)
        else ⟨item.1.id, .blocked, some blocked, .empty, none⟩).stepId = item.1.id := by
    intro item
    split <;> rfl
  simp only [refusePlan, List.map_map, Function.comp_def, names]
  refine List.ext_getElem? fun position => ?_
  simp [List.getElem?_zipIdx, Function.comp_def]

theorem refused_runInvariant {failed blocked : String} (silent : Silent events) :
    RunInvariant plan events (refusePlan plan failed blocked) := by
  have quiet {event position stepCall} (member : event ∈ events)
      (found : entered event = some (position, stepCall)) : False := by
    rw [silent event member] at found
    exact nomatch found
  refine ⟨by simp only [refusePlan_steps, List.prefix_rfl], ?_, ?_, silent.quiet, ?_⟩
  · exact fun event member _ _ found => (quiet member found).elim
  · exact fun _ _ _ _ event member _ _ found => (quiet member found).elim
  · exact fun _ _ _ _ event member _ _ found => (quiet member found).elim

theorem refused_succeedsExactly {failed blocked : String} (nonempty : plan.steps ≠ []) :
    SucceedsExactly plan (refusePlan plan failed blocked) := by
  obtain ⟨step, rest, steps⟩ := List.exists_cons_of_ne_nil nonempty
  refine ⟨nofun, fun ⟨_, finished⟩ => ?_⟩
  have first := finished ⟨step.id, .failed, some failed, .empty, none⟩
    (by simp [refusePlan, steps, List.zipIdx_cons])
  simp [IsDone] at first

def admitsLocalInputs : RunnerEvent → Bool
  | ⟨.admitLocalInputs, none⟩ => true
  | _ => false

/-- A plan without steps is admitted when its local inputs are and it has no copy snapshot. -/
def Admitted (plan : ExecutionPlan) (events : List RunnerEvent) : Prop :=
  (∃ event ∈ events, admitsLocalInputs event = true) ∧ plan.copyCommitSnapshots = []

theorem attempts_admitCopyPlan_empty (empty : plan.steps = []) {result : Except String Unit} :
    Attempts (admitCopyPlan plan) events result ↔
      events = [] ∧ result = rejectOrphanedSnapshots plan := by
  simp only [admitCopyPlan, validateSupportedCopyPlan, validateCopyCommitSnapshotCoverage, empty]
  change Attempts (check (rejectOrphanedSnapshots plan)) events result ↔ _
  exact attempts_check

theorem rejectOrphanedSnapshots_empty (empty : plan.steps = []) :
    rejectOrphanedSnapshots plan = .ok () ↔ plan.copyCommitSnapshots = [] := by
  rw [rejectOrphanedSnapshots, Checks.require_eq_ok]
  cases snapshots : plan.copyCommitSnapshots with
  | nil => simp
  | cons snapshot rest => simp [ownsSnapshot, empty]

theorem admitPlan_empty (empty : plan.steps = []) {result : Except ExecutionRunResult Unit}
    (ran : Attempts (admitPlan plan) events result) :
    result = .ok () ↔ Admitted plan events := by
  rcases attempts_bind.mp ran with ⟨_, stopped, rfl⟩ | ⟨_, before, after, admitted, last, rfl⟩
  · obtain ⟨code, tail, rest, rfl⟩ := attempts_request_bind.mp stopped
    cases code with
    | none =>
        obtain ⟨_, impossible⟩ := attempts_pure.mp rest
        exact nomatch impossible
    | some code =>
        obtain ⟨rfl, _⟩ := attempts_throw.mp rest
        simp [Admitted, admitsLocalInputs]
  · obtain ⟨code, tail, rest, rfl⟩ := attempts_request_bind.mp admitted
    cases code with
    | some code =>
        obtain ⟨_, impossible⟩ := attempts_throw.mp rest
        exact nomatch impossible
    | none =>
        rcases attempts_bind.mp last with ⟨_, stopped, _⟩ | ⟨answer, _, _, lifted, checked, rfl⟩
        · obtain ⟨_, _, impossible⟩ := attempts_lift.mp stopped
          exact nomatch impossible
        · obtain ⟨_, body, same⟩ := attempts_lift.mp lifted
          cases same
          obtain ⟨_, rfl⟩ := (attempts_admitCopyPlan_empty empty).mp body
          obtain ⟨_, rfl⟩ := attempts_check.mp checked
          rw [Admitted, ← rejectOrphanedSnapshots_empty empty]
          cases rejectOrphanedSnapshots plan <;> simp [Except.mapError, admitsLocalInputs]

theorem RunInvariant.prepend {before : List RunnerEvent} (silent : Silent before)
    (calm : ¬ Refused before) (holds : RunInvariant plan events result) :
    RunInvariant plan (before ++ events) result := by
  have inside {event : RunnerEvent} {position : Nat} {stepCall : StepCall}
      (member : event ∈ before ++ events) (found : entered event = some (position, stepCall)) :
      event ∈ events := by
    rcases List.mem_append.mp member with early | late
    · rw [silent event early] at found
      exact nomatch found
    · exact late
  exact {
    recorded := holds.recorded
    allowed := fun event member position stepCall found =>
      holds.allowed event (inside member found) position stepCall found
    failStop := fun position record here fails event member later stepCall found =>
      holds.failStop position record here fails event (inside member found) later stepCall found
    refused := List.pairwise_append.mpr ⟨silent.quiet, holds.refused,
      fun event member _ _ refused => absurd ⟨event, member, refused⟩ calm⟩
    cancelled := fun position record here status event member later stepCall found =>
      holds.cancelled position record here status event (inside member found) later stepCall found }

theorem Ended.success_of_empty {state : RunnerState} (ended : Ended plan state events)
    (empty : plan.steps = []) :
    (finish plan state).success = true := by
  obtain ⟨_, count, going, bound, _⟩ := ended.going
  have counted := going.counted
  rw [empty, List.length_nil] at bound
  have none : state.records = [] := List.length_eq_zero_iff.mp (by omega)
  simp [finish, none]

/-- Every run of the executor keeps the run invariant. Its result says success exactly when every
step is recorded as executed or skipped; a plan without steps succeeds when it is admitted. -/
theorem runWithProgressAndCancel_invariant (ordered : DependenciesEarlier plan)
    {events : List RunnerEvent} {result : ExecutionRunResult}
    (ran : Runs (runWithProgressAndCancel plan) events result) :
    RunInvariant plan events result ∧ (plan.steps ≠ [] → SucceedsExactly plan result) ∧
      (plan.steps = [] → (result.success = true ↔ Admitted plan events)) := by
  rcases Program.runs_guarded ran with
    ⟨refusal, stopped, rfl⟩ | ⟨state, seen, more, passed, steps, rfl, rfl⟩
  · obtain ⟨failed, blocked, rfl⟩ := admitPlan_error stopped
    obtain ⟨silent, _⟩ := admitPlan_events plan stopped
    refine ⟨refused_runInvariant silent, refused_succeedsExactly, fun empty => ?_⟩
    rw [← admitPlan_empty empty stopped]
    exact ⟨nofun, nofun⟩
  · obtain ⟨silent, calm⟩ := admitPlan_events plan passed
    have ended := ended_runSteps steps
    refine ⟨(ended.runInvariant ordered).prepend silent calm, fun _ => ended.succeedsExactly,
      fun empty => ?_⟩
    obtain ⟨⟨event, member, admits⟩, none⟩ := (admitPlan_empty empty passed).mp rfl
    exact iff_of_true (ended.success_of_empty empty)
      ⟨⟨event, List.mem_append_left _ member, admits⟩, none⟩

theorem complete_of_success (ran : Runs (runWithProgressAndCancel plan) events result)
    (success : result.success = true) :
    result.steps.length = plan.steps.length ∧ ∀ record ∈ result.steps, IsDone record.status := by
  rcases Program.runs_guarded ran with
    ⟨refusal, stopped, rfl⟩ | ⟨state, seen, more, passed, steps, rfl, rfl⟩
  · obtain ⟨failed, blocked, rfl⟩ := admitPlan_error stopped
    exact nomatch success
  · exact (ended_runSteps steps).succeedsExactly.mp success

def waitStep (id : String) (dependencies : List String) : ExecutionStep where
  id := id
  recipeRef := "setup"
  appId := none
  typeName := "wait"
  name := "Wait"
  note := ""
  dependencies := dependencies
  constraints := ⟨[], []⟩
  permissionPlan := none
  params := .empty
  skipIf := []
  verify := []

def planOf (steps : List ExecutionStep) (snapshots : List ExecutionCopyCommitSnapshot) :
    ExecutionPlan where
  id := "plan"
  apps := []
  copyCommitSnapshots := snapshots
  runtimeCapabilities := ⟨true, true, true, true, true, true, false, false, none⟩
  inputs := []
  artifacts := []
  steps := steps

def smoothAnswers : (operation : RunnerOperation) → RunnerOperation.Response operation
  | .admitLocalInputs => none
  | .hostDirectories => fun _ => false
  | .shouldCancel => false
  | .ownsPerCommandRootAuthority => true
  | .revalidateRoot => .ok ()
  | .enter _ _ => ()
  | .packageInstalled _ | .pathExists _ | .pathIsDir _ => .ok true
  | .usesFakeDeviceFilesystem | .sandboxPathExists _ | .sandboxPathIsFile _ => false
  | .reachRootCheck _ _ => .ok false
  | .performStep _ _ => ⟨.ok .empty, .empty⟩

def chainPlan : ExecutionPlan :=
  planOf [waitStep "setup/first" [], waitStep "setup/second" ["setup/first"]] []

theorem chainPlan_ordered : DependenciesEarlier chainPlan := by
  intro later step here dependency named
  match later with
  | 0 =>
      cases here
      exact absurd named (by simp [waitStep])
  | 1 =>
      cases here
      obtain rfl : dependency = "setup/first" := by simpa [waitStep] using named
      exact ⟨0, _, Nat.zero_lt_one, rfl, rfl⟩
  | later + 2 => exact nomatch here

theorem runWithProgressAndCancel_invariant_sample :
    ∃ events result, Runs (runWithProgressAndCancel chainPlan) events result ∧
      RunInvariant chainPlan events result ∧ SucceedsExactly chainPlan result := by
  obtain ⟨events, result, ran, _⟩ :=
    exists_runs_answers smoothAnswers (runWithProgressAndCancel chainPlan)
  obtain ⟨holds, succeeds, _⟩ := runWithProgressAndCancel_invariant chainPlan_ordered ran
  exact ⟨events, result, ran, holds, succeeds (by simp [chainPlan, planOf])⟩

theorem runs_of_refused {plan : ExecutionPlan}
    (refused : Attempts (admitPlan plan) events (.error result)) :
    Runs (runWithProgressAndCancel plan) events result :=
  runs_bind.mpr ⟨.error result, events, [], attempts_bind_error refused,
    runs_pure.mpr ⟨rfl, rfl⟩, by simp⟩

theorem orphanedSnapshot_refused : ∃ events result,
    Attempts (admitPlan (planOf [] [⟨"setup/copy"⟩])) events (.error result) ∧ result.steps = [] := by
  have empty : (planOf [] [⟨"setup/copy"⟩]).steps = [] := rfl
  refine ⟨[⟨.admitLocalInputs, none⟩] ++ ([] ++ []), _, attempts_bind_ok
    (attempts_request_bind.mpr ⟨none, [], attempts_pure.mpr ⟨rfl, rfl⟩, rfl⟩)
    (attempts_bind_ok (attempts_lift.mpr
      ⟨_, (attempts_admitCopyPlan_empty empty).mpr ⟨rfl, rfl⟩, rfl⟩)
      (attempts_check.mpr ⟨rfl, rfl⟩)), rfl⟩

/-- A plan without steps that keeps a copy snapshot is refused although no step lacks a record. -/
theorem not_succeedsExactly_orphanedSnapshot :
    ∃ events result, DependenciesEarlier (planOf [] [⟨"setup/copy"⟩]) ∧
      Runs (runWithProgressAndCancel (planOf [] [⟨"setup/copy"⟩])) events result ∧
      ¬ SucceedsExactly (planOf [] [⟨"setup/copy"⟩]) result := by
  obtain ⟨events, result, refused, none⟩ := orphanedSnapshot_refused
  refine ⟨events, result, fun _ _ here => (nomatch here), runs_of_refused refused, ?_⟩
  obtain ⟨failed, blocked, rfl⟩ := admitPlan_error refused
  intro exactly
  have wrong := exactly.mpr ⟨by rw [none]; rfl, by simp [none]⟩
  exact nomatch wrong

end

end EmuChef.Executor
