import EmuChef.Executor.RunLaw
import EmuChef.Lib.Reporting
import EmuChef.Session.ExecutionReport

/-! The executor run with its progress reports, and what the reports of a whole run say about
the run records. -/

namespace EmuChef.Session

open Planner Executor Program

abbrev WorkerOperation := Reporting RunnerOperation ExecutionProgressEvent

abbrev Worker (α : Type) :=
  Reporter RunnerOperation ExecutionProgressEvent RunnerOperation.Response α

abbrev WorkerEvent := ReportingEvent RunnerOperation ExecutionProgressEvent RunnerOperation.Response

abbrev WorkerAttempt (ε α : Type) :=
  Attempt WorkerOperation (Reporting.Answer RunnerOperation.Response) ε α

section

variable (plan : ExecutionPlan)

def progressEvent (step : ExecutionStep) (phase : ProgressPhase) (status : Option ProgressStatus)
    (message : Option String) : ExecutionProgressEvent :=
  ⟨step.id, step.recipeRef, phase, status, message⟩

def progressStatus : StepRunStatus → ProgressStatus
  | .executed => .succeeded
  | .skipped => .skipped
  | .blocked => .blocked
  | .failed => .failed
  | .cancelled => .cancelled

def callProgress (step : ExecutionStep) : RunnerOperation → Option ExecutionProgressEvent
  | .enter _ .runStep => some (progressEvent step .executing none none)
  | .enter _ .verify => some (progressEvent step .verifying none none)
  | _ => none

def silently {α : Type} (runner : Runner α) : Worker α := reporting (fun _ => none) runner

def finishedProgress (step : ExecutionStep) (outcome : StepOutcome) : ExecutionProgressEvent :=
  progressEvent step .finished (some (progressStatus outcome.status)) outcome.message

def reportStep (state : RunnerState) (item : ExecutionStep × Nat) : Worker StepOutcome := do
  announce (progressEvent item.1 .checkingSkipConditions none none)
  let ran ← reporting (callProgress item.1)
    (attemptStep plan item.1 item.2 state.execution state.root).run
  let outcome := outcomeOf ran
  announce (finishedProgress item.1 outcome)
  return outcome

def reportScheduled (state : RunnerState) (item : ExecutionStep × Nat) :
    WorkerAttempt RunnerState RunnerState := do
  if state.aborted then
    return state.pass item.1 .blocked "execution aborted after root preflight failure"
  else if ← ExceptT.lift (silently (cancelRequested state)) then
    return state.pass item.1 .cancelled "execution cancelled before step scheduling"
  else do
    let outcome ← ExceptT.lift (reportStep plan state item)
    let settled := state.settle item.1 outcome
    if outcome.after = .stop then throw settled else return settled

def reportSteps : WorkerAttempt RunnerState RunnerState :=
  plan.steps.zipIdx.foldlM (reportScheduled plan) (initialState plan)

def runReporting : Worker ExecutionRunResult := do
  let ended ← ExceptT.run do
    reportingAttempt (fun _ => none) (admitPlan plan)
    let state ← ExceptT.lift (reportSteps plan).run
    return finish plan (stateOf state)
  return resultOf ended

variable {plan}

theorem notes_silent (events : List RunnerEvent) :
    notes (events.flatMap (shown fun _ : RunnerOperation => (none : Option ExecutionProgressEvent))) =
      [] := by
  rw [notes_flatMap_shown]
  simp

theorem runs_reportStep {state : RunnerState} {item : ExecutionStep × Nat}
    {events : List WorkerEvent} {outcome : StepOutcome}
    (ran : Runs (reportStep plan state item) events outcome) :
    ∃ inner ended, Attempts (attemptStep plan item.1 item.2 state.execution state.root) inner ended ∧
      outcome = outcomeOf ended ∧
      events = [noted (progressEvent item.1 .checkingSkipConditions none none)] ++
        inner.flatMap (shown (callProgress item.1)) ++ [noted (finishedProgress item.1 outcome)] := by
  obtain ⟨_, rest, tail, rfl⟩ := runs_request_bind.mp ran
  obtain ⟨ended, body, last, reported, finished, rfl⟩ := runs_bind.mp tail
  obtain ⟨inner, attempted, rfl⟩ := runs_reporting.mp reported
  obtain ⟨_, after, closed, rfl⟩ := runs_request_bind.mp finished
  obtain ⟨rfl, rfl⟩ := runs_pure.mp closed
  exact ⟨inner, ended, attempted, rfl, by simp [noted]⟩

theorem attempts_reportScheduled {state : RunnerState} {item : ExecutionStep × Nat}
    {events : List WorkerEvent} {result : Except RunnerState RunnerState}
    (ran : Attempts (reportScheduled plan state item) events result) :
    (∃ status message, (status = .blocked ∨ status = .cancelled) ∧
      result = .ok (state.pass item.1 status message) ∧ notes events = []) ∨
    ∃ asked inner ended, Attempts (attemptStep plan item.1 item.2 state.execution state.root)
        inner ended ∧
      result = (if (outcomeOf ended).after = .stop then .error (state.settle item.1 (outcomeOf ended))
        else .ok (state.settle item.1 (outcomeOf ended))) ∧
      notes asked = [] ∧
      events = asked ++ ([noted (progressEvent item.1 .checkingSkipConditions none none)] ++
        inner.flatMap (shown (callProgress item.1)) ++
        [noted (finishedProgress item.1 (outcomeOf ended))]) := by
  unfold reportScheduled at ran
  by_cases aborted : state.aborted = true
  · rw [if_pos aborted] at ran
    obtain ⟨rfl, rfl⟩ := attempts_pure.mp ran
    exact .inl ⟨.blocked, _, .inl rfl, rfl, rfl⟩
  rw [if_neg aborted] at ran
  rcases attempts_bind.mp ran with ⟨_, stopped, _⟩ | ⟨wanted, asked, rest, answered, goesOn, rfl⟩
  · obtain ⟨_, _, impossible⟩ := attempts_lift.mp stopped
    cases impossible
  obtain ⟨_, requested, same⟩ := attempts_lift.mp answered
  cases same
  obtain ⟨inner, _, rfl⟩ := runs_reporting.mp requested
  have quiet := notes_silent inner
  by_cases cancels : wanted = true
  · rw [if_pos cancels] at goesOn
    obtain ⟨rfl, rfl⟩ := attempts_pure.mp goesOn
    exact .inl ⟨.cancelled, _, .inr rfl, rfl, by simp [quiet]⟩
  rw [if_neg cancels] at goesOn
  rcases attempts_bind.mp goesOn with ⟨_, stopped, _⟩ | ⟨outcome, body, tail, reported, last, rfl⟩
  · obtain ⟨_, _, impossible⟩ := attempts_lift.mp stopped
    cases impossible
  obtain ⟨_, ran, same⟩ := attempts_lift.mp reported
  cases same
  obtain ⟨calls, ended, attempted, rfl, rfl⟩ := runs_reportStep ran
  have settled : tail = [] ∧ result = if (outcomeOf ended).after = .stop then
      .error (state.settle item.1 (outcomeOf ended))
      else .ok (state.settle item.1 (outcomeOf ended)) := by
    by_cases stops : (outcomeOf ended).after = .stop
    · rw [if_pos stops] at last ⊢
      exact attempts_throw.mp last
    · rw [if_neg stops] at last ⊢
      exact attempts_pure.mp last
  obtain ⟨rfl, settled⟩ := settled
  exact .inr ⟨_, calls, ended, attempted, settled, quiet, by simp⟩

theorem reports_runReporting : Reports (runReporting plan) (runWithProgressAndCancel plan) := by
  have scheduled : ∀ (state : RunnerState) (item : ExecutionStep × Nat),
      Reports (reportScheduled plan state item).run (scheduleStep plan state item).run := by
    intro state item
    unfold reportScheduled scheduleStep
    split
    next _ => exact reports_pure _
    next _ =>
      refine reports_attempt_bind (reports_attempt_lift (reports_reporting _)) fun wanted => ?_
      split
      next _ => exact reports_pure _
      next _ =>
        intro events result ran
        rcases attempts_bind.mp ran with ⟨_, stopped, _⟩ | ⟨_, body, tail, reported, last, rfl⟩
        · obtain ⟨_, _, impossible⟩ := attempts_lift.mp stopped
          exact nomatch impossible
        obtain ⟨_, ran, same⟩ := attempts_lift.mp reported
        cases same
        obtain ⟨inner, ended, attempted, rfl, rfl⟩ := runs_reportStep ran
        have plainly : tail = [] ∧ result = if (outcomeOf ended).after = .stop then
            .error (state.settle item.1 (outcomeOf ended))
            else .ok (state.settle item.1 (outcomeOf ended)) := by
          by_cases stops : (outcomeOf ended).after = .stop
          · rw [if_pos stops] at last ⊢
            exact attempts_throw.mp last
          · rw [if_neg stops] at last ⊢
            exact attempts_pure.mp last
        obtain ⟨rfl, rfl⟩ := plainly
        have kept : operations ([noted (progressEvent item.1 .checkingSkipConditions none none)] ++
            inner.flatMap (shown (callProgress item.1)) ++
            [noted (finishedProgress item.1 (outcomeOf ended))] ++ []) = inner ++ [] := by
          rw [List.append_nil, operations_append, operations_append, operations_flatMap_shown]
          simp [operations, noted]
        rw [kept]
        refine attempts_bind_ok (attempts_lift.mpr ⟨ended, attempted, rfl⟩) ?_
        change Attempts (if (outcomeOf ended).after = .stop then
          throw (state.settle item.1 (outcomeOf ended))
          else pure (state.settle item.1 (outcomeOf ended))) [] _
        by_cases stops : (outcomeOf ended).after = .stop
        · rw [if_pos stops, if_pos stops]
          exact attempts_throw.mpr ⟨rfl, rfl⟩
        · rw [if_neg stops, if_neg stops]
          exact attempts_pure.mpr ⟨rfl, rfl⟩
  refine reports_bind ?_ fun ended => reports_pure _
  refine reports_attempt_bind (reports_reporting _) fun _ => ?_
  exact reports_attempt_bind (reports_attempt_lift (reports_attempt_foldlM scheduled))
    fun state => reports_pure _

end

section

variable {plan : ExecutionPlan}

def shownStatus (progress : List ExecutionProgressEvent) (stepId : String) : StepExecutionStatus :=
  progress.foldl (fun status event => if event.stepId = stepId then progressStepStatus event else status)
    .pending

def stepStatus : StepRunStatus → StepExecutionStatus
  | .executed => .succeeded
  | .skipped => .skipped
  | .blocked => .blocked
  | .failed => .failed
  | .cancelled => .cancelled

def Started (progress : List ExecutionProgressEvent) (stepId : String) : Prop :=
  ∃ event ∈ progress, event.stepId = stepId

variable {before progress : List ExecutionProgressEvent} {records : List StepRunRecord}

theorem shownStatus_append {after : List ExecutionProgressEvent} {stepId : String}
    (other : ¬Started after stepId) :
    shownStatus (before ++ after) stepId = shownStatus before stepId := by
  rw [shownStatus, List.foldl_append, ← shownStatus]
  induction after generalizing before with
  | nil => rfl
  | cons event rest ih =>
      have apart : event.stepId ≠ stepId := fun same => other ⟨event, by simp, same⟩
      rw [List.foldl_cons, if_neg apart]
      exact ih fun ⟨later, member, same⟩ => other ⟨later, by simp [member], same⟩

theorem shownStatus_last {event : ExecutionProgressEvent} :
    shownStatus (before ++ [event]) event.stepId = progressStepStatus event := by
  simp [shownStatus]

theorem shownStatus_of_not_started {stepId : String} (other : ¬Started progress stepId) :
    shownStatus progress stepId = .pending := by
  have nothing : shownStatus ([] ++ progress) stepId = .pending := shownStatus_append other
  exact nothing

theorem progressStepStatus_finished {step : ExecutionStep} {outcome : StepOutcome} :
    progressStepStatus (finishedProgress step outcome) = stepStatus outcome.status := by
  cases status : outcome.status <;>
    simp [finishedProgress, progressEvent, progressStatus, progressStepStatus, stepStatus, status]

structure Told (records : List StepRunRecord) (progress : List ExecutionProgressEvent) : Prop where
  recorded : ∀ event ∈ progress, ∃ record ∈ records, record.stepId = event.stepId
  agrees : ∀ record ∈ records, Started progress record.stepId →
    shownStatus progress record.stepId = stepStatus record.status
  done : ∀ record ∈ records, IsDone record.status → Started progress record.stepId

theorem Told.nil : Told [] [] := ⟨by simp, by simp, by simp⟩

theorem Told.not_started (told : Told records progress) {stepId : String}
    (fresh : stepId ∉ records.map (·.stepId)) :
    ¬Started progress stepId := by
  rintro ⟨event, member, same⟩
  obtain ⟨record, held, named⟩ := told.recorded event member
  exact fresh (List.mem_map.mpr ⟨record, held, named.trans same⟩)

theorem Told.pass {record : StepRunRecord} (told : Told records progress)
    (fresh : record.stepId ∉ records.map (·.stepId)) (undone : ¬IsDone record.status) :
    Told (records ++ [record]) progress where
  recorded := by
    intro event member
    obtain ⟨held, inside, same⟩ := told.recorded event member
    exact ⟨held, List.mem_append_left _ inside, same⟩
  agrees := by
    intro held member started
    rcases List.mem_append.mp member with old | new
    · exact told.agrees held old started
    · obtain rfl := List.mem_singleton.mp new
      exact absurd started (told.not_started fresh)
  done := by
    intro held member finished
    rcases List.mem_append.mp member with old | new
    · exact told.done held old finished
    · obtain rfl := List.mem_singleton.mp new
      exact absurd finished undone

theorem Told.settle {step : ExecutionStep} {outcome : StepOutcome}
    (told : Told records progress) (fresh : step.id ∉ records.map (·.stepId))
    (own : ∀ event ∈ before, event.stepId = step.id) :
    Told (records ++ [recordOf step outcome])
      (progress ++ (before ++ [finishedProgress step outcome])) := by
  have block : ∀ event ∈ before ++ [finishedProgress step outcome], event.stepId = step.id := by
    intro event member
    rcases List.mem_append.mp member with early | late
    · exact own event early
    · rw [List.mem_singleton.mp late]
      rfl
  have last : Started (progress ++ (before ++ [finishedProgress step outcome])) step.id :=
    ⟨finishedProgress step outcome, by simp, rfl⟩
  refine ⟨fun event member => ?_, fun record member started => ?_, fun record member finished => ?_⟩
  · rcases List.mem_append.mp member with old | new
    · obtain ⟨held, inside, same⟩ := told.recorded event old
      exact ⟨held, List.mem_append_left _ inside, same⟩
    · exact ⟨recordOf step outcome, by simp, (block event new).symm⟩
  · rcases List.mem_append.mp member with old | new
    · have apart : step.id ≠ record.stepId := fun same =>
        fresh (List.mem_map.mpr ⟨record, old, same.symm⟩)
      have other : ¬Started (before ++ [finishedProgress step outcome]) record.stepId := by
        rintro ⟨event, inside, same⟩
        exact apart ((block event inside).symm.trans same)
      rw [shownStatus_append other]
      obtain ⟨event, inside, same⟩ := started
      rcases List.mem_append.mp inside with early | late
      · exact told.agrees record old ⟨event, early, same⟩
      · exact absurd ⟨event, late, same⟩ other
    · obtain rfl := List.mem_singleton.mp new
      rw [← List.append_assoc]
      exact shownStatus_last.trans progressStepStatus_finished
  · rcases List.mem_append.mp member with old | new
    · obtain ⟨event, inside, same⟩ := told.done record old finished
      exact ⟨event, List.mem_append_left _ inside, same⟩
    · obtain rfl := List.mem_singleton.mp new
      exact last

theorem callProgress_stepId {step : ExecutionStep} {operation : RunnerOperation}
    {event : ExecutionProgressEvent} (reported : callProgress step operation = some event) :
    event.stepId = step.id := by
  unfold callProgress at reported
  split at reported
  · exact (Option.some.inj reported) ▸ rfl
  · exact (Option.some.inj reported) ▸ rfl
  · exact nomatch reported

structure Telling (plan : ExecutionPlan) (passed : List (ExecutionStep × Nat)) (state : RunnerState)
    (seen : List WorkerEvent) : Prop where
  ids : state.records.map (·.stepId) = passed.map (·.1.id)
  told : Told state.records (notes seen)

theorem telling_round {passed rest : List (ExecutionStep × Nat)} {item : ExecutionStep × Nat}
    {state : RunnerState} {seen more : List WorkerEvent} {result : Except RunnerState RunnerState}
    (unique : (plan.steps.map (·.id)).Nodup) (split : plan.steps.zipIdx = passed ++ item :: rest)
    (telling : Telling plan passed state seen)
    (ran : Attempts (reportScheduled plan state item) more result) :
    Telling plan (passed ++ [item]) (stateOf result) (seen ++ more) := by
  have fresh : item.1.id ∉ state.records.map (·.stepId) := by
    have ids : plan.steps.map (·.id) = (passed ++ item :: rest).map (·.1.id) := by
      rw [← split]
      refine List.ext_getElem? fun position => ?_
      simp [List.getElem?_zipIdx, Function.comp_def]
    rw [ids, List.map_append, List.map_cons] at unique
    rw [telling.ids]
    exact fun member => (List.nodup_append.mp unique).2.2 _ member _ (by simp) rfl
  rcases attempts_reportScheduled ran with ⟨status, message, passes, rfl, quiet⟩ |
    ⟨asked, inner, ended, attempted, settled, quiet, rfl⟩
  · have undone : ¬IsDone status := by
      rcases passes with rfl | rfl
      · simp [IsDone]
      · simp [IsDone]
    refine ⟨by simp [stateOf, RunnerState.pass, telling.ids], ?_⟩
    rw [notes_append, quiet, List.append_nil]
    exact telling.told.pass fresh undone
  · have state_eq : stateOf result = state.settle item.1 (outcomeOf ended) := by
      rw [settled]
      split
      · rfl
      · rfl
    rw [state_eq]
    refine ⟨by simp [RunnerState.settle, recordOf, telling.ids], ?_⟩
    have block : notes (asked ++ ([noted (progressEvent item.1 .checkingSkipConditions none none)] ++
        inner.flatMap (shown (callProgress item.1)) ++
        [noted (finishedProgress item.1 (outcomeOf ended))])) =
        (progressEvent item.1 .checkingSkipConditions none none ::
          inner.filterMap fun event => callProgress item.1 event.operation) ++
          [finishedProgress item.1 (outcomeOf ended)] := by
      simp only [notes_append, quiet, notes_flatMap_shown]
      simp [notes, noted]
    rw [notes_append, block]
    refine telling.told.settle fresh fun event member => ?_
    rcases List.mem_cons.mp member with rfl | later
    · rfl
    · obtain ⟨call, _, reported⟩ := List.mem_filterMap.mp later
      exact callProgress_stepId reported

theorem telling_reportSteps (unique : (plan.steps.map (·.id)).Nodup) {events : List WorkerEvent}
    {result : Except RunnerState RunnerState} (ran : Attempts (reportSteps plan) events result) :
    ((stateOf result).records.map (·.stepId) <+: plan.steps.map (·.id)) ∧
      Told (stateOf result).records (notes events) := by
  have rounds := attempts_foldlM (Telling plan) ⟨rfl, Told.nil⟩
    (fun passed item rest state seen split telling more next body => by
      have extended := telling_round unique split telling body
      exact extended) ran
  have prefix_of : ∀ {passed rest : List (ExecutionStep × Nat)},
      plan.steps.zipIdx = passed ++ rest → passed.map (·.1.id) <+: plan.steps.map (·.id) := by
    intro passed rest split
    have ids : plan.steps.map (·.id) = (passed ++ rest).map (·.1.id) := by
      rw [← split]
      refine List.ext_getElem? fun position => ?_
      simp [List.getElem?_zipIdx, Function.comp_def]
    rw [ids, List.map_append]
    exact List.prefix_append _ _
  rcases rounds with ⟨state, rfl, telling⟩ |
    ⟨passed, item, rest, state, seen, more, stop, split, telling, body, rfl, rfl⟩
  · refine ⟨?_, telling.told⟩
    have whole := @prefix_of plan.steps.zipIdx [] (List.append_nil _).symm
    rwa [← telling.ids] at whole
  · have extended := telling_round unique split telling body
    refine ⟨?_, extended.told⟩
    have whole := @prefix_of (passed ++ [item]) rest (by rw [split]; simp)
    rwa [← extended.ids] at whole

/-- A run records a prefix of the plan, and its progress tells what it recorded. -/
theorem told_runReporting (unique : (plan.steps.map (·.id)).Nodup) {events : List WorkerEvent}
    {result : ExecutionRunResult} (ran : Runs (runReporting plan) events result) :
    result.steps.map (·.stepId) <+: plan.steps.map (·.id) ∧ Told result.steps (notes events) := by
  rcases Program.runs_guarded ran with
    ⟨refusal, stopped, rfl⟩ | ⟨state, seen, more, passed, steps, rfl, rfl⟩
  · obtain ⟨inner, refused, rfl⟩ := attempts_reporting.mp stopped
    obtain ⟨failed, blocked, rfl⟩ := admitPlan_error refused
    change (refusePlan plan failed blocked).steps.map (·.stepId) <+: _ ∧
      Told (refusePlan plan failed blocked).steps _
    rw [notes_silent, refusePlan_steps]
    refine ⟨List.prefix_rfl, by simp, fun record _ ⟨_, impossible, _⟩ => (by simp at impossible), ?_⟩
    intro record member finished
    obtain ⟨item, _, rfl⟩ := List.mem_map.mp member
    exfalso
    revert finished
    split
    · simp [IsDone]
    · simp [IsDone]
  · obtain ⟨inner, _, rfl⟩ := attempts_reporting.mp passed
    rw [notes_append, notes_silent, List.nil_append]
    exact telling_reportSteps unique steps

end

end EmuChef.Session
