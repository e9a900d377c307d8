import EmuChef.Session.ManagerLaw

/-! What holds of the records of all executions in every state of the manager: the statuses of the
Recipes in their reports, and the stream of their events. -/

namespace EmuChef.Session

open Planner Executor Program

section

/-- What the status of a Recipe says about its steps, the execution and its warnings. -/
def RecipeTold (status : ExecutionStatus) (warnings : List ExecutionIssue)
    (recipe : ExecutionRecipeReport) : Prop :=
  let Settled := ∀ step ∈ recipe.steps, step.status = .succeeded ∨ step.status = .skipped
  match recipe.status with
  | .pending => ∀ step ∈ recipe.steps, step.status = .pending
  | .running => (∃ step ∈ recipe.steps, step.status = .running) ∨
      (∃ step ∈ recipe.steps, step.status = .pending) ∧ status ≠ .failed ∧ status ≠ .cancelled
  | .succeeded => Settled
  | .succeededWithWarnings =>
      Settled ∧ ∃ warning ∈ warnings, warning.recipeId = some recipe.recipeId
  | .failed => (∃ step ∈ recipe.steps, step.status = .failed) ∨ status = .failed
  | .blocked => ∃ step ∈ recipe.steps, step.status = .blocked
  | .cancelled => (∃ step ∈ recipe.steps, step.status = .cancelled) ∨ status = .cancelled

def RecipesTold (report : ExecutionReport) : Prop :=
  ∀ recipe ∈ report.recipes, RecipeTold report.status report.warnings recipe

variable {report : ExecutionReport}

theorem told_recipeStatus (status : ExecutionStatus) (warnings : List ExecutionIssue)
    (recipe : ExecutionRecipeReport) :
    RecipeTold status warnings { recipe with status := recipeStatus recipe.steps status } := by
  unfold recipeStatus
  split
  next failed => exact .inl (by simpa using failed)
  split
  next blocked => simpa [RecipeTold] using blocked
  split
  next cancelled => exact .inl (by simpa using cancelled)
  split
  next running => exact .inl (by simpa using running)
  split
  next waiting =>
    unfold pendingRecipeStatus
    split
    next pending => simpa [RecipeTold] using pending
    split
    · exact .inr rfl
    · exact .inr rfl
    all_goals exact .inr ⟨by simpa using waiting, by simp⟩
  next failed blocked cancelled running pending =>
    intro step member
    simp only [List.any_eq_true, decide_eq_true_eq, not_exists, not_and] at *
    cases ended : step.status with
    | succeeded => exact .inl rfl
    | skipped => exact .inr rfl
    | pending => exact absurd ended (pending step member)
    | running => exact absurd ended (running step member)
    | failed => exact absurd ended (failed step member)
    | blocked => exact absurd ended (blocked step member)
    | cancelled => exact absurd ended (cancelled step member)

theorem told_refreshRecipeStatuses : RecipesTold (refreshRecipeStatuses report) := by
  intro recipe member
  obtain ⟨source, _, rfl⟩ := List.mem_map.mp member
  exact told_recipeStatus _ _ source

theorem told_applyRecipeWarningStatuses (told : RecipesTold report) :
    RecipesTold (applyRecipeWarningStatuses report) := by
  intro recipe member
  obtain ⟨source, held, rfl⟩ := List.mem_map.mp member
  have before := told source held
  split
  next warns =>
    obtain ⟨warning, listed, named⟩ := List.mem_filterMap.mp warns.2
    rw [RecipeTold, warns.1] at before
    exact ⟨before, warning, listed, named⟩
  next => exact before

theorem pending_addStepReport {recipes : List ExecutionRecipeReport} {step : ExecutionStep}
    (pending : ∀ recipe ∈ recipes, recipe.status = .pending ∧
      ∀ held ∈ recipe.steps, held.status = .pending) :
    ∀ recipe ∈ addStepReport recipes step, recipe.status = .pending ∧
      ∀ held ∈ recipe.steps, held.status = .pending := by
  induction recipes with
  | nil => simp [addStepReport, pendingStep]
  | cons first rest ih =>
      obtain ⟨here, later⟩ := List.forall_mem_cons.mp pending
      unfold addStepReport
      split
      · refine List.forall_mem_cons.mpr ⟨⟨here.1, ?_⟩, later⟩
        intro held member
        rcases List.mem_append.mp member with old | new
        · exact here.2 held old
        · rw [List.mem_singleton.mp new]
          rfl
      · exact List.forall_mem_cons.mpr ⟨here, ih later⟩

theorem told_initialReport (executionId : String) (reviewed : ReviewedPlan)
    (mode : ExecutionMode) : RecipesTold (initialReport executionId reviewed mode) := by
  have pending : ∀ recipe ∈ (initialReport executionId reviewed mode).recipes,
      recipe.status = .pending ∧ ∀ held ∈ recipe.steps, held.status = .pending := by
    refine List.foldlRecOn (motive := fun recipes => ∀ recipe ∈ recipes, recipe.status = .pending ∧
      ∀ held ∈ recipe.steps, held.status = .pending) reviewed.plan.steps addStepReport ?_ ?_
    · simp
    · exact fun _ before _ _ => pending_addStepReport before
  intro recipe member
  obtain ⟨same, steps⟩ := pending recipe member
  rw [RecipeTold, same]
  exact steps

end

section

variable {record : ExecutionRecord}

/-- The Recipes of a report agree with their steps, and none is left running at the end. -/
structure RecordTold (record : ExecutionRecord) : Prop where
  recipes : RecipesTold record.report
  settled : PlanUnique record → record.report.status ≠ .running →
    ∀ recipe ∈ record.report.recipes, recipe.status ≠ .running

theorem RecordTold.of_running (recipes : RecipesTold record.report)
    (running : record.report.status = .running) : RecordTold record :=
  ⟨recipes, fun _ ended => absurd running ended⟩

theorem told_finishAttempt {result : ExecutionRunResult}
    (reports : PlanUnique (finishAttempt record result) →
      ReportsRun (finishAttempt record result) result) :
    RecordTold (finishAttempt record result) := by
  have recipes : RecipesTold (finishAttempt record result).report :=
    told_applyRecipeWarningStatuses told_refreshRecipeStatuses
  refine ⟨recipes, fun unique ended recipe member running => ?_⟩
  have told := recipes recipe member
  rw [RecipeTold, running] at told
  have facts := reports unique
  have inside {step : ExecutionStepReport} (held : step ∈ recipe.steps) :
      step ∈ (finishAttempt record result).report.steps :=
    List.mem_flatMap.mpr ⟨recipe, member, held⟩
  rcases told with ⟨step, held, unsettled⟩ | ⟨⟨step, held, pending⟩, notFailed, notCancelled⟩
  · exact facts.settled step (inside held) unsettled
  · have succeeded : (finishAttempt record result).report.status = .succeeded ∨
        (finishAttempt record result).report.status = .succeededWithWarnings := by
      cases status : (finishAttempt record result).report.status <;> simp_all
    rcases facts.succeeded succeeded step (inside held) with done | done
    all_goals cases done.symm.trans pending

theorem told_finishPanicked : RecordTold (finishPanicked record) := by
  refine ⟨told_refreshRecipeStatuses, fun _ _ recipe member running => ?_⟩
  have told := @told_refreshRecipeStatuses _ recipe member
  rw [RecipeTold, running] at told
  rcases told with ⟨step, held, unsettled⟩ | ⟨_, notFailed, _⟩
  · obtain ⟨_, refreshed, rfl⟩ := List.mem_map.mp member
    obtain ⟨_, _, rfl⟩ := List.mem_map.mp refreshed
    obtain ⟨before, _, rfl⟩ := List.mem_map.mp held
    unfold failRunning at unsettled
    split at unsettled
    · cases unsettled
    · contradiction
  · exact notFailed rfl

end

section

variable {world : World} {holds : ExecutionRecord → Prop}

theorem records_update {executionId : String} {change : ExecutionRecord → ExecutionRecord}
    (before : ∀ id record, world.record? id = some record → holds record)
    (changed : ∀ record, world.record? executionId = some record → holds (change record)) :
    ∀ id record, (world.state.update executionId change).records.get? id = some record →
      holds record := by
  intro id record held
  rw [get?_update] at held
  split at held
  · obtain ⟨earlier, found, rfl⟩ := Option.map_eq_some_iff.mp held
    exact changed earlier found
  · exact before id record held

/-- What the start of an execution brings about and each change of a running record keeps holds of
the records at every moment of the process. -/
theorem reachable_records (reached : Reachable world)
    (start : ∀ executionId reviewed mode,
      holds (appendEvent ⟨initialReport executionId reviewed mode, [], false⟩ (startedBody mode)))
    (progress : ∀ record event, record.report.status = .running → holds record →
      holds (recordProgress record event))
    (finish : ∀ record result, record.report.status = .running → holds record →
      (PlanUnique (finishAttempt record result) →
        ReportsRun (finishAttempt record result) result) → holds (finishAttempt record result))
    (panic : ∀ record, record.report.status = .running → holds record →
      holds (finishPanicked record))
    (cancel : ∀ record, record.report.status = .running → holds record →
      holds (appendEvent { record with cancelRequested := true } cancelBody)) :
    ∀ id record, world.record? id = some record → holds record := by
  induction reached with
  | refl =>
      intro id record held
      cases held
  | @tail world next earlier step before =>
  have invariant := invariant_of_reachable earlier
  cases step with
  | start reviewed mode _ =>
      intro id record held
      by_cases own : id = executionName (world.state.nextExecutionId + 1)
      · obtain rfl : appendEvent ⟨initialReport _ reviewed mode, [], false⟩ (startedBody mode) =
            record := by simpa [World.record?, SessionState.start, own] using held
        exact start (executionName (world.state.nextExecutionId + 1)) reviewed mode
      · exact before id record (by simpa [World.record?, SessionState.start, own] using held)
  | operate _ _ _ _ _ _ _ _ _ _ => exact before
  | report _ _ _ event _ held =>
      refine records_update before fun record found => ?_
      exact progress record event (invariant.occupied.running_record held found).1
        (before _ record found)
  | finish _ _ _ result held =>
      refine records_update before fun record found => ?_
      obtain ⟨running, events, left, tracks⟩ := invariant.occupied.running_record held found
      refine finish record result running (before _ record found) fun unique => ?_
      rw [PlanUnique, (extends_finishAttempt result).plan] at unique
      exact tracks.finish rfl unique left.runs
  | panic _ _ _ _ held =>
      refine records_update before fun record found => ?_
      exact panic record (invariant.occupied.running_record held found).1 (before _ record found)
  | release _ _ _ _ =>
      intro id record held
      rw [World.record?, records_release] at held
      exact before id record held
  | cancel _ =>
      refine records_update before fun record found => ?_
      have kept := before _ record found
      by_cases running : record.report.status = .running
      · rw [cancelRecord_running running]
        exact cancel record running kept
      · rw [cancelRecord_terminal running]
        exact kept
  | watch _ => exact before
  | poll _ _ _ _ _ _ => exact before

/-- At every moment of the process the Recipes of each report agree with their steps, and a report
that has ended shows no Recipe as running. -/
theorem reachable_recordTold (reached : Reachable world) :
    ∀ id record, world.record? id = some record → RecordTold record :=
  reachable_records reached
    (fun executionId reviewed mode =>
      .of_running (told_initialReport executionId reviewed mode) rfl)
    (fun _ _ running _ => .of_running told_refreshRecipeStatuses running)
    (fun _ _ _ _ reports => told_finishAttempt reports)
    (fun _ _ _ => told_finishPanicked)
    (fun _ running told => .of_running told.recipes running)

theorem reachable_recordTold_sample : ∃ record,
    endedWorld.record? (executionName 1) = some record ∧ record.report.status = .succeeded ∧
      RecordTold record := by
  obtain ⟨record, found, ended, _⟩ := exists_endedRecord
  exact ⟨record, found, ended, reachable_recordTold reachable_endedWorld _ _ found⟩

end

section

variable {world : World} {record : ExecutionRecord}

/-- The events of an execution: its start, what happened while it ran, and once it has ended the one
event that tells how, which is a panic exactly if the report lists one. -/
structure Streamed (record : ExecutionRecord) : Prop where
  shape : ∃ started middle ending, record.events = started :: (middle ++ ending) ∧
    started.eventType = "execution_started" ∧
    (∀ event ∈ middle, event.eventType = "step_progress" ∨ event.eventType = "cancel_requested") ∧
    (record.report.status = .running → ending = []) ∧
    (record.report.status ≠ .running → ∃ last, ending = [last] ∧
      last.status = some record.report.status.name ∧
      (last.eventType = "execution_completed" ∨ last.eventType = "execution_worker_panicked"))
  cancelled : record.cancelRequested = true ↔
    ∃ event ∈ record.events, event.eventType = "cancel_requested"
  panicked : panicIssue ∈ record.report.errors ↔
    ∃ event ∈ record.events, event.eventType = "execution_worker_panicked"

/-- The issues of a run name their steps, and a panic names none. -/
theorem panicIssue_finishSteps {report : ExecutionReport} (runs : List StepRunRecord) :
    panicIssue ∈ (runs.foldl finishStep report).errors ↔ panicIssue ∈ report.errors := by
  induction runs generalizing report with
  | nil => rfl
  | cons run rest ih =>
      rw [List.foldl_cons, ih, finishStep]
      cases run.status with
      | failed | blocked => simp [panicIssue]
      | executed | skipped | cancelled => rfl

theorem streamed_while {report : ExecutionReport} {requested : Bool} {body : EventBody}
    (streamed : Streamed record) (before : record.report.status = .running)
    (after : report.status = .running) (same : report.errors = record.report.errors)
    (kind : body.eventType = "step_progress" ∧ requested = record.cancelRequested ∨
      body.eventType = "cancel_requested" ∧ requested = true) :
    Streamed (appendEvent ⟨report, record.events, requested⟩ body) := by
  obtain ⟨started, middle, ending, whole, first, between, going, _⟩ := streamed.shape
  obtain rfl := going before
  refine ⟨⟨started, middle ++ [_], [], by simp [appendEvent, whole]; rfl, first, ?_, fun _ => rfl,
    fun ended => absurd after ended⟩, ?_, ?_⟩
  · intro event member
    rcases List.mem_append.mp member with old | new
    · exact between event old
    · obtain rfl := List.mem_singleton.mp new
      exact kind.imp And.left And.left
  · have said := streamed.cancelled
    rcases kind with ⟨type, rfl⟩ | ⟨type, rfl⟩
    · simp [appendEvent, type, said]
    · simp [appendEvent, type]
  · have said := streamed.panicked
    rcases kind with ⟨type, _⟩ | ⟨type, _⟩
    all_goals simp [appendEvent, type, same, said]

theorem streamed_end {report : ExecutionReport} {body : EventBody}
    (streamed : Streamed record) (before : record.report.status = .running)
    (after : report.status ≠ .running) (told : body.status = some report.status.name)
    (kind : body.eventType = "execution_completed" ∧
        (panicIssue ∈ report.errors ↔ panicIssue ∈ record.report.errors) ∨
      body.eventType = "execution_worker_panicked" ∧ panicIssue ∈ report.errors) :
    Streamed (appendEvent ⟨report, record.events, record.cancelRequested⟩ body) := by
  obtain ⟨started, middle, ending, whole, first, between, going, _⟩ := streamed.shape
  obtain rfl := going before
  refine ⟨⟨started, middle, [_], by simp [appendEvent, whole]; rfl, first, between,
    fun running => absurd running after,
    fun _ => ⟨_, rfl, told, kind.imp And.left And.left⟩⟩, ?_, ?_⟩
  · have said := streamed.cancelled
    rcases kind with ⟨type, _⟩ | ⟨type, _⟩
    all_goals simp [appendEvent, type, said]
  · have said := streamed.panicked
    rcases kind with ⟨type, same⟩ | ⟨type, listed⟩
    · simp [appendEvent, type, same, said]
    · simp [appendEvent, type, listed]

/-- At every moment of the process the events of an execution begin with its start and go on with
progress and cancellation; exactly one more tells its end, with the status of the report, and a
cancellation is requested exactly if an event says so. -/
theorem reachable_streamed (reached : Reachable world) :
    ∀ id record, world.record? id = some record → Streamed record :=
  reachable_records reached
    (fun _ _ mode => ⟨⟨_, [], [], rfl, rfl, by simp, fun _ => rfl, fun ended => absurd rfl ended⟩,
      by simp [appendEvent, startedBody], by simp [appendEvent, startedBody, initialReport]⟩)
    (fun _ _ running streamed => streamed_while streamed running running rfl (.inl ⟨rfl, rfl⟩))
    (fun _ result running streamed _ => streamed_end streamed running
      (overallStatus_ne_running _ _) rfl (.inl ⟨rfl, panicIssue_finishSteps result.steps⟩))
    (fun _ running streamed => streamed_end streamed running (by simp [refreshRecipeStatuses]) rfl
      (.inr ⟨rfl, by simp [refreshRecipeStatuses]⟩))
    (fun _ running streamed => streamed_while streamed running running rfl (.inr ⟨rfl, rfl⟩))

theorem reachable_streamed_sample : ∃ record,
    endedWorld.record? (executionName 1) = some record ∧ record.report.status = .succeeded ∧
      Streamed record := by
  obtain ⟨record, found, ended, _⟩ := exists_endedRecord
  exact ⟨record, found, ended, reachable_streamed reachable_endedWorld _ _ found⟩

end

end EmuChef.Session
