import EmuChef.Session.Manager

/-! The reports of the session manager agree with the runs that they report. -/

namespace EmuChef.Session

open Planner Executor Program

section

variable {recipes : List ExecutionRecipeReport} {stepId : String}
  {change : ExecutionStepReport → ExecutionStepReport}

def stepIds (recipes : List ExecutionRecipeReport) : List String := (stepsOf recipes).map (·.stepId)

theorem updateFirst_eq_map {steps : List ExecutionStepReport} (unique : (steps.map (·.stepId)).Nodup) :
    updateFirst (fun step => step.stepId = stepId) change steps =
      steps.map fun step => if step.stepId = stepId then change step else step := by
  induction steps with
  | nil => rfl
  | cons step rest ih =>
      rw [List.map_cons, List.nodup_cons] at unique
      rw [updateFirst, List.map_cons]
      by_cases same : step.stepId = stepId
      · have others : rest.map (fun step => if step.stepId = stepId then change step else step) =
            rest := by
          refine (List.map_congr_left fun other member => ?_).trans (List.map_id rest)
          have apart : other.stepId ≠ stepId := fun met =>
            unique.1 (List.mem_map.mpr ⟨other, member, met.trans same.symm⟩)
          rw [if_neg apart]
          rfl
        simp [same, others]
      · simp [same, ih unique.2]

theorem stepsOf_updateStep (unique : (stepIds recipes).Nodup) :
    stepsOf (updateStep recipes stepId change) =
      (stepsOf recipes).map fun step => if step.stepId = stepId then change step else step := by
  induction recipes with
  | nil => rfl
  | cons recipe rest ih =>
      have split : stepIds (recipe :: rest) = recipe.steps.map (·.stepId) ++ stepIds rest := by
        simp [stepIds, stepsOf]
      rw [split, List.nodup_append] at unique
      obtain ⟨here, later, apart⟩ := unique
      have unfolded : stepsOf (recipe :: rest) = recipe.steps ++ stepsOf rest := by
        simp [stepsOf]
      rw [updateStep, unfolded, List.map_append]
      by_cases held : (recipe.steps.any fun step => step.stepId = stepId) = true
      · rw [if_pos held]
        obtain ⟨found, member, same⟩ := List.any_eq_true.mp held
        have named : found.stepId = stepId := by simpa using same
        have others : (stepsOf rest).map
            (fun step => if step.stepId = stepId then change step else step) = stepsOf rest := by
          refine (List.map_congr_left fun other inside => ?_).trans (List.map_id _)
          have different : other.stepId ≠ stepId := fun met =>
            apart found.stepId (List.mem_map.mpr ⟨found, member, rfl⟩) other.stepId
              (List.mem_map.mpr ⟨other, inside, rfl⟩) (named.trans met.symm)
          rw [if_neg different]
          rfl
        rw [others]
        simp [stepsOf, updateFirst_eq_map here]
      · rw [if_neg held]
        have others : recipe.steps.map
            (fun step => if step.stepId = stepId then change step else step) = recipe.steps := by
          refine (List.map_congr_left fun other inside => ?_).trans (List.map_id _)
          have different : other.stepId ≠ stepId := fun met =>
            held (List.any_eq_true.mpr ⟨other, inside, by simpa using met⟩)
          rw [if_neg different]
          rfl
        rw [others, ← ih later]
        simp [stepsOf]

theorem stepIds_updateStep (unique : (stepIds recipes).Nodup)
    (kept : ∀ step, (change step).stepId = step.stepId) :
    stepIds (updateStep recipes stepId change) = stepIds recipes := by
  rw [stepIds, stepsOf_updateStep unique, List.map_map]
  refine List.map_congr_left fun step _ => ?_
  simp only [Function.comp_apply]
  split
  · exact kept step
  · rfl

theorem stepsOf_map {change : ExecutionRecipeReport → ExecutionRecipeReport}
    (kept : ∀ recipe, (change recipe).steps = recipe.steps) :
    stepsOf (recipes.map change) = stepsOf recipes := by
  simp only [stepsOf, List.flatMap_map, kept]

@[simp] theorem steps_refreshRecipeStatuses (report : ExecutionReport) :
    (refreshRecipeStatuses report).steps = report.steps :=
  stepsOf_map fun _ => rfl

@[simp] theorem steps_applyRecipeWarningStatuses (report : ExecutionReport) :
    (applyRecipeWarningStatuses report).steps = report.steps := by
  refine stepsOf_map fun recipe => ?_
  split
  · rfl
  · rfl

theorem addStepReport_perm (recipes : List ExecutionRecipeReport) (step : ExecutionStep) :
    (stepsOf (addStepReport recipes step)).Perm (pendingStep step :: stepsOf recipes) := by
  induction recipes with
  | nil => exact List.Perm.refl _
  | cons recipe rest ih =>
      rw [addStepReport]
      split
      · simp only [stepsOf, List.flatMap_cons, List.append_assoc]
        exact List.perm_middle
      · have unfolded : ∀ others, stepsOf (recipe :: others) = recipe.steps ++ stepsOf others := by
          simp [stepsOf]
        rw [unfolded, unfolded]
        exact (ih.append_left recipe.steps).trans List.perm_middle

theorem initialReport_perm (executionId : String) (reviewed : ReviewedPlan) (mode : ExecutionMode) :
    (initialReport executionId reviewed mode).steps.Perm (reviewed.plan.steps.map pendingStep) := by
  suffices general : ∀ (steps : List ExecutionStep) (recipes : List ExecutionRecipeReport),
      (stepsOf (steps.foldl addStepReport recipes)).Perm (steps.map pendingStep ++ stepsOf recipes) by
    have whole := general reviewed.plan.steps (reviewed.recipes.map fun id => ⟨id, .pending, []⟩)
    have none : stepsOf (reviewed.recipes.map fun id => ⟨id, .pending, []⟩) = [] := by
      simp [stepsOf, List.flatMap_map]
    rwa [none, List.append_nil] at whole
  intro steps
  induction steps with
  | nil => exact fun recipes => List.Perm.refl _
  | cons step rest ih =>
      intro recipes
      rw [List.foldl_cons, List.map_cons]
      refine (ih (addStepReport recipes step)).trans ?_
      exact ((addStepReport_perm recipes step).append_left _).trans List.perm_middle

end

section

variable {report : ExecutionReport} {record : StepRunRecord}

theorem finishStep_steps (unique : (stepIds report.recipes).Nodup) :
    (finishStep report record).steps = report.steps.map fun step =>
      if step.stepId = record.stepId then { step with outputs := record.outputs } else step := by
  have recipes : (finishStep report record).recipes =
      updateStep report.recipes record.stepId fun step => { step with outputs := record.outputs } := by
    unfold finishStep
    split <;> rfl
  rw [ExecutionReport.steps, recipes, stepsOf_updateStep unique]
  rfl

theorem finishStep_warnings {warning : ExecutionIssue}
    (raised : warning ∈ (finishStep report record).warnings) : warning ∈ report.warnings ∨
      warning.stepId = some record.stepId ∧ record.status = .executed := by
  unfold finishStep at raised
  split at raised
  · exact .inl raised
  · exact .inl raised
  · next executed =>
    simp only [List.mem_append] at raised
    obtain (old | permission) | cleanup := raised
    · exact .inl old
    · obtain ⟨action, _, rfl⟩ := List.mem_map.mp permission
      exact .inr ⟨rfl, executed⟩
    · unfold collectCopyStagingCleanupWarning at cleanup
      simp only at cleanup
      split at cleanup
      · rw [List.mem_singleton.mp cleanup]
        exact .inr ⟨rfl, executed⟩
      · exact nomatch cleanup
  · exact .inl raised
  · exact .inl raised

theorem finishStep_plan : (finishStep report record).reviewedPlan = report.reviewedPlan := by
  unfold finishStep
  split <;> rfl

def shows (report : ExecutionReport) : List (String × StepExecutionStatus) :=
  report.steps.map fun step => (step.stepId, step.status)

theorem stepIds_shows (report : ExecutionReport) :
    stepIds report.recipes = (shows report).map Prod.fst := by
  simp [stepIds, shows, ExecutionReport.steps]

theorem shows_finishStep (unique : (stepIds report.recipes).Nodup) :
    shows (finishStep report record) = shows report := by
  rw [shows, finishStep_steps unique, List.map_map, shows]
  refine List.map_congr_left fun step _ => ?_
  simp only [Function.comp_apply]
  split
  · rfl
  · rfl

theorem finishSteps_facts {records : List StepRunRecord} (unique : (stepIds report.recipes).Nodup) :
    shows (records.foldl finishStep report) = shows report ∧
      ∀ warning ∈ (records.foldl finishStep report).warnings, warning ∈ report.warnings ∨
        ∃ run ∈ records, warning.stepId = some run.stepId ∧ run.status = .executed := by
  induction records generalizing report with
  | nil => exact ⟨rfl, fun _ old => .inl old⟩
  | cons record rest ih =>
      have kept : shows (finishStep report record) = shows report := shows_finishStep unique
      have still : (stepIds (finishStep report record).recipes).Nodup := by
        rwa [stepIds_shows, kept, ← stepIds_shows]
      obtain ⟨statuses, warned⟩ := ih still
      refine ⟨statuses.trans kept, fun warning raised => ?_⟩
      rcases warned warning raised with old | ⟨run, member, facts⟩
      · rcases finishStep_warnings old with older | own
        · exact .inl older
        · exact .inr ⟨record, by simp, own⟩
      · exact .inr ⟨run, by simp [member], facts⟩

end

section

variable {record : ExecutionRecord} {progress : List ExecutionProgressEvent}

def PlanUnique (record : ExecutionRecord) : Prop :=
  (record.report.reviewedPlan.plan.steps.map (·.id)).Nodup

structure Tracks (record : ExecutionRecord) (progress : List ExecutionProgressEvent) : Prop where
  listed : PlanUnique record →
    (stepIds record.report.recipes).Perm (record.report.reviewedPlan.plan.steps.map (·.id))
  statuses : PlanUnique record → ∀ step ∈ record.report.steps,
    step.status = shownStatus progress step.stepId
  announced : ∀ stepId, Announced record stepId ↔ Started progress stepId
  warned : record.report.warnings = []

theorem Tracks.nodup (tracks : Tracks record progress) (unique : PlanUnique record) :
    (stepIds record.report.recipes).Nodup :=
  (tracks.listed unique).nodup_iff.mpr unique

theorem announced_appendEvent {body : EventBody} {stepId : String} :
    Announced (appendEvent record body) stepId ↔
      Announced record stepId ∨ body.eventType = "step_progress" ∧ body.stepId = some stepId := by
  simp only [Announced, appendEvent, List.mem_append, List.mem_singleton]
  constructor
  · rintro ⟨event, old | rfl, kind, named⟩
    · exact .inl ⟨event, old, kind, named⟩
    · exact .inr ⟨kind, named⟩
  · rintro (⟨event, old, kind, named⟩ | ⟨kind, named⟩)
    · exact ⟨event, .inl old, kind, named⟩
    · exact ⟨_, .inr rfl, kind, named⟩

theorem tracks_start (executionId : String) (reviewed : ReviewedPlan) (mode : ExecutionMode) :
    Tracks (appendEvent ⟨initialReport executionId reviewed mode, [], false⟩ (startedBody mode)) []
    where
  listed := by
    intro _
    have listed := (initialReport_perm executionId reviewed mode).map (·.stepId)
    rw [List.map_map] at listed
    exact listed
  statuses := by
    intro _ step member
    obtain ⟨source, _, rfl⟩ := List.mem_map.mp
      ((initialReport_perm executionId reviewed mode).mem_iff.mp member)
    rfl
  announced := by
    intro stepId
    rw [announced_appendEvent]
    simp [Announced, startedBody, Started]
  warned := rfl

theorem Tracks.recordProgress (tracks : Tracks record progress) (event : ExecutionProgressEvent) :
    Tracks (recordProgress record event) (progress ++ [event]) where
  listed := by
    intro unique
    have kept := @stepIds_updateStep record.report.recipes event.stepId
      (fun step => { step with status := progressStepStatus event, message := event.message })
      (tracks.nodup unique) fun _ => rfl
    have steps : stepIds (EmuChef.Session.recordProgress record event).report.recipes =
        stepIds record.report.recipes := by
      rw [← kept]
      exact congrArg (List.map (·.stepId)) (steps_refreshRecipeStatuses _)
    rw [steps]
    exact tracks.listed unique
  statuses := by
    intro unique step member
    have steps : (EmuChef.Session.recordProgress record event).report.steps =
        record.report.steps.map fun step => if step.stepId = event.stepId then
          { step with status := progressStepStatus event, message := event.message } else step :=
      (steps_refreshRecipeStatuses _).trans (stepsOf_updateStep (tracks.nodup unique))
    rw [steps, List.mem_map] at member
    obtain ⟨source, held, rfl⟩ := member
    by_cases same : source.stepId = event.stepId
    · rw [if_pos same]
      change progressStepStatus event = shownStatus (progress ++ [event]) source.stepId
      rw [same]
      exact shownStatus_last.symm
    · rw [if_neg same, tracks.statuses unique source held, shownStatus_append]
      rintro ⟨other, inside, named⟩
      obtain rfl := List.mem_singleton.mp inside
      exact same named.symm
  announced := by
    intro stepId
    rw [EmuChef.Session.recordProgress, announced_appendEvent]
    have old : Announced { record with report := refreshRecipeStatuses { record.report with
        recipes := updateStep record.report.recipes event.stepId fun step =>
          { step with status := progressStepStatus event, message := event.message } } } stepId ↔
        Started progress stepId := tracks.announced stepId
    rw [old]
    simp only [progressBody, Option.some.injEq, true_and, Started, List.mem_append,
      List.mem_singleton]
    constructor
    · rintro (⟨other, inside, named⟩ | named)
      · exact ⟨other, .inl inside, named⟩
      · exact ⟨event, .inr rfl, named⟩
    · rintro ⟨other, inside | rfl, named⟩
      · exact .inl ⟨other, inside, named⟩
      · exact .inr named
  warned := tracks.warned

theorem Tracks.cancel (tracks : Tracks record progress) : Tracks (cancelRecord record) progress := by
  unfold cancelRecord
  split
  · exact tracks
  · refine ⟨tracks.listed, tracks.statuses, fun stepId => ?_, tracks.warned⟩
    rw [announced_appendEvent]
    have old : Announced { record with cancelRequested := true } stepId ↔ Started progress stepId :=
      tracks.announced stepId
    rw [old]
    simp [cancelBody]

theorem stepStatus_ne_running (status : StepRunStatus) : stepStatus status ≠ .running := by
  cases status with
  | executed => simp [stepStatus]
  | skipped => simp [stepStatus]
  | blocked => simp [stepStatus]
  | failed => simp [stepStatus]
  | cancelled => simp [stepStatus]

theorem stepStatus_of_isDone {status : StepRunStatus} (done : IsDone status) :
    stepStatus status = .succeeded ∨ stepStatus status = .skipped := by
  rcases done with rfl | rfl
  · exact .inl rfl
  · exact .inr rfl

theorem overallStatus_ne_running (result : ExecutionRunResult) (hasWarnings : Bool) :
    overallStatus result hasWarnings ≠ .running := by
  unfold overallStatus
  split
  · simp
  · split
    · simp
    · split
      · simp
      · simp

theorem success_of_overallStatus {result : ExecutionRunResult} {hasWarnings : Bool}
    (succeeded : overallStatus result hasWarnings = .succeeded ∨
      overallStatus result hasWarnings = .succeededWithWarnings) : result.success = true := by
  unfold overallStatus at succeeded
  by_cases cancelled : result.cancelled = true
  · simp [cancelled] at succeeded
  · by_cases success : result.success = true
    · exact success
    · simp [cancelled, success] at succeeded

theorem shows_finishAttempt {result : ExecutionRunResult}
    (unique : (stepIds record.report.recipes).Nodup) :
    shows (finishAttempt record result).report = shows record.report := by
  have statuses : shows (result.steps.foldl finishStep record.report) = shows record.report :=
    (finishSteps_facts unique).1
  rw [← statuses]
  unfold shows finishAttempt appendEvent
  exact congrArg (List.map fun step => (step.stepId, step.status))
    ((steps_applyRecipeWarningStatuses _).trans (steps_refreshRecipeStatuses _))

/-- A report that tracked the progress of a run ends as a report of that run. -/
theorem Tracks.finish {plan : ExecutionPlan} {events : List WorkerEvent} {result : ExecutionRunResult}
    (tracks : Tracks record (notes events)) (own : record.report.reviewedPlan.plan = plan)
    (unique : (plan.steps.map (·.id)).Nodup) (ran : Runs (runReporting plan) events result) :
    ReportsRun (finishAttempt record result) result := by
  have planUnique : PlanUnique record := by
    rw [PlanUnique, own]
    exact unique
  obtain ⟨recorded, told⟩ := told_runReporting unique ran
  have nodup := tracks.nodup planUnique
  have kept : shows (finishAttempt record result).report = shows record.report :=
    shows_finishAttempt nodup
  have statuses : ∀ step ∈ (finishAttempt record result).report.steps,
      step.status = shownStatus (notes events) step.stepId := by
    intro step member
    have shown : (step.stepId, step.status) ∈ shows record.report := by
      rw [← kept]
      exact List.mem_map.mpr ⟨step, member, rfl⟩
    obtain ⟨source, held, same⟩ := List.mem_map.mp shown
    obtain ⟨sameId, sameStatus⟩ := Prod.mk.inj same
    rw [← sameId, ← sameStatus]
    exact tracks.statuses planUnique source held
  have ids : (stepIds (finishAttempt record result).report.recipes).Perm (plan.steps.map (·.id)) := by
    rw [stepIds_shows, kept, ← stepIds_shows, ← own]
    exact tracks.listed planUnique
  have announced : ∀ stepId, Announced (finishAttempt record result) stepId ↔
      Started (notes events) stepId := by
    intro stepId
    rw [finishAttempt, announced_appendEvent, ← tracks.announced]
    simp [completedBody, Announced]
  have settled : ∀ step ∈ (finishAttempt record result).report.steps,
      Started (notes events) step.stepId → ∃ run ∈ result.steps,
        run.stepId = step.stepId ∧ step.status = stepStatus run.status := by
    intro step member started
    obtain ⟨event, noted, named⟩ := started
    obtain ⟨run, held, same⟩ := told.recorded event noted
    refine ⟨run, held, same.trans named, ?_⟩
    rw [statuses step member, ← named, ← same]
    exact told.agrees run held ⟨event, noted, same.symm⟩
  refine ⟨?_, ?_, ?_, ?_, ?_, ?_, ?_⟩
  · exact overallStatus_ne_running _ _
  · intro run member
    have inPlan : run.stepId ∈ plan.steps.map (·.id) :=
      recorded.subset (List.mem_map.mpr ⟨run, member, rfl⟩)
    exact List.mem_map.mp (ids.mem_iff.mpr inPlan)
  · intro step member run held same known
    rw [statuses step member, same]
    refine told.agrees run held ?_
    rw [← same]
    exact (announced _).mp known
  · intro step member unknown
    rw [statuses step member]
    exact shownStatus_of_not_started fun started => unknown ((announced _).mpr started)
  · intro step member
    by_cases started : Started (notes events) step.stepId
    · obtain ⟨run, _, _, same⟩ := settled step member started
      rw [same]
      exact stepStatus_ne_running run.status
    · rw [statuses step member, shownStatus_of_not_started started]
      simp
  · intro succeeded step member
    have success : result.success = true := success_of_overallStatus succeeded
    obtain ⟨complete, done⟩ := complete_of_success (reports_runReporting events result ran) success
    have whole : result.steps.map (·.stepId) = plan.steps.map (·.id) :=
      recorded.eq_of_length (by simpa using complete)
    have inPlan : step.stepId ∈ result.steps.map (·.stepId) := by
      rw [whole]
      exact ids.mem_iff.mp (List.mem_map.mpr ⟨step, member, rfl⟩)
    obtain ⟨run, held, same⟩ := List.mem_map.mp inPlan
    have started : Started (notes events) run.stepId := told.done run held (done run held)
    rw [statuses step member, ← same, told.agrees run held started]
    exact stepStatus_of_isDone (done run held)
  · intro warning raised
    rcases (finishSteps_facts nodup).2 warning raised with old | facts
    · rw [tracks.warned] at old
      exact nomatch old
    · exact facts

end

end EmuChef.Session
