import EmuChef.Adb.Session
import EmuChef.App.RealSnapshot
import EmuChef.Session.IssueLaw

/-! Whether the snapshot of a stopped run denies device changes that the run may have made. -/

namespace EmuChef.App

open EmuChef.Session EmuChef.Planner EmuChef.Executor EmuChef.Program
open EmuChef.Adb (DeviceCommandEffect)

structure Observed where
  event : WorkerEvent
  commands : List DeviceCommandEffect

def Mutated (observed : List Observed) : Prop := ∃ entry ∈ observed, .mutating ∈ entry.commands

def worksOnDevice : WorkerEvent → Bool
  | ⟨.operation operation, _⟩ => isStepWork operation
  | ⟨.report _, _⟩ => false

inductive RecordUpdate where
  | progress (event : ExecutionProgressEvent)
  | cancelRequest

def RecordUpdate.apply (record : ExecutionRecord) : RecordUpdate → ExecutionRecord
  | .progress event => recordProgress record event
  | .cancelRequest => cancelRecord record

def RecordUpdate.progress? : RecordUpdate → Option ExecutionProgressEvent
  | .progress event => some event
  | .cancelRequest => none

/-- A real run of a reviewed plan, with the commands it issued and the updates of its record. Only
the work of a step issues mutating commands. -/
structure ObservedRun where
  executionId : String
  reviewed : ReviewedPlan
  mapping : ExecutionMapping
  observed : List Observed
  result : ExecutionRunResult
  updates : List RecordUpdate
  ran : Runs (runReporting reviewed.plan) (observed.map (·.event)) result
  reported : updates.filterMap RecordUpdate.progress? = notes (observed.map (·.event))
  issued : ∀ entry ∈ observed, .mutating ∈ entry.commands → worksOnDevice entry.event = true
  answered : ∀ event ∈ operations (observed.map (·.event)),
    Answered (Mutated observed) event.operation event.response
  stepIds : (reviewed.plan.steps.map (·.id)).Nodup
  recipeIds : reviewed.recipes.Nodup

def ObservedRun.record (run : ObservedRun) : ExecutionRecord :=
  run.updates.foldl RecordUpdate.apply
    (appendEvent ⟨initialReport run.executionId run.reviewed .real, [], false⟩ (startedBody .real))

def ObservedRun.report (run : ObservedRun) : ExecutionReport :=
  (finishAttempt run.record run.result).report

/-- What the app shows of a run: its retained report, or that its runtime was lost after some events,
where the mapping may still be held. -/
inductive Shown where
  | finished (launchActionPresent : Bool)
  | lost (events : Nat) (retained : Bool)

def Shown.snapshot (tables : CaseTables) (run : ObservedRun) : Shown → RealSnapshot
  | .finished launchActionPresent =>
    retainedRealExecutionSnapshot tables run.mapping (viewOf run.report) launchActionPresent
  | .lost _ retained =>
    lostRealExecutionSnapshot tables (if retained then some run.mapping else none)

def Shown.observed (run : ObservedRun) : Shown → List Observed
  | .finished _ => run.observed
  | .lost events _ => run.observed.take events

def isCheck (record : StepRunRecord) : Bool :=
  record.failureKind.any fun kind => isIdentityKind kind || isRootKind kind

def isEarlyCheck (record : StepRunRecord) : Bool :=
  record.failureKind.any fun kind =>
    isRootKind kind || kind = .deviceIdentityChanged .preOperation ||
      kind = .deviceIdentityUnverified .preOperation

def OnlyEarlyChecks (result : ExecutionRunResult) : Prop :=
  ∀ record ∈ result.steps, record.status ≠ .executed ∧
    (record.status = .failed → isEarlyCheck record = true)

/-- A stopped run that issued a mutating command is shown as one that may have changed the device,
and one that failed early checks only is not. -/
structure Honest (tables : CaseTables) (run : ObservedRun) (shown : Shown) : Prop where
  admitted : Mutated (shown.observed run) →
    ((shown.snapshot tables run).status = "failed" ∨
      (shown.snapshot tables run).status = "cancelled") →
    (shown.snapshot tables run).completion.partialChangesPossible = true ∧
      ((shown.snapshot tables run).terminalPolicy.any fun policy =>
        policy.partialChangePresentation = "none") = false
  spared : ∀ launchActionPresent, shown = .finished launchActionPresent → ¬Mutated run.observed →
    OnlyEarlyChecks run.result →
    (shown.snapshot tables run).completion.partialChangesPossible = false

/-- A record from which the app learns of work: a completed step, a failed step that failed no
check, or a failed check that tells of the work before it. -/
def Tells (serial : String) (record : StepRunRecord) : Prop :=
  (record.status = .executed ∧ ¬Hides serial "succeeded") ∨
  (record.status = .failed ∧ isCheck record = false ∧ ¬Hides serial "failed") ∨
  (record.status = .failed ∧ record.failureKind.any isIdentityKind = true ∧
    record.message = some identityMarker) ∨
  (record.status = .failed ∧ record.failureKind.any isRootKind = true ∧
    record.message = some rootMarker)

/-- The changes of the run are hidden: no record of a stopped run tells of work, or the runtime was
lost while the mapping is still held. -/
def Hidden (run : ObservedRun) (shown : Shown) : Prop :=
  Mutated (shown.observed run) ∧
    ((∃ launchActionPresent, shown = .finished launchActionPresent ∧
      (run.result.cancelled = true ∨ run.result.success = false) ∧
      ∀ record ∈ run.result.steps, ¬Tells (exactSerial run.mapping) record) ∨
    ∃ events, shown = .lost events true)

section

theorem textCode_unchecked (message : Option String) :
    isIdentityCode (issueCode .failed message none) = false ∧
      isRootCode (issueCode .failed message none) = false := by
  have codes : ∀ code ∈ ["artifact_tls_verification_failed", "artifact_http_status",
      "artifact_transport_failed", "artifact_digest_mismatch", "artifact_size_mismatch",
      "unknown_artifact_ref"], isIdentityCode code = false ∧ isRootCode code = false := by decide
  unfold issueCode
  rw [if_neg (by decide)]
  dsimp only
  split
  · next code found => exact codes code (List.mem_of_find?_eq_some found)
  · split
    · decide
    · split
      · decide
      · split
        · decide
        · decide

theorem issueCode_checks (message : Option String) (kind : Option StepFailureKind) :
    isIdentityCode (issueCode .failed message kind) = kind.any isIdentityKind ∧
      isRootCode (issueCode .failed message kind) = kind.any isRootKind := by
  cases kind with
  | none => exact textCode_unchecked message
  | some kind =>
    cases kind with
    | operationCommandFailed | operationProcessFailed | rootDenied | rootUnavailable
    | installSigningRejected | installVersionRejected | installRejected | operationFailed =>
      exact textCode_unchecked message
    | _ => simp [issueCode, isIdentityCode, isRootCode, isIdentityKind, isRootKind]

theorem blocked_unchecked (message : Option String) (kind : Option StepFailureKind) :
    isIdentityCode (issueCode .blocked message kind) = false ∧
      isRootCode (issueCode .blocked message kind) = false := by
  simp [issueCode, isIdentityCode, isRootCode]

theorem permissionWarning_unchecked (recipeId : Option String) (stepId : String) (action : Json) :
    isIdentityCode (permissionWarning recipeId stepId action).code = false ∧
      isRootCode (permissionWarning recipeId stepId action).code = false := by
  unfold permissionWarning
  dsimp only
  split
  · decide
  · decide

theorem finishStep_warnings_unchecked {report : ExecutionReport} {record : StepRunRecord}
    (before : ∀ warning ∈ report.warnings,
      isIdentityCode warning.code = false ∧ isRootCode warning.code = false) :
    ∀ warning ∈ (finishStep report record).warnings,
      isIdentityCode warning.code = false ∧ isRootCode warning.code = false := by
  intro warning raised
  unfold finishStep at raised
  split at raised
  · exact before warning raised
  · exact before warning raised
  · simp only [List.mem_append] at raised
    rcases raised with (old | permission) | cleanup
    · exact before warning old
    · obtain ⟨action, _, rfl⟩ := List.mem_map.mp permission
      exact permissionWarning_unchecked _ _ _
    · unfold collectCopyStagingCleanupWarning at cleanup
      dsimp only at cleanup
      split at cleanup
      · rw [List.mem_singleton.mp cleanup]
        change isIdentityCode "copy_staging_cleanup_pending" = false ∧
          isRootCode "copy_staging_cleanup_pending" = false
        decide
      · exact absurd cleanup List.not_mem_nil
  · exact before warning raised
  · exact before warning raised

theorem finishSteps_warnings_unchecked {records : List StepRunRecord} {report : ExecutionReport}
    (before : ∀ warning ∈ report.warnings,
      isIdentityCode warning.code = false ∧ isRootCode warning.code = false) :
    ∀ warning ∈ (records.foldl finishStep report).warnings,
      isIdentityCode warning.code = false ∧ isRootCode warning.code = false := by
  induction records generalizing report with
  | nil => exact before
  | cons record rest ih => exact ih (finishStep_warnings_unchecked before)

def issueOf (raised : String × String) : ReportedIssue := ⟨raised.1, raised.2⟩

variable {counts : String → Bool}

theorem countP_raised {records : List StepRunRecord} {kinds : StepFailureKind → Bool}
    (failed : ∀ message kind, counts (issueCode .failed message kind) = kind.any kinds)
    (blocked : ∀ message kind, counts (issueCode .blocked message kind) = false) :
    ((records.filterMap raisedError).map issueOf).countP (fun issue => counts issue.code) =
      records.countP fun record => record.status = .failed && record.failureKind.any kinds := by
  induction records with
  | nil => rfl
  | cons record rest ih =>
    rw [List.filterMap_cons, List.countP_cons, ← ih]
    cases status : record.status with
    | failed => simp [raisedError, status, issueOf, List.countP_cons, failed]
    | blocked => simp [raisedError, status, issueOf, blocked]
    | executed => simp [raisedError, status]
    | skipped => simp [raisedError, status]
    | cancelled => simp [raisedError, status]

theorem any_raised {records : List StepRunRecord} {kinds : StepFailureKind → Bool} {marker : String}
    (failed : ∀ message kind, counts (issueCode .failed message kind) = kind.any kinds)
    (blocked : ∀ message kind, counts (issueCode .blocked message kind) = false)
    (own : marker ≠ "Required execution work did not complete.") :
    (((records.filterMap raisedError).map issueOf).any fun issue =>
        counts issue.code && issue.message = marker) = true ↔
      ∃ record ∈ records, record.status = .failed ∧ record.failureKind.any kinds = true ∧
        record.message = some marker := by
  induction records with
  | nil => simp
  | cons record rest ih =>
    have here : ((raisedError record).toList.map issueOf).any (fun issue =>
        counts issue.code && issue.message = marker) = true ↔
        record.status = .failed ∧ record.failureKind.any kinds = true ∧
          record.message = some marker := by
      cases status : record.status with
      | failed =>
        cases message : record.message with
        | none => simp [raisedError, status, issueOf, failed, message, own.symm]
        | some text => simp [raisedError, status, issueOf, failed, message]
      | blocked => simp [raisedError, status, issueOf, blocked]
      | executed => simp [raisedError, status]
      | skipped => simp [raisedError, status]
      | cancelled => simp [raisedError, status]
    have split : (record :: rest).filterMap raisedError =
        (raisedError record).toList ++ rest.filterMap raisedError := by
      rw [List.filterMap_cons]
      cases raisedError record with
      | none => rfl
      | some raised => rfl
    rw [split, List.map_append, List.any_append, Bool.or_eq_true, here, ih]
    simp

/-- The issues of a report are the errors of its records; its warnings are of no check. -/
structure Raises (report : ExecutionReport) (records : List StepRunRecord) : Prop where
  errors : report.errors.map (fun issue => (issue.code, issue.message)) =
    records.filterMap raisedError
  warnings : ∀ warning ∈ report.warnings,
    isIdentityCode warning.code = false ∧ isRootCode warning.code = false

variable {report : ExecutionReport} {records : List StepRunRecord}

theorem Raises.view_errors (raises : Raises report records) :
    (viewOf report).errors = (records.filterMap raisedError).map issueOf := by
  rw [← raises.errors, List.map_map]
  rfl

theorem Raises.countP_issues (raises : Raises report records)
    (none : ∀ warning ∈ report.warnings, counts warning.code = false) :
    ((viewOf report).errors ++ (viewOf report).warnings).countP (fun issue => counts issue.code) =
      ((records.filterMap raisedError).map issueOf).countP fun issue => counts issue.code := by
  have quiet : (viewOf report).warnings.countP (fun issue => counts issue.code) = 0 := by
    rw [List.countP_eq_zero]
    intro issue member
    obtain ⟨warning, raised, rfl⟩ := List.mem_map.mp member
    simpa [viewIssue] using none warning raised
  rw [List.countP_append, quiet, Nat.add_zero, raises.view_errors]

theorem Raises.any_issues (raises : Raises report records) {marker : String}
    (none : ∀ warning ∈ report.warnings, counts warning.code = false) :
    ((viewOf report).errors ++ (viewOf report).warnings).any
        (fun issue => counts issue.code && issue.message = marker) =
      ((records.filterMap raisedError).map issueOf).any
        fun issue => counts issue.code && issue.message = marker := by
  have quiet : (viewOf report).warnings.any
      (fun issue => counts issue.code && issue.message = marker) = false := by
    rw [List.any_eq_false]
    intro issue member
    obtain ⟨warning, raised, rfl⟩ := List.mem_map.mp member
    simp [viewIssue, none warning raised]
  rw [List.any_append, quiet, Bool.or_false, raises.view_errors]

theorem Raises.facts (raises : Raises report records) :
    (realProjectionFacts (viewOf report)).identityFailures = records.countP (fun record =>
        record.status = .failed && record.failureKind.any isIdentityKind) ∧
    (realProjectionFacts (viewOf report)).rootFailures = records.countP (fun record =>
        record.status = .failed && record.failureKind.any isRootKind) ∧
    ((realProjectionFacts (viewOf report)).postOperationMarker = true ↔ ∃ record ∈ records,
      record.status = .failed ∧ record.failureKind.any isIdentityKind = true ∧
        record.message = some identityMarker) ∧
    ((realProjectionFacts (viewOf report)).rootMarker = true ↔ ∃ record ∈ records,
      record.status = .failed ∧ record.failureKind.any isRootKind = true ∧
        record.message = some rootMarker) := by
  have identity := fun warning raised => (raises.warnings warning raised).1
  have root := fun warning raised => (raises.warnings warning raised).2
  refine ⟨?_, ?_, ?_, ?_⟩
  · exact (raises.countP_issues identity).trans (countP_raised
      (fun message kind => (issueCode_checks message kind).1)
      fun message kind => (blocked_unchecked message kind).1)
  · exact (raises.countP_issues root).trans (countP_raised
      (fun message kind => (issueCode_checks message kind).2)
      fun message kind => (blocked_unchecked message kind).2)
  · exact (iff_of_eq (congrArg (· = true) (raises.any_issues identity))).trans (any_raised
      (fun message kind => (issueCode_checks message kind).1)
      (fun message kind => (blocked_unchecked message kind).1) (by decide +kernel))
  · exact (iff_of_eq (congrArg (· = true) (raises.any_issues root))).trans (any_raised
      (fun message kind => (issueCode_checks message kind).2)
      (fun message kind => (blocked_unchecked message kind).2) (by decide +kernel))

end

section

def recipeIds (recipes : List ExecutionRecipeReport) : List String := recipes.map (·.recipeId)

theorem recipeIds_addStepReport (recipes : List ExecutionRecipeReport) (step : ExecutionStep) :
    recipeIds (addStepReport recipes step) =
      if step.recipeRef ∈ recipeIds recipes then recipeIds recipes
      else recipeIds recipes ++ [step.recipeRef] := by
  induction recipes with
  | nil => rfl
  | cons recipe rest ih =>
    have unfolded : recipeIds (recipe :: rest) = recipe.recipeId :: recipeIds rest := rfl
    rw [addStepReport, unfolded]
    by_cases same : recipe.recipeId = step.recipeRef
    · rw [if_pos same, if_pos (by rw [same]; exact List.mem_cons_self)]
      rfl
    · rw [if_neg same]
      change recipe.recipeId :: recipeIds (addStepReport rest step) = _
      rw [ih]
      by_cases listed : step.recipeRef ∈ recipeIds rest
      · rw [if_pos listed, if_pos (List.mem_cons_of_mem _ listed)]
      · have fresh : step.recipeRef ∉ recipe.recipeId :: recipeIds rest := fun member =>
          (List.mem_cons.mp member).elim (fun met => same met.symm) listed
        rw [if_neg listed, if_neg fresh, List.cons_append]

theorem recipeIds_initialReport (executionId : String) {reviewed : ReviewedPlan}
    (mode : ExecutionMode) (distinct : reviewed.recipes.Nodup) :
    (recipeIds (initialReport executionId reviewed mode).recipes).Nodup := by
  suffices general : ∀ (steps : List ExecutionStep) (recipes : List ExecutionRecipeReport),
      (recipeIds recipes).Nodup → (recipeIds (steps.foldl addStepReport recipes)).Nodup by
    refine general reviewed.plan.steps _ ?_
    simpa [recipeIds, Function.comp_def] using distinct
  intro steps
  induction steps with
  | nil => exact fun recipes unique => unique
  | cons step rest ih =>
    intro recipes unique
    refine ih _ ?_
    rw [recipeIds_addStepReport]
    split
    · exact unique
    · next fresh =>
      refine List.Nodup.append unique (List.nodup_singleton _) fun id listed last => ?_
      rw [List.mem_singleton.mp last] at listed
      exact fresh listed

theorem recipeIds_updateStep (recipes : List ExecutionRecipeReport) (stepId : String)
    (change : ExecutionStepReport → ExecutionStepReport) :
    recipeIds (updateStep recipes stepId change) = recipeIds recipes := by
  induction recipes with
  | nil => rfl
  | cons recipe rest ih =>
    rw [updateStep]
    split
    · rfl
    · exact congrArg (recipe.recipeId :: ·) ih

theorem recipeIds_map {change : ExecutionRecipeReport → ExecutionRecipeReport}
    (kept : ∀ recipe, (change recipe).recipeId = recipe.recipeId)
    (recipes : List ExecutionRecipeReport) :
    recipeIds (recipes.map change) = recipeIds recipes := by
  rw [recipeIds, List.map_map]
  exact List.map_congr_left fun recipe _ => kept recipe

theorem recipeIds_refreshRecipeStatuses (report : ExecutionReport) :
    recipeIds (refreshRecipeStatuses report).recipes = recipeIds report.recipes := by
  refine recipeIds_map (fun recipe => ?_) _
  rfl

theorem recipeIds_applyRecipeWarningStatuses (report : ExecutionReport) :
    recipeIds (applyRecipeWarningStatuses report).recipes = recipeIds report.recipes := by
  refine recipeIds_map (fun recipe => ?_) _
  split
  · rfl
  · rfl

theorem recipeIds_finishStep (report : ExecutionReport) (record : StepRunRecord) :
    recipeIds (finishStep report record).recipes = recipeIds report.recipes := by
  have kept := recipeIds_updateStep report.recipes record.stepId
    fun step => { step with outputs := record.outputs }
  unfold finishStep
  split
  · exact kept
  · exact kept
  · exact kept
  · exact kept
  · exact kept

theorem recipeIds_finishSteps (records : List StepRunRecord) (report : ExecutionReport) :
    recipeIds (records.foldl finishStep report).recipes = recipeIds report.recipes := by
  induction records generalizing report with
  | nil => rfl
  | cons record rest ih => exact (ih _).trans (recipeIds_finishStep report record)

/-- The record of a running execution: it follows the progress and has raised no issue yet. -/
structure Running (reviewed : ReviewedPlan) (record : ExecutionRecord)
    (progress : List ExecutionProgressEvent) : Prop where
  tracks : Tracks record progress
  own : record.report.reviewedPlan = reviewed
  distinct : (recipeIds record.report.recipes).Nodup
  quiet : record.report.errors = []

theorem running_start (executionId : String) {reviewed : ReviewedPlan}
    (distinct : reviewed.recipes.Nodup) :
    Running reviewed
      (appendEvent ⟨initialReport executionId reviewed .real, [], false⟩ (startedBody .real)) [] where
  tracks := tracks_start executionId reviewed .real
  own := rfl
  distinct := recipeIds_initialReport executionId .real distinct
  quiet := rfl

variable {reviewed : ReviewedPlan} {record : ExecutionRecord}
  {progress : List ExecutionProgressEvent}

theorem Running.apply (running : Running reviewed record progress) (update : RecordUpdate) :
    Running reviewed (update.apply record) (progress ++ update.progress?.toList) := by
  cases update with
  | progress event =>
    refine ⟨running.tracks.recordProgress event, running.own, ?_, running.quiet⟩
    have kept : recipeIds (recordProgress record event).report.recipes =
        recipeIds record.report.recipes :=
      (recipeIds_refreshRecipeStatuses _).trans (recipeIds_updateStep _ _ _)
    change (recipeIds (recordProgress record event).report.recipes).Nodup
    rw [kept]
    exact running.distinct
  | cancelRequest =>
    have kept : (cancelRecord record).report.reviewedPlan = record.report.reviewedPlan ∧
        (cancelRecord record).report.recipes = record.report.recipes ∧
        (cancelRecord record).report.errors = record.report.errors := by
      unfold cancelRecord
      split
      · exact ⟨rfl, rfl, rfl⟩
      · exact ⟨rfl, rfl, rfl⟩
    rw [RecordUpdate.progress?, Option.toList_none, List.append_nil, RecordUpdate.apply]
    refine ⟨running.tracks.cancel, ?_, ?_, ?_⟩
    · rw [kept.1]
      exact running.own
    · rw [kept.2.1]
      exact running.distinct
    · rw [kept.2.2]
      exact running.quiet

theorem Running.foldl (running : Running reviewed record progress) (updates : List RecordUpdate) :
    Running reviewed (updates.foldl RecordUpdate.apply record)
      (progress ++ updates.filterMap RecordUpdate.progress?) := by
  induction updates generalizing record progress with
  | nil => simpa using running
  | cons update rest ih =>
    have later := ih (running.apply update)
    have joined : progress ++ (update :: rest).filterMap RecordUpdate.progress? =
        progress ++ update.progress?.toList ++ rest.filterMap RecordUpdate.progress? := by
      rw [List.filterMap_cons, List.append_assoc]
      cases update.progress? with
      | none => rfl
      | some event => rfl
    rw [joined]
    exact later

theorem Running.raises (running : Running reviewed record progress) (result : ExecutionRunResult) :
    Raises (finishAttempt record result).report result.steps where
  errors := by
    have pairs := @finishSteps_errors result.steps record.report
    rw [running.quiet, List.map_nil, List.nil_append] at pairs
    exact pairs
  warnings := by
    refine @finishSteps_warnings_unchecked result.steps record.report fun warning raised => ?_
    rw [running.tracks.warned] at raised
    exact absurd raised List.not_mem_nil

theorem Running.distinct_view (running : Running reviewed record progress)
    (result : ExecutionRunResult) :
    ((viewOf (finishAttempt record result).report).recipes.map (·.recipeId)).Nodup := by
  have ids : (viewOf (finishAttempt record result).report).recipes.map (·.recipeId) =
      recipeIds record.report.recipes := by
    have viewed : (viewOf (finishAttempt record result).report).recipes.map (·.recipeId) =
        recipeIds (finishAttempt record result).report.recipes := by
      simp [viewOf, viewRecipe, recipeIds, Function.comp_def]
    rw [viewed]
    exact (recipeIds_applyRecipeWarningStatuses _).trans
      ((recipeIds_refreshRecipeStatuses _).trans (recipeIds_finishSteps result.steps record.report))
  rw [ids]
  exact running.distinct

end

section

variable {tables : CaseTables} {run : ObservedRun}

theorem ObservedRun.running (run : ObservedRun) :
    Running run.reviewed run.record (notes (run.observed.map (·.event))) := by
  have followed := (running_start run.executionId run.recipeIds).foldl run.updates
  rw [run.reported] at followed
  exact followed

theorem ObservedRun.shows_report (run : ObservedRun) : shows run.report = shows run.record.report := by
  refine shows_finishAttempt (run.running.tracks.nodup ?_)
  rw [PlanUnique, run.running.own]
  exact run.stepIds

theorem ObservedRun.steps_report (run : ObservedRun) :
    (run.report.steps.map (·.stepId)).Perm (run.reviewed.plan.steps.map (·.id)) ∧
      ∀ step ∈ run.report.steps,
        step.status = shownStatus (notes (run.observed.map (·.event))) step.stepId := by
  have unique : PlanUnique run.record := by
    rw [PlanUnique, run.running.own]
    exact run.stepIds
  constructor
  · have listed := run.running.tracks.listed unique
    rw [stepIds_shows, ← run.shows_report, ← stepIds_shows, run.running.own] at listed
    exact listed
  · intro step member
    have shown : (step.stepId, step.status) ∈ shows run.report := List.mem_map.mpr ⟨step, member, rfl⟩
    rw [run.shows_report] at shown
    obtain ⟨source, held, same⟩ := List.mem_map.mp shown
    obtain ⟨named, status⟩ := Prod.mk.inj same
    rw [← status, ← named]
    exact run.running.tracks.statuses unique source held

theorem reportedSteps_viewOf (report : ExecutionReport) :
    reportedSteps (viewOf report) = report.steps.map fun step => stepStatusText step.status := by
  simp [reportedSteps, viewOf, viewRecipe, ExecutionReport.steps, EmuChef.Session.stepsOf,
    List.flatMap_map, List.map_flatMap]

theorem stepStatusText_injective {first second : StepExecutionStatus}
    (same : stepStatusText first = stepStatusText second) : first = second := by
  revert same
  cases first <;> cases second <;> decide

theorem ObservedRun.count_steps (run : ObservedRun) {status : StepRunStatus}
    (started : ∀ record ∈ run.result.steps, record.status = status →
      Started (notes (run.observed.map (·.event))) record.stepId)
    (shown : stepStatus status ≠ .pending) :
    (reportedSteps (viewOf run.report)).count (stepStatusText (stepStatus status)) =
      run.result.steps.countP fun record => record.status = status := by
  obtain ⟨recorded, told⟩ := told_runReporting run.stepIds run.ran
  obtain ⟨listed, statuses⟩ := run.steps_report
  rw [← countP_status run.stepIds listed recorded told statuses started shown,
    reportedSteps_viewOf, List.count, List.countP_map]
  refine List.countP_congr fun step _ => ?_
  simp only [Function.comp_apply, beq_iff_eq, decide_eq_true_eq]
  exact ⟨fun same => stepStatusText_injective same, fun same => congrArg stepStatusText same⟩

theorem checks_apart (kind : Option StepFailureKind) :
    (kind.any isIdentityKind && kind.any isRootKind) = false := by
  cases kind with
  | none => rfl
  | some kind => cases kind <;> rfl

theorem isCheck_eq (record : StepRunRecord) : isCheck record =
    (record.failureKind.any isIdentityKind || record.failureKind.any isRootKind) := by
  unfold isCheck
  cases record.failureKind with
  | none => rfl
  | some kind => rfl

theorem countP_failed (records : List StepRunRecord) :
    records.countP (fun record => record.status = .failed) =
      records.countP (fun record =>
        record.status = .failed && record.failureKind.any isIdentityKind) +
      records.countP (fun record => record.status = .failed && record.failureKind.any isRootKind) +
      records.countP fun record => record.status = .failed && !isCheck record := by
  have one : ∀ failed identity root : Bool, (identity && root) = false →
      (if failed = true then 1 else 0) = (if (failed && identity) = true then 1 else 0) +
        (if (failed && root) = true then 1 else 0) +
        (if (failed && !(identity || root)) = true then 1 else 0) := by decide
  induction records with
  | nil => rfl
  | cons record rest ih =>
    have here := one (decide (record.status = .failed)) _ _ (checks_apart record.failureKind)
    rw [← isCheck_eq] at here
    simp only [List.countP_cons, ih]
    omega

theorem ObservedRun.showsWork_iff (run : ObservedRun)
    (started : FailedStarted run.result.steps (notes (run.observed.map (·.event)))) :
    ShowsWork (exactSerial run.mapping) (viewOf run.report) ↔
      ∃ record ∈ run.result.steps, Tells (exactSerial run.mapping) record := by
  obtain ⟨recorded, told⟩ := told_runReporting run.stepIds run.ran
  have completed : (reportedSteps (viewOf run.report)).count "succeeded" =
      run.result.steps.countP fun record => record.status = .executed :=
    @ObservedRun.count_steps run .executed
      (fun record held executed => told.done record held (.inl executed)) (by decide)
  have failed : (reportedSteps (viewOf run.report)).count "failed" =
      run.result.steps.countP fun record => record.status = .failed :=
    @ObservedRun.count_steps run .failed started (by decide)
  obtain ⟨identities, roots, identityMarked, rootMarked⟩ := (run.running.raises run.result).facts
  have unaccounted : (realProjectionFacts (viewOf run.report)).identityFailures +
      (realProjectionFacts (viewOf run.report)).rootFailures <
        (reportedSteps (viewOf run.report)).count "failed" ↔
      ∃ record ∈ run.result.steps, record.status = .failed ∧ isCheck record = false := by
    rw [failed, countP_failed, ← identities, ← roots]
    refine Nat.lt_add_right_iff_pos.trans (List.countP_pos_iff.trans ?_)
    simp
  rw [ShowsWork, completed, unaccounted, List.countP_pos_iff]
  constructor
  · rintro (⟨shown, record, member, executed⟩ | ⟨shown, record, member, status, plain⟩ | marked | marked)
    · exact ⟨record, member, .inl ⟨by simpa using executed, shown⟩⟩
    · exact ⟨record, member, .inr (.inl ⟨status, plain, shown⟩)⟩
    · obtain ⟨record, member, facts⟩ := identityMarked.mp marked
      exact ⟨record, member, .inr (.inr (.inl facts))⟩
    · obtain ⟨record, member, facts⟩ := rootMarked.mp marked
      exact ⟨record, member, .inr (.inr (.inr facts))⟩
  · rintro ⟨record, member, ⟨executed, shown⟩ | ⟨status, plain, shown⟩ | facts | facts⟩
    · exact .inl ⟨shown, record, member, by simpa using executed⟩
    · exact .inr (.inl ⟨shown, record, member, status, plain⟩)
    · exact .inr (.inr (.inl (identityMarked.mpr ⟨record, member, facts⟩)))
    · exact .inr (.inr (.inr (rootMarked.mpr ⟨record, member, facts⟩)))

theorem ObservedRun.blamed (run : ObservedRun) : run.result.Blamed (Mutated run.observed) :=
  trusting_runWithProgressAndCancel.runs (reports_runReporting _ _ run.ran) run.answered

theorem ObservedRun.failure_of_kind (run : ObservedRun) {record : StepRunRecord}
    (member : record ∈ run.result.steps) {kinds : StepFailureKind → Bool}
    (named : record.failureKind.any kinds = true) :
    ∃ kind failure, record.failureKind = some kind ∧ kinds kind = true ∧
      StepFails (Mutated run.observed) failure ∧ failure.failureKind = some kind ∧
        record.message = some failure.message := by
  obtain ⟨kind, kinded, holds⟩ := (Option.any_eq_true _ _).mp named
  obtain ⟨failure, fails, own, said⟩ := run.blamed record member (by simp [kinded])
  exact ⟨kind, failure, kinded, holds, fails, own.trans kinded, said⟩

theorem ObservedRun.not_tells (run : ObservedRun) (still : ¬Mutated run.observed)
    (only : OnlyEarlyChecks run.result) {record : StepRunRecord} (member : record ∈ run.result.steps) :
    ¬Tells (exactSerial run.mapping) record := by
  obtain ⟨idle, early⟩ := only record member
  rintro (⟨executed, _⟩ | ⟨failed, unchecked, _⟩ | ⟨failed, identity, marked⟩ | ⟨failed, root, marked⟩)
  · exact idle executed
  · obtain ⟨kind, failure, kinded, holds, _⟩ := run.failure_of_kind member (early failed)
    have checks : isCheck record = true := by
      rw [isCheck, kinded, Option.any_some]
      cases kind <;> first | rfl | cases holds
    rw [unchecked] at checks
    cases checks
  · obtain ⟨kind, failure, kinded, holds, fails, own, said⟩ := run.failure_of_kind member identity
    have message : failure.message = identityMarker := Option.some.inj (said.symm.trans marked)
    have first := early failed
    rw [isEarlyCheck, kinded, Option.any_some] at first
    rcases fails.identity own holds message with rfl | rfl
    · cases first
    · cases first
  · obtain ⟨kind, failure, kinded, holds, fails, own, said⟩ := run.failure_of_kind member root
    have message : failure.message = rootMarker := Option.some.inj (said.symm.trans marked)
    exact still (fails.root own holds message)

theorem statusText_listed (status : ExecutionStatus) :
    allowlistedRealString (statusText status) executionWords "running" = statusText status := by
  cases status <;> decide

theorem statusText_stopped (status : ExecutionStatus) :
    (statusText status = "failed" ∨ statusText status = "cancelled") ↔
      (status = .failed ∨ status = .cancelled) := by
  cases status <;> decide

theorem overallStatus_stopped (result : ExecutionRunResult) (hasWarnings : Bool) :
    (overallStatus result hasWarnings = .failed ∨ overallStatus result hasWarnings = .cancelled) ↔
      (result.cancelled = true ∨ result.success = false) := by
  unfold overallStatus
  cases result.cancelled <;> cases result.success <;> cases hasWarnings <;> decide

def ObservedRun.Stopped (run : ObservedRun) : Prop :=
  run.result.cancelled = true ∨ run.result.success = false

theorem ObservedRun.status_stopped (run : ObservedRun) :
    ((viewOf run.report).status = "failed" ∨ (viewOf run.report).status = "cancelled") ↔
      run.Stopped :=
  (statusText_stopped _).trans (overallStatus_stopped run.result _)

theorem ObservedRun.status_finished (run : ObservedRun) (launch : Bool) :
    ((Shown.finished launch).snapshot tables run).status = (viewOf run.report).status := by
  change (attachTerminalPolicy _ launch).status = _
  rw [status_attachTerminalPolicy]
  change (attachTerminalPolicy _ false).status = _
  rw [status_attachTerminalPolicy]
  exact statusText_listed _

theorem ObservedRun.flag_finished (run : ObservedRun) (launch : Bool) :
    ((Shown.finished launch).snapshot tables run).completion.partialChangesPossible = true ↔
      run.Stopped ∧ ShowsWork (exactSerial run.mapping) (viewOf run.report) := by
  have distinct : ((viewOf run.report).recipes.map (·.recipeId)).Nodup :=
    run.running.distinct_view run.result
  change (attachTerminalPolicy _ launch).completion.partialChangesPossible = true ↔ _
  rw [completion_attachTerminalPolicy]
  by_cases stopped : run.Stopped
  · rw [partialChangesPossible_iff distinct (run.status_stopped.mpr stopped)]
    exact (and_iff_right stopped).symm
  · have idle : ¬((viewOf run.report).status = "failed" ∨ (viewOf run.report).status = "cancelled") :=
      fun status => stopped (run.status_stopped.mp status)
    have word : allowlistedRealString (viewOf run.report).status executionWords "running" =
        (viewOf run.report).status := statusText_listed _
    change (attachTerminalPolicy _ false).completion.partialChangesPossible = true ↔ _
    rw [completion_attachTerminalPolicy]
    simp only [completionSummaryWithIdentityState, word, Bool.and_eq_true, Bool.or_eq_true,
      decide_eq_true_eq]
    constructor
    · intro flag
      exact absurd flag.1 idle
    · intro flag
      exact absurd flag.1 stopped

theorem ObservedRun.presentation_finished (run : ObservedRun) (launch : Bool)
    (stopped : run.Stopped) :
    (((Shown.finished launch).snapshot tables run).terminalPolicy.any fun policy =>
        policy.partialChangePresentation = "none") = true ↔
      ((Shown.finished launch).snapshot tables run).completion.partialChangesPossible = false := by
  have terminal : isTerminalStatus
      (projectRealSnapshot tables run.mapping (viewOf run.report)).status = true := by
    have status := run.status_stopped.mpr stopped
    rw [status_projectRealSnapshot status]
    rcases status with status | status
    · rw [status]
      decide
    · rw [status]
      decide
  refine (presentation_iff terminal).trans ?_
  rw [← completion_attachTerminalPolicy _ launch]
  rfl

theorem ObservedRun.refused_or_started (run : ObservedRun) :
    (¬Mutated run.observed ∧ ∀ record ∈ run.result.steps, record.failureKind = none) ∨
      FailedStarted run.result.steps (notes (run.observed.map (·.event))) := by
  rcases failedStarted_runReporting run.ran with ⟨⟨failed, blocked, refused⟩, _, idle⟩ | started
  · refine .inl ⟨?_, ?_⟩
    · rintro ⟨entry, member, mutates⟩
      have works := run.issued entry member mutates
      obtain ⟨⟨operation, response⟩, commands⟩ := entry
      cases operation with
      | report note => cases works
      | operation operation =>
        have issued : (⟨operation, response⟩ : RunnerEvent) ∈
            operations (run.observed.map (·.event)) :=
          List.mem_filterMap.mpr ⟨_, List.mem_map.mpr ⟨_, member, rfl⟩, rfl⟩
        have still := idle _ issued
        rw [show isStepWork operation = true from works] at still
        cases still
    · intro record member
      rw [refused] at member
      obtain ⟨item, _, rfl⟩ := List.mem_map.mp member
      split
      · rfl
      · rfl
  · exact .inr started

theorem honest_finished (run : ObservedRun) (launch : Bool) :
    Honest tables run (.finished launch) ↔ ¬Hidden run (.finished launch) := by
  have status : (((Shown.finished launch).snapshot tables run).status = "failed" ∨
      ((Shown.finished launch).snapshot tables run).status = "cancelled") ↔ run.Stopped := by
    rw [run.status_finished]
    exact run.status_stopped
  have spares (started : FailedStarted run.result.steps (notes (run.observed.map (·.event))))
      (still : ¬Mutated run.observed) (only : OnlyEarlyChecks run.result) :
      ((Shown.finished launch).snapshot tables run).completion.partialChangesPossible = false := by
    rw [← Bool.not_eq_true, run.flag_finished, run.showsWork_iff started]
    rintro ⟨_, record, member, tells⟩
    exact run.not_tells still only member tells
  constructor
  · rintro honest ⟨mutated, ⟨_, _, stopped, none⟩ | ⟨events, impossible⟩⟩
    · rcases run.refused_or_started with ⟨still, _⟩ | started
      · exact still mutated
      · have flag := (honest.admitted mutated (status.mpr stopped)).1
        rw [run.flag_finished, run.showsWork_iff started] at flag
        obtain ⟨_, record, member, tells⟩ := flag
        exact none record member tells
    · cases impossible
  · intro shown
    constructor
    · intro mutated halted
      have stopped := status.mp halted
      rcases run.refused_or_started with ⟨still, _⟩ | started
      · exact absurd mutated still
      · have flag : ((Shown.finished launch).snapshot tables run).completion.partialChangesPossible =
            true := by
          rw [run.flag_finished, run.showsWork_iff started]
          refine ⟨stopped, ?_⟩
          by_contra none
          push Not at none
          exact shown ⟨mutated, .inl ⟨launch, rfl, stopped, none⟩⟩
        refine ⟨flag, ?_⟩
        rw [← Bool.not_eq_true, run.presentation_finished launch stopped, flag]
        exact Bool.noConfusion
    · intro _ _ still only
      rcases run.refused_or_started with ⟨_, kindless⟩ | started
      · refine spares (fun record member failed => ?_) still only
        have early := (only record member).2 failed
        rw [isEarlyCheck, kindless record member] at early
        cases early
      · exact spares started still only

theorem lost_retained (run : ObservedRun) (events : Nat) :
    ((Shown.lost events true).snapshot tables run).status = "failed" ∧
      ((Shown.lost events true).snapshot tables run).completion.partialChangesPossible = false := by
  have flag : ¬ShowsWork (exactSerial run.mapping) lostReport := by
    rintro (⟨_, some⟩ | ⟨_, some⟩ | marked | marked)
    · exact absurd some (by decide)
    · exact absurd some (by decide +kernel)
    · exact absurd marked (by decide +kernel)
    · exact absurd marked (by decide +kernel)
  constructor
  · exact @status_projectRealSnapshot tables run.mapping lostReport (.inl rfl)
  · rw [← Bool.not_eq_true]
    intro possible
    exact flag ((@partialChangesPossible_iff tables run.mapping lostReport (by decide) (.inl rfl)).mp
      possible)

theorem honest_lost (run : ObservedRun) (events : Nat) (retained : Bool) :
    Honest tables run (.lost events retained) ↔ ¬Hidden run (.lost events retained) := by
  cases retained with
  | false =>
    refine iff_of_true ⟨fun _ _ => ⟨rfl, by rfl⟩, fun _ impossible => by cases impossible⟩ ?_
    rintro ⟨_, ⟨_, impossible, _⟩ | ⟨_, impossible⟩⟩
    · cases impossible
    · cases impossible
  | true =>
    obtain ⟨status, flag⟩ := @lost_retained tables run events
    constructor
    · rintro honest ⟨mutated, _⟩
      have possible := (honest.admitted mutated (.inl status)).1
      rw [flag] at possible
      cases possible
    · intro shown
      refine ⟨fun mutated _ => absurd ⟨mutated, .inr ⟨events, rfl⟩⟩ shown,
        fun _ impossible => by cases impossible⟩

/-- The snapshot of a run is honest about its device changes exactly where they are not hidden. -/
theorem honest_iff (tables : CaseTables) (run : ObservedRun) (shown : Shown) :
    Honest tables run shown ↔ ¬Hidden run shown := by
  cases shown with
  | finished launch => exact honest_finished run launch
  | lost events retained => exact honest_lost run events retained

def installPlan : ExecutionPlan :=
  { planOf [{ waitStep "setup/install" [] with
      appId := some "app"
      typeName := "install_apk"
      verify := [⟨"package_installed", some "app", .empty⟩] }] [] with
    apps := [⟨"app", "com.example.app"⟩] }

def lostIdentityAnswers : (operation : WorkerOperation) →
    Reporting.Answer RunnerOperation.Response operation
  | .operation (.packageInstalled _) => .error (mapAdbError (.deviceIdentityUnverified .preOperation))
  | .operation issued => smoothAnswers issued
  | .report _ => ()

def lostIdentityEvents : List WorkerEvent :=
  trace (fixed lostIdentityAnswers) (runReporting installPlan) ()

def commandsOf : WorkerEvent → List DeviceCommandEffect
  | ⟨.operation (.performStep _ _), _⟩ => [.mutating]
  | _ => []

theorem answered_lostIdentity {mutated : Prop} {event : RunnerEvent}
    (same : event.response = lostIdentityAnswers (.operation event.operation)) :
    Answered mutated event.operation event.response := by
  obtain ⟨operation, response⟩ := event
  change response = lostIdentityAnswers (.operation operation) at same
  subst same
  cases operation with
  | packageInstalled name =>
    intro error failed
    cases failed
    exact .device false (.deviceIdentityUnverified .preOperation) .empty fun impossible => by
      cases impossible
  | performStep step params => exact fun _ impossible => by cases impossible
  | reachRootCheck step params => exact fun _ impossible => by cases impossible
  | revalidateRoot => exact fun _ impossible => by cases impossible
  | pathExists path => exact fun _ impossible => by cases impossible
  | pathIsDir path => exact fun _ impossible => by cases impossible
  | _ => exact trivial

theorem observed_events (events : List WorkerEvent) :
    (events.map fun event => (⟨event, commandsOf event⟩ : Observed)).map (·.event) = events := by
  rw [List.map_map]
  exact List.map_id events

def lostIdentityRun : ObservedRun where
  executionId := "execution-1"
  reviewed := ⟨installPlan, ["setup"]⟩
  mapping := launchMapping .null
  observed := lostIdentityEvents.map fun event => ⟨event, commandsOf event⟩
  result := (Program.run (fixed lostIdentityAnswers) (runReporting installPlan) ()).1
  updates := (notes lostIdentityEvents).map .progress
  ran := by
    rw [observed_events]
    exact runs_trace _ _ ()
  reported := by
    rw [observed_events, List.filterMap_map]
    exact List.filterMap_some
  issued := by
    intro entry member mutates
    obtain ⟨⟨operation, response⟩, _, rfl⟩ := List.mem_map.mp member
    cases operation with
    | report note => cases mutates
    | operation operation =>
      cases operation with
      | performStep step params => rfl
      | _ => cases mutates
  answered := by
    rw [observed_events]
    exact fun event member => answered_lostIdentity (response_of_mem_trace (mem_of_operations member))
  stepIds := by decide
  recipeIds := by decide

/-- The App was installed, and the failed run is shown as one that changed nothing. -/
theorem honest_fails : ∃ run shown, ∀ tables, ¬Honest tables run shown := by
  refine ⟨lostIdentityRun, .finished false, fun tables honest => ?_⟩
  have mutated : Mutated lostIdentityRun.observed := by
    have some : (lostIdentityRun.observed.any fun entry => entry.commands.contains .mutating) = true := by
      rfl
    obtain ⟨entry, member, mutates⟩ := List.any_eq_true.mp some
    exact ⟨entry, member, List.contains_iff_mem.mp mutates⟩
  have records : lostIdentityRun.result.steps.map (fun record =>
      (record.status, record.failureKind, record.message)) =
        [(.failed, some (.deviceIdentityUnverified .preOperation),
          some "The reviewed device identity could not be confirmed.")] := by rfl
  refine (honest_finished lostIdentityRun false).mp honest ⟨mutated, .inl ⟨false, rfl, .inr rfl, ?_⟩⟩
  intro record member
  have same : (record.status, record.failureKind, record.message) ∈
      lostIdentityRun.result.steps.map fun record =>
        (record.status, record.failureKind, record.message) := List.mem_map.mpr ⟨record, member, rfl⟩
  rw [records, List.mem_singleton, Prod.mk.injEq, Prod.mk.injEq] at same
  obtain ⟨status, kind, message⟩ := same
  rintro (⟨executed, _⟩ | ⟨_, unchecked, _⟩ | ⟨_, _, marked⟩ | ⟨_, root, _⟩)
  · rw [status] at executed
    cases executed
  · rw [isCheck, kind] at unchecked
    cases unchecked
  · rw [message] at marked
    exact absurd (Option.some.inj marked) (by decide +kernel)
  · rw [kind] at root
    cases root

end

end EmuChef.App
