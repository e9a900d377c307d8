import EmuChef.Executor.Runner

/-! The report of an execution: what the worker's progress and its result write into it, and
the events that readers poll. -/

namespace EmuChef.Session

open Planner Executor

inductive ExecutionMode where
  | real
  | dryRun
  deriving DecidableEq

inductive ExecutionStatus where
  | running
  | succeeded
  | succeededWithWarnings
  | failed
  | cancelled
  deriving DecidableEq

inductive RecipeExecutionStatus where
  | pending
  | running
  | succeeded
  | succeededWithWarnings
  | failed
  | blocked
  | cancelled
  deriving DecidableEq

inductive StepExecutionStatus where
  | pending
  | running
  | succeeded
  | skipped
  | failed
  | blocked
  | cancelled
  deriving DecidableEq

structure ExecutionIssue where
  code : String
  message : String
  recipeId : Option String
  stepId : Option String
  deriving DecidableEq

structure ExecutionStepReport where
  stepId : String
  recipeId : String
  status : StepExecutionStatus
  message : Option String
  outputs : OrderedMap String RuntimeValue

structure ExecutionRecipeReport where
  recipeId : String
  status : RecipeExecutionStatus
  steps : List ExecutionStepReport

structure ReviewedPlan where
  plan : ExecutionPlan
  recipes : List String

structure ExecutionReport where
  executionId : String
  reviewedPlan : ReviewedPlan
  mode : ExecutionMode
  status : ExecutionStatus
  latestSequence : Nat
  recipes : List ExecutionRecipeReport
  warnings : List ExecutionIssue
  errors : List ExecutionIssue

def ExecutionReport.simulated (report : ExecutionReport) : Bool := report.mode = .dryRun

inductive ProgressPhase where
  | checkingSkipConditions
  | executing
  | verifying
  | finished
  deriving DecidableEq

inductive ProgressStatus where
  | skipped
  | blocked
  | succeeded
  | failed
  | cancelled
  deriving DecidableEq

structure ExecutionProgressEvent where
  stepId : String
  recipeRef : String
  phase : ProgressPhase
  status : Option ProgressStatus
  message : Option String
  deriving DecidableEq

structure ExecutionEvent where
  sequence : Nat
  executionId : String
  eventType : String
  recipeId : Option String
  stepId : Option String
  phase : Option String
  status : Option String
  message : Option String
  issue : Option ExecutionIssue
  deriving DecidableEq

structure ExecutionRecord where
  report : ExecutionReport
  events : List ExecutionEvent
  cancelRequested : Bool

def ProgressPhase.name : ProgressPhase → String
  | checkingSkipConditions => "checking_skip_conditions"
  | executing => "executing"
  | verifying => "verifying"
  | finished => "finished"

def ProgressStatus.name : ProgressStatus → String
  | skipped => "skipped"
  | blocked => "blocked"
  | succeeded => "succeeded"
  | failed => "failed"
  | cancelled => "cancelled"

def ExecutionStatus.name : ExecutionStatus → String
  | running => "running"
  | succeeded => "succeeded"
  | succeededWithWarnings => "succeeded_with_warnings"
  | failed => "failed"
  | cancelled => "cancelled"

def pendingStep (step : ExecutionStep) : ExecutionStepReport :=
  ⟨step.id, step.recipeRef, .pending, none, .empty⟩

def addStepReport (recipes : List ExecutionRecipeReport) (step : ExecutionStep) :
    List ExecutionRecipeReport :=
  match recipes with
  | [] => [⟨step.recipeRef, .pending, [pendingStep step]⟩]
  | recipe :: rest =>
      if recipe.recipeId = step.recipeRef then
        { recipe with steps := recipe.steps ++ [pendingStep step] } :: rest
      else recipe :: addStepReport rest step

def initialReport (executionId : String) (reviewed : ReviewedPlan) (mode : ExecutionMode) :
    ExecutionReport where
  executionId := executionId
  reviewedPlan := reviewed
  mode := mode
  status := .running
  latestSequence := 0
  recipes := reviewed.plan.steps.foldl addStepReport
    (reviewed.recipes.map fun id => ⟨id, .pending, []⟩)
  warnings := []
  errors := []

def stepsOf (recipes : List ExecutionRecipeReport) : List ExecutionStepReport :=
  recipes.flatMap (·.steps)

def ExecutionReport.steps (report : ExecutionReport) : List ExecutionStepReport :=
  stepsOf report.recipes

def updateFirst {α : Type} (found : α → Bool) (change : α → α) : List α → List α
  | [] => []
  | item :: rest => if found item then change item :: rest else item :: updateFirst found change rest

def updateStep (recipes : List ExecutionRecipeReport) (stepId : String)
    (change : ExecutionStepReport → ExecutionStepReport) : List ExecutionRecipeReport :=
  match recipes with
  | [] => []
  | recipe :: rest =>
      if recipe.steps.any fun step => step.stepId = stepId then
        { recipe with steps := updateFirst (fun step => step.stepId = stepId) change recipe.steps } ::
          rest
      else recipe :: updateStep rest stepId change

def pendingRecipeStatus (steps : List ExecutionStepReport) (execution : ExecutionStatus) :
    RecipeExecutionStatus :=
  if steps.all fun step => step.status = .pending then .pending
  else
    match execution with
    | .cancelled => .cancelled
    | .failed => .failed
    | .running | .succeeded | .succeededWithWarnings => .running

def recipeStatus (steps : List ExecutionStepReport) (execution : ExecutionStatus) :
    RecipeExecutionStatus :=
  if steps.any fun step => step.status = .failed then .failed
  else if steps.any fun step => step.status = .blocked then .blocked
  else if steps.any fun step => step.status = .cancelled then .cancelled
  else if steps.any fun step => step.status = .running then .running
  else if steps.any fun step => step.status = .pending then pendingRecipeStatus steps execution
  else .succeeded

def refreshRecipeStatuses (report : ExecutionReport) : ExecutionReport :=
  { report with
    recipes := report.recipes.map fun recipe =>
      { recipe with status := recipeStatus recipe.steps report.status } }

def applyRecipeWarningStatuses (report : ExecutionReport) : ExecutionReport :=
  let recipeIds := report.warnings.filterMap (·.recipeId)
  { report with
    recipes := report.recipes.map fun recipe =>
      if recipe.status = .succeeded ∧ recipe.recipeId ∈ recipeIds then
        { recipe with status := .succeededWithWarnings }
      else recipe }

def overallStatus (result : ExecutionRunResult) (hasWarnings : Bool) : ExecutionStatus :=
  if result.cancelled then .cancelled
  else if !result.success then .failed
  else if hasWarnings then .succeededWithWarnings
  else .succeeded

structure EventBody where
  eventType : String
  recipeId : Option String
  stepId : Option String
  phase : Option String
  status : Option String
  message : Option String
  issue : Option ExecutionIssue
  deriving DecidableEq

def appendEvent (record : ExecutionRecord) (body : EventBody) : ExecutionRecord :=
  let sequence := record.report.latestSequence + 1
  { record with
    report := { record.report with latestSequence := sequence }
    events := record.events ++
      [⟨sequence, record.report.executionId, body.eventType, body.recipeId, body.stepId, body.phase,
        body.status, body.message, body.issue⟩] }

def startedBody (mode : ExecutionMode) : EventBody :=
  ⟨"execution_started", none, none, none, some "running",
    some (if mode = .dryRun then
      "Simulated dry run started; no real-device verification is performed."
    else "Execution started."), none⟩

def cancelBody : EventBody :=
  ⟨"cancel_requested", none, none, none, some "running",
    some "Cancellation will be observed after the current atomic operation.", none⟩

def progressBody (event : ExecutionProgressEvent) : EventBody :=
  ⟨"step_progress", some event.recipeRef, some event.stepId, some event.phase.name,
    event.status.map (·.name), event.message, none⟩

def completedBody (report : ExecutionReport) : EventBody :=
  ⟨"execution_completed", none, none, none, some report.status.name,
    some (if report.simulated then
      "Simulated dry run completed; results do not establish real-device verification."
    else "Execution completed."), none⟩

def panicIssue : ExecutionIssue :=
  ⟨"execution_worker_panicked", "Execution worker terminated unexpectedly.", none, none⟩

def panickedBody : EventBody :=
  ⟨"execution_worker_panicked", none, none, none, some "failed", some panicIssue.message,
    some panicIssue⟩

def progressStepStatus (event : ExecutionProgressEvent) : StepExecutionStatus :=
  match event.phase, event.status with
  | .finished, some .succeeded => .succeeded
  | .finished, some .skipped => .skipped
  | .finished, some .blocked => .blocked
  | .finished, some .failed => .failed
  | .finished, some .cancelled => .cancelled
  | _, _ => .running

def recordProgress (record : ExecutionRecord) (event : ExecutionProgressEvent) : ExecutionRecord :=
  let recipes := updateStep record.report.recipes event.stepId fun step =>
    { step with status := progressStepStatus event, message := event.message }
  let report := refreshRecipeStatuses { record.report with recipes := recipes }
  appendEvent { record with report := report } (progressBody event)

def issueCode (status : StepRunStatus) (message : Option String)
    (failureKind : Option StepFailureKind) : String :=
  if status = .blocked then "dependency_blocked"
  else
    match failureKind with
    | some .operationTimedOut => "operation_timed_out"
    | some .deviceOffline => "device_offline"
    | some .deviceUnauthorized => "device_unauthorized"
    | some .deviceDisconnected => "device_disconnected"
    | some .adbServerUnavailable => "adb_server_unavailable"
    | some (.deviceIdentityChanged _) => "device_identity_changed"
    | some (.deviceIdentityUnverified _) => "device_identity_unverified"
    | some .rootAuthorityRevoked => "root_authority_revoked"
    | some .rootAuthorityUnverified => "root_authority_unverified"
    | some .deviceStorageExhausted => "device_storage_exhausted"
    | some .transportReset | some .transportFailure => "device_transport_lost"
    | _ =>
        let text := (message.getD "").toList
        let codes := ["artifact_tls_verification_failed", "artifact_http_status",
          "artifact_transport_failed", "artifact_digest_mismatch", "artifact_size_mismatch",
          "unknown_artifact_ref"]
        match codes.find? fun code => code.toList.isPrefixOf text with
        | some code => code
        | none =>
            if "verify failed".toList.isPrefixOf text then "verification_failed"
            else if "missing capabilities".toList.isPrefixOf text then "missing_capability"
            else if "conflicting steps".toList.isPrefixOf text then "step_conflict"
            else "step_execution_failed"

def permissionWarning (recipeId : Option String) (stepId : String) (action : Json) :
    ExecutionIssue :=
  let plannedAction := (action.field? "permission_set").isSome
  { code := if plannedAction then "permission_action_failed" else "optional_permission_failed"
    message := ((action.field? "message").bind Json.asStr).getD
      (if plannedAction then "A permission action failed under the warning policy."
      else "An optional permission action failed.")
    recipeId := recipeId
    stepId := some stepId }

def collectPermissionWarnings (recipeId : Option String) (stepId : String)
    (outputs : OrderedMap String RuntimeValue) : List ExecutionIssue :=
  let actions := ((outputs.get? "permission_results").bind fun results =>
    (results.value.field? "actions").bind Json.asArray).getD []
  (actions.filter fun action => (action.field? "status").bind Json.asStr = some "failed").map
    (permissionWarning recipeId stepId)

def collectCopyStagingCleanupWarning (recipeId : Option String) (stepId : String)
    (outputs : OrderedMap String RuntimeValue) : List ExecutionIssue :=
  let copyReport := (outputs.get? "copy_commit_report").map (·.value)
  let succeeded := copyReport.any fun report => (report.field? "succeeded").any Json.isTrue
  let cleanupPending := copyReport.any fun report =>
    ((report.field? "stagingCleanupError").bind Json.asStr).any fun message => !isBlank message
  if succeeded && cleanupPending then
    [⟨"copy_staging_cleanup_pending",
      "The copy completed successfully, but temporary staging cleanup is still pending.",
      recipeId, some stepId⟩]
  else []

def finishStep (report : ExecutionReport) (record : StepRunRecord) : ExecutionReport :=
  let recipeId := (report.steps.find? fun step => step.stepId = record.stepId).map (·.recipeId)
  let recipes := updateStep report.recipes record.stepId fun step =>
    { step with outputs := record.outputs }
  match record.status with
  | .failed | .blocked =>
      { report with
        recipes := recipes
        errors := report.errors ++
          [⟨issueCode record.status record.message record.failureKind,
            record.message.getD "Required execution work did not complete.", recipeId,
            some record.stepId⟩] }
  | .executed =>
      { report with
        recipes := recipes
        warnings := report.warnings ++
          collectPermissionWarnings recipeId record.stepId record.outputs ++
          collectCopyStagingCleanupWarning recipeId record.stepId record.outputs }
  | .skipped | .cancelled => { report with recipes := recipes }

def finishAttempt (record : ExecutionRecord) (result : ExecutionRunResult) : ExecutionRecord :=
  let report := result.steps.foldl finishStep record.report
  let status := overallStatus result !report.warnings.isEmpty
  let report := applyRecipeWarningStatuses (refreshRecipeStatuses { report with status := status })
  appendEvent { record with report := report } (completedBody report)

def failRunning (step : ExecutionStepReport) : ExecutionStepReport :=
  if step.status = .running then
    { step with
      status := .failed
      message := some
        "The execution worker stopped before this operation reported completion." }
  else step

def finishPanicked (record : ExecutionRecord) : ExecutionRecord :=
  let recipes := record.report.recipes.map fun recipe =>
    { recipe with steps := recipe.steps.map failRunning }
  let report := refreshRecipeStatuses
    { record.report with
      recipes := recipes
      status := .failed
      errors := record.report.errors ++ [panicIssue] }
  appendEvent { record with report := report } panickedBody

end EmuChef.Session
