import EmuChef.Executor.PermissionStep
import EmuChef.Executor.RootRequirements
import EmuChef.Lib.Program

/-! The executor runner: plan admission, the loop over the steps with its exits, the root preflight
and the conditions. -/

namespace EmuChef.Executor

open Planner Program

inductive StepRunStatus where
  | executed
  | skipped
  | blocked
  | failed
  | cancelled
  deriving DecidableEq

structure StepRunRecord where
  stepId : String
  status : StepRunStatus
  message : Option String
  outputs : OrderedMap String RuntimeValue
  failureKind : Option StepFailureKind

structure ExecutionRunResult where
  success : Bool
  cancelled : Bool
  totalSteps : Nat
  steps : List StepRunRecord

inductive StepCall where
  | skipIf
  | runStep
  | verify
  deriving DecidableEq

structure StepEffect where
  result : Except StepFailure (OrderedMap String RuntimeValue)
  artifacts : OrderedMap String ArtifactRuntimeState

inductive RunnerOperation where
  | admitLocalInputs
  | hostDirectories
  | shouldCancel
  | ownsPerCommandRootAuthority
  | revalidateRoot
  /-- Marks where the loop makes a call for the step at a position. -/
  | enter (index : Nat) (stepCall : StepCall)
  | packageInstalled (packageName : String)
  | pathExists (path : String)
  | pathIsDir (path : String)
  | usesFakeDeviceFilesystem
  | sandboxPathExists (path : String)
  | sandboxPathIsFile (path : String)
  /-- The work of a step up to its root check: it fails, or says whether the check is made. -/
  | reachRootCheck (step : ExecutionStep) (params : OrderedMap String Json)
  /-- The rest of the work of a step. -/
  | performStep (step : ExecutionStep) (params : OrderedMap String Json)

namespace RunnerOperation

abbrev Response : RunnerOperation → Type
  | admitLocalInputs => Option String
  | hostDirectories => String → Bool
  | shouldCancel => Bool
  | ownsPerCommandRootAuthority => Bool
  | revalidateRoot => Except DeviceOperationError Unit
  | enter _ _ => Unit
  | packageInstalled _ => Except DeviceOperationError Bool
  | pathExists _ => Except DeviceOperationError Bool
  | pathIsDir _ => Except DeviceOperationError Bool
  | usesFakeDeviceFilesystem => Bool
  | sandboxPathExists _ => Bool
  | sandboxPathIsFile _ => Bool
  | reachRootCheck _ _ => Except StepFailure Bool
  | performStep _ _ => StepEffect

end RunnerOperation

abbrev RunnerEvent := Event RunnerOperation RunnerOperation.Response

abbrev Runner (α : Type) := Program RunnerOperation RunnerOperation.Response α

abbrev RunnerAttempt (ε α : Type) := Attempt RunnerOperation RunnerOperation.Response ε α

def issue {ε : Type} (operation : RunnerOperation) :
    RunnerAttempt ε (RunnerOperation.Response operation) :=
  ExceptT.lift (request operation)

def StepFailure.ofDevice (error : DeviceOperationError) : StepFailure :=
  ⟨error.message, .empty, some (.ofDeviceOperation error.kind)⟩

def StepFailure.isFailStop (failure : StepFailure) : Bool :=
  failure.failureKind.any StepFailureKind.requiresDeviceFailStop

inductive RootPreflightState where
  | notRun
  | granted
  | failed (message : String)
  deriving DecidableEq

structure RootPreflight where
  state : RootPreflightState
  failure : Option String
  deriving DecidableEq

structure StepFault where
  failure : StepFailure
  root : RootPreflight

def revalidated (root : RootPreflight) : Except DeviceOperationError Unit →
    Except StepFault RootPreflight
  | .ok () => .ok { root with state := .granted }
  | .error error =>
      let failure := StepFailure.ofDevice error
      .error ⟨failure, ⟨.failed failure.message, some failure.message⟩⟩

def ensureRootPreflight (root : RootPreflight) : RunnerAttempt StepFault RootPreflight := do
  if ← issue .ownsPerCommandRootAuthority then return root
  else
    match root.state with
    | .granted => return root
    | .failed message => throw ⟨.new message, root⟩
    | .notRun => do
        let answer ← issue .revalidateRoot
        check (revalidated root answer)

def deviceAnswer {α : Type} (root : RootPreflight) : Except DeviceOperationError α →
    Except StepFault α
  | .ok value => .ok value
  | .error error => .error ⟨.ofDevice error, root⟩

def rootForPath (root : RootPreflight) (path : String) : RunnerAttempt StepFault RootPreflight :=
  if isAppPrivatePath path then ensureRootPreflight root else return root

def pathExistsCondition (root : RootPreflight) (path : String) :
    RunnerAttempt StepFault (Bool × RootPreflight) := do
  let root ← rootForPath root path
  let deviceExists ← check (deviceAnswer root (← issue (.pathExists path)))
  if ← issue .usesFakeDeviceFilesystem then
    let sandboxExists ← issue (.sandboxPathExists path)
    return (deviceExists || sandboxExists, root)
  else return (deviceExists, root)

def fileExistsCondition (root : RootPreflight) (path : String) :
    RunnerAttempt StepFault (Bool × RootPreflight) := do
  let root ← rootForPath root path
  let deviceExists ← check (deviceAnswer root (← issue (.pathExists path)))
  let deviceIsDir ← check (deviceAnswer root (← issue (.pathIsDir path)))
  if ← issue .usesFakeDeviceFilesystem then
    let sandboxIsFile ← issue (.sandboxPathIsFile path)
    return ((deviceExists && !deviceIsDir) || sandboxIsFile, root)
  else return (deviceExists && !deviceIsDir, root)

def conditionPackage (plan : ExecutionPlan) (condition : ExecutionStepCondition) :
    Except StepFailure String :=
  match condition.appId with
  | none => .error (.new
      "app_condition_context_required: package_installed requires App Definition context.")
  | some appId =>
      if condition.params.entries ≠ [] then
        .error (.new ("app_condition_package_parameter_forbidden: " ++
          "App-context package_installed conditions are parameterless."))
      else
        match plan.apps.find? fun app => app.id = appId with
        | none => .error (.new "app_context_invalid: Reviewed App Definition data is unavailable.")
        | some app => .ok app.packageId

def conditionText : Json → String
  | .string text => text
  | .null => "None"
  | .bool true => "True"
  | .bool false => "False"
  | other => other.render

def requiredStringParam (condition : ExecutionStepCondition) (name : String) :
    Except StepFailure String :=
  match condition.params.get? name with
  | some value => .ok (conditionText value)
  | none => .error (.new ("Unsupported condition params for " ++ condition.typeName))

def atRoot {α : Type} (root : RootPreflight) (answer : Except StepFailure α) :
    RunnerAttempt StepFault α :=
  check (answer.mapError fun failure => ⟨failure, root⟩)

def evaluateCondition (plan : ExecutionPlan) (root : RootPreflight)
    (condition : ExecutionStepCondition) : RunnerAttempt StepFault (Bool × RootPreflight) :=
  match condition.typeName with
  | "package_installed" => do
      let packageName ← atRoot root (conditionPackage plan condition)
      let installed ← check (deviceAnswer root (← issue (.packageInstalled packageName)))
      return (installed, root)
  | "path_exists" => do
      let path ← atRoot root (requiredStringParam condition "path")
      pathExistsCondition root path
  | "file_exists" => do
      let path ← atRoot root (requiredStringParam condition "path")
      fileExistsCondition root path
  | other => atRoot root (.error (.new ("Unsupported condition type: " ++ other)))

def skipIfMatched (plan : ExecutionPlan) (root : RootPreflight) (step : ExecutionStep) :
    RunnerAttempt StepFault (Bool × RootPreflight) :=
  step.skipIf.foldlM (fun found condition =>
    if found.1 then return (true, found.2) else evaluateCondition plan found.2 condition)
    (false, root)

def failedVerify (plan : ExecutionPlan) (root : RootPreflight) (step : ExecutionStep) :
    RunnerAttempt StepFault (List String × RootPreflight) :=
  step.verify.foldlM (fun found condition => do
    let answer ← evaluateCondition plan found.2 condition
    return (if answer.1 then found.1 else found.1 ++ [condition.typeName], answer.2)) ([], root)

section

variable (plan : ExecutionPlan) (step : ExecutionStep)

structure StepRun where
  result : Except StepFailure (OrderedMap String RuntimeValue)
  execution : ExecutionState
  root : RootPreflight

def rootWhen (reached : Bool) (root : RootPreflight) : RunnerAttempt StepFault RootPreflight :=
  if reached then ensureRootPreflight root else return root

def resolvedRunStep (execution : ExecutionState) (root : RootPreflight)
    (params : OrderedMap String Json) : RunnerAttempt StepFault StepRun := do
  let reached ← atRoot root (← issue (.reachRootCheck step params))
  let root ← rootWhen reached root
  let effect ← issue (.performStep step params)
  return ⟨effect.result, { execution with artifacts := effect.artifacts }, root⟩

def stepRunOf (execution : ExecutionState) : Except StepFault StepRun → StepRun
  | .ok ran => ran
  | .error fault => ⟨.error fault.failure, execution, fault.root⟩

def runStep (execution : ExecutionState) (root : RootPreflight) : Runner StepRun := do
  match resolveStepParams execution step.params with
  | .error failure => return ⟨.error failure, execution, root⟩
  | .ok params => return stepRunOf execution (← (resolvedRunStep step execution root params).run)

inductive AfterStep where
  | proceed
  | abort
  | stop
  deriving DecidableEq

structure StepOutcome where
  status : StepRunStatus
  message : Option String
  outputs : OrderedMap String RuntimeValue
  failureKind : Option StepFailureKind
  execution : ExecutionState
  root : RootPreflight
  after : AfterStep

def quietOutcome (status : StepRunStatus) (message : Option String) (execution : ExecutionState)
    (root : RootPreflight) : StepOutcome :=
  ⟨status, message, .empty, none, execution, root, .proceed⟩

def afterFailure (failure : StepFailure) (root : RootPreflight) : AfterStep :=
  if failure.isFailStop then .stop else if root.failure.isSome then .abort else .proceed

def faultOutcome (execution : ExecutionState) (fault : StepFault) : StepOutcome :=
  ⟨.failed, some fault.failure.message, .empty, fault.failure.failureKind, execution, fault.root,
    afterFailure fault.failure fault.root⟩

def isBlocking (execution : ExecutionState) (dependency : String) : Bool :=
  (execution.steps.get? dependency).any fun stepState =>
    stepState.status = .failed || stepState.status = .blocked

def blockingDependencies (execution : ExecutionState) : List String :=
  step.dependencies.filter (isBlocking execution)

def runtimeCapabilityEnabled (capability : String) : Bool :=
  (RuntimeCapability.fromName capability).any (·.isAvailable plan.runtimeCapabilities)

def missingCapabilities : List String :=
  step.constraints.capabilities.filter fun capability => !runtimeCapabilityEnabled plan capability

def permissionOutcome (execution : ExecutionState) (root : RootPreflight) :
    Except StepOutcome Unit :=
  if step.typeName = "grant_permissions" ∧ (step.permissionPlan.isSome ∨ step.appId.isSome) then
    match validatedPlanPermissionPlan plan step with
    | .error reason =>
        .error { quietOutcome .failed (some ("The reviewed permission plan is invalid: " ++ reason ++
          ". Prepare a fresh review before execution.")) execution root with after := .stop }
    | .ok (_, permissionPlan) =>
        if permissionPlan.hasApplicableActions then .ok ()
        else
          .error { quietOutcome .skipped (some
            "No actions in the selected permission set apply to this Android API level.")
            execution root with outputs := permissionNotApplicableOutputs step permissionPlan }
  else .ok ()

def admitStep (execution : ExecutionState) (root : RootPreflight) : Except StepOutcome Unit := do
  let blocking := blockingDependencies step execution
  Checks.require (blocking = []) (quietOutcome .blocked
    (some ("dependency blocked: " ++ ", ".intercalate blocking)) execution root)
  let missing := missingCapabilities plan step
  Checks.require (missing = []) (quietOutcome .failed
    (some ("missing required capabilities: " ++ ", ".intercalate missing)) execution root)
  permissionOutcome plan step execution root

def preflightOutcome (execution : ExecutionState) (fault : StepFault) : StepOutcome :=
  let root := { fault.root with failure := some fault.failure.message }
  faultOutcome execution ⟨fault.failure, root⟩

def orOutcome {α : Type} (outcome : StepFault → StepOutcome) (part : RunnerAttempt StepFault α) :
    RunnerAttempt StepOutcome α :=
  ExceptT.mk (do return (← part.run).mapError outcome)

def prepareRoot (execution : ExecutionState) (root : RootPreflight) :
    RunnerAttempt StepOutcome RootPreflight := do
  let isDir ← issue .hostDirectories
  if (planStepRootRequirements isDir plan step).any then
    orOutcome (preflightOutcome execution) (ensureRootPreflight root)
  else return root

def activeConflicts : List String :=
  step.constraints.conflictsWith.filter fun conflict => conflict ∈ plan.steps.map (·.id)

def rejectConflicts (execution : ExecutionState) (root : RootPreflight) : Except StepOutcome Unit :=
  let conflicts := activeConflicts plan step
  Checks.require (conflicts = []) (quietOutcome .failed
    (some ("conflicting steps present: " ++ ", ".intercalate conflicts)) execution root)

def skipStep (index : Nat) (execution : ExecutionState) (root : RootPreflight) :
    RunnerAttempt StepOutcome RootPreflight := do
  issue (.enter index .skipIf)
  let found ← orOutcome (faultOutcome execution) (skipIfMatched plan root step)
  if found.1 then throw (quietOutcome .skipped (some "skip_if matched") execution found.2)
  else return found.2

def afterSuccess (root : RootPreflight) : AfterStep :=
  if root.failure.isSome then .abort else .proceed

def verifiedOutcome (ran : StepRun) (outputs : OrderedMap String RuntimeValue) :
    Except StepFault (List String × RootPreflight) → StepOutcome
  | .ok ([], root) =>
      ⟨.executed, none, outputs, none, ran.execution, root, afterSuccess root⟩
  | .ok (failed, root) =>
      ⟨.failed, some ("verify failed: " ++ ", ".intercalate failed), .empty, none, ran.execution,
        root, afterSuccess root⟩
  | .error fault =>
      { faultOutcome ran.execution fault with
        outputs := if fault.failure.isFailStop then outputs else .empty }

def performStep (index : Nat) (execution : ExecutionState) (root : RootPreflight) :
    Runner StepOutcome := do
  request (RunnerOperation.enter index .runStep)
  let ran ← runStep step execution root
  match ran.result with
  | .error failure =>
      return { faultOutcome ran.execution ⟨failure, ran.root⟩ with outputs := failure.outputs }
  | .ok outputs => do
      request (RunnerOperation.enter index .verify)
      return verifiedOutcome ran outputs (← (failedVerify plan ran.root step).run)

def attemptStep (index : Nat) (execution : ExecutionState) (root : RootPreflight) :
    RunnerAttempt StepOutcome StepOutcome := do
  check (admitStep plan step execution root)
  let root ← prepareRoot plan step execution root
  check (rejectConflicts plan step execution root)
  let root ← skipStep plan step index execution root
  ExceptT.lift (performStep plan step index execution root)

def outcomeOf : Except StepOutcome StepOutcome → StepOutcome
  | .ok outcome | .error outcome => outcome

end

section

variable (plan : ExecutionPlan)

structure RunnerState where
  execution : ExecutionState
  root : RootPreflight
  records : List StepRunRecord
  cancelled : Bool
  aborted : Bool

def runtimeStatus : StepRunStatus → StepRuntimeStatus
  | .executed => .succeeded
  | .skipped => .skipped
  | .blocked => .blocked
  | .failed | .cancelled => .failed

def recordOf (step : ExecutionStep) (outcome : StepOutcome) : StepRunRecord :=
  ⟨step.id, outcome.status, outcome.message, outcome.outputs, outcome.failureKind⟩

def StepOutcome.execute (outcome : StepOutcome) (step : ExecutionStep) : ExecutionState :=
  { outcome.execution with
    steps := outcome.execution.steps.insert step.id
      ⟨runtimeStatus outcome.status, outcome.outputs⟩ }

def RunnerState.settle (state : RunnerState) (step : ExecutionStep) (outcome : StepOutcome) :
    RunnerState :=
  { state with
    execution := outcome.execute step
    root := outcome.root
    records := state.records ++ [recordOf step outcome]
    aborted := outcome.after = .abort }

def RunnerState.pass (state : RunnerState) (step : ExecutionStep) (status : StepRunStatus)
    (message : String) : RunnerState :=
  { state with
    records := state.records ++ [⟨step.id, status, some message, .empty, none⟩]
    cancelled := status = .cancelled || state.cancelled }

def cancelRequested (state : RunnerState) : Runner Bool :=
  if state.cancelled then return true else request RunnerOperation.shouldCancel

def scheduleStep (state : RunnerState) (item : ExecutionStep × Nat) :
    RunnerAttempt RunnerState RunnerState := do
  if state.aborted then
    return state.pass item.1 .blocked "execution aborted after root preflight failure"
  else if ← ExceptT.lift (cancelRequested state) then
    return state.pass item.1 .cancelled "execution cancelled before step scheduling"
  else do
    let ran ← ExceptT.lift (attemptStep plan item.1 item.2 state.execution state.root).run
    let outcome := outcomeOf ran
    let settled := state.settle item.1 outcome
    if outcome.after = .stop then throw settled else return settled

def initialState : RunnerState := ⟨.fromPlan plan, ⟨.notRun, none⟩, [], false, false⟩

def runSteps : RunnerAttempt RunnerState RunnerState :=
  plan.steps.zipIdx.foldlM (scheduleStep plan) (initialState plan)

def stateOf : Except RunnerState RunnerState → RunnerState
  | .ok state | .error state => state

def isUnsuccessful (record : StepRunRecord) : Bool :=
  record.status = .failed || record.status = .blocked || record.status = .cancelled

def finish (state : RunnerState) : ExecutionRunResult :=
  { success := !state.records.any isUnsuccessful
    cancelled := state.cancelled
    totalSteps := plan.steps.length
    steps := state.records }

def refusePlan (failed blocked : String) : ExecutionRunResult :=
  { success := false
    cancelled := false
    totalSteps := plan.steps.length
    steps := plan.steps.zipIdx.map fun item =>
      if item.2 = 0 then ⟨item.1.id, .failed, some failed, .empty, none⟩
      else ⟨item.1.id, .blocked, some blocked, .empty, none⟩ }

def validateSupportedCopyPlan : RunnerAttempt String Unit :=
  plan.steps.forM fun step => do
    let isDir ← issue .hostDirectories
    check (validateSupportedCopyStep isDir plan step)

def validateCopyCommitSnapshotCoverage : RunnerAttempt String Unit := do
  plan.steps.forM fun step => do
    let isDir ← issue .hostDirectories
    check (validateSnapshotStep isDir plan step)
  check (rejectOrphanedSnapshots plan)

def admitCopyPlan : RunnerAttempt String Unit := do
  validateSupportedCopyPlan plan
  validateCopyCommitSnapshotCoverage plan

def admitLocalInputs : RunnerAttempt ExecutionRunResult Unit := do
  match ← issue .admitLocalInputs with
  | some code => throw (refusePlan plan (code ++ ": Local input admission failed.")
      "execution blocked after plan admission failed")
  | none => return

def refuseCopyPlan (message : String) : ExecutionRunResult :=
  refusePlan plan ("invalid_execution_plan: " ++ message)
    "execution blocked after copy review validation failed"

def admitPlan : RunnerAttempt ExecutionRunResult Unit := do
  admitLocalInputs plan
  check ((← ExceptT.lift (admitCopyPlan plan).run).mapError (refuseCopyPlan plan))

def resultOf : Except ExecutionRunResult ExecutionRunResult → ExecutionRunResult
  | .ok result | .error result => result

def runWithProgressAndCancel : Runner ExecutionRunResult := do
  let ended ← ExceptT.run do
    admitPlan plan
    let state ← ExceptT.lift (runSteps plan).run
    return finish plan (stateOf state)
  return resultOf ended

end

end EmuChef.Executor
