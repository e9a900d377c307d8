import EmuChef.Adb.DeviceEvidence
import EmuChef.Executor.RunLaw

/-! What the run records say of a failed identity or root check. -/

namespace EmuChef.Executor

open Planner Program
open Adb (AdbCommandError)

def postOperationIdentityFailureMarker : String :=
  "The device identity could not be verified after the operation may have run."

def rootAuthorityFailureAfterMutationMarker : String :=
  "Root authority could not be confirmed after earlier device changes may have occurred."

def transportError (kind : DeviceOperationKind) : DeviceOperationError where
  kind := kind
  message := match kind with
    | .deviceOffline => "The reviewed device is offline."
    | .deviceUnauthorized => "The reviewed device is unauthorized."
    | .deviceDisconnected => "The reviewed device is disconnected or missing."
    | .adbServerUnavailable => "The local ADB service is unavailable."
    | .transportReset => "The device connection was interrupted during execution."
    | _ => "The device connection was lost during execution."

def identityError (kind : DeviceOperationKind) (phase : IdentityCheckPhase) : DeviceOperationError where
  kind := kind
  message := match phase with
    | .postOperation => postOperationIdentityFailureMarker
    | .preOperation => "The reviewed device identity could not be confirmed."

def resolutionKind (message : String) : DeviceOperationKind :=
  if "android_signing_failed:".toList.isPrefixOf message.toList then .installSigningRejected
  else if "android_version_failed:".toList.isPrefixOf message.toList then .installVersionRejected
  else if "android_install_failed:".toList.isPrefixOf message.toList then .installRejected
  else .other

def mapAdbError : AdbCommandError → DeviceOperationError
  | .timedOut _ => ⟨.timedOut, "The device operation timed out."⟩
  | .commandFailed .. => ⟨.commandFailed, "The ADB command failed."⟩
  | .deviceOffline => transportError .deviceOffline
  | .deviceUnauthorized => transportError .deviceUnauthorized
  | .deviceDisconnected => transportError .deviceDisconnected
  | .deviceStorageExhausted =>
    ⟨.deviceStorageExhausted, "The device ran out of storage during execution."⟩
  | .adbServerUnavailable => transportError .adbServerUnavailable
  | .transportReset => transportError .transportReset
  | .transportFailure => transportError .transportFailure
  | .deviceIdentityChanged phase => identityError (.deviceIdentityChanged phase) phase
  | .deviceIdentityUnverified phase => identityError (.deviceIdentityUnverified phase) phase
  | .processFailed .. =>
    ⟨.processFailed, "The device process failed before a trustworthy result was available."⟩
  | .rootDenied => ⟨.rootDenied, "Root access was denied by the device."⟩
  | .rootUnavailable => ⟨.rootUnavailable, "Root access is unavailable on this device."⟩
  | .rootAuthorityRevoked =>
    ⟨.rootAuthorityRevoked, "Root authority was revoked during execution."⟩
  | .rootAuthorityUnverified =>
    ⟨.rootAuthorityUnverified, "Continued root authority could not be confirmed safely."⟩
  | .resolution message =>
    ⟨resolutionKind message, "The device operation could not be started or completed safely."⟩
  | .rootCheckFailed => ⟨.other, "The device operation could not be started or completed safely."⟩

def isRootFailure (error : AdbCommandError) : Bool :=
  error = .rootAuthorityRevoked || error = .rootAuthorityUnverified

def realAdbError (mutationPrecedes : Bool) (error : AdbCommandError) : DeviceOperationError :=
  if isRootFailure error && mutationPrecedes then
    { mapAdbError error with message := rootAuthorityFailureAfterMutationMarker }
  else mapAdbError error

def copyCommitMessage (reason : Option String) : String :=
  "copy commit did not complete: " ++
    reason.getD "selected destination state is incomplete or uncertain"

section

def isIdentityKind : StepFailureKind → Bool
  | .deviceIdentityChanged _ | .deviceIdentityUnverified _ => true
  | _ => false

def isRootKind : StepFailureKind → Bool
  | .rootAuthorityRevoked | .rootAuthorityUnverified => true
  | _ => false

/-- The failures of a step: one that no check made, the error of a device operation, or a copy commit
that such an error stopped. -/
inductive StepFails (mutated : Prop) : StepFailure → Prop
  | unchecked (failure : StepFailure) :
      (failure.failureKind.any fun kind => isIdentityKind kind || isRootKind kind) = false →
      StepFails mutated failure
  | device (precedes : Bool) (error : AdbCommandError) (outputs : OrderedMap String RuntimeValue) :
      (precedes = true → mutated) →
      StepFails mutated { StepFailure.ofDevice (realAdbError precedes error) with outputs := outputs }
  | copyCommit (error : AdbCommandError) (reason : Option String)
      (outputs : OrderedMap String RuntimeValue) :
      StepFails mutated
        ⟨copyCommitMessage reason, outputs, some (.ofDeviceOperation (mapAdbError error).kind)⟩

def isStepWork : RunnerOperation → Bool
  | .reachRootCheck _ _ | .performStep _ _ => true
  | _ => false

def Answered (mutated : Prop) :
    (operation : RunnerOperation) → RunnerOperation.Response operation → Prop
  | .revalidateRoot, answer => ∀ error, answer = .error error →
      StepFails mutated (.ofDevice error)
  | .packageInstalled _, answer => ∀ error, answer = .error error →
      StepFails mutated (.ofDevice error)
  | .pathExists _, answer => ∀ error, answer = .error error → StepFails mutated (.ofDevice error)
  | .pathIsDir _, answer => ∀ error, answer = .error error → StepFails mutated (.ofDevice error)
  | .reachRootCheck _ _, answer => ∀ failure, answer = .error failure → StepFails mutated failure
  | .performStep _ _, effect => ∀ failure, effect.result = .error failure →
      StepFails mutated failure
  | _, _ => True

variable {mutated : Prop} {plan : ExecutionPlan} {step : ExecutionStep} {root : RootPreflight}

abbrev Fails (mutated : Prop) {α : Type} (part : RunnerAttempt StepFault α) : Prop :=
  Blames (Answered mutated) (fun fault => StepFails mutated fault.failure) (fun _ => True) part

theorem StepFails.new (message : String) : StepFails mutated (.new message) := .unchecked _ rfl

theorem fails_atRoot {α : Type} {answer : Except StepFailure α}
    (fails : ∀ failure, answer = .error failure → StepFails mutated failure) :
    Fails mutated (atRoot root answer) := by
  refine blames_check ?_
  cases answer with
  | error failure => exact fails failure rfl
  | ok value => exact trivial

theorem deviceAnswer_outcome {α : Type} {answer : Except DeviceOperationError α}
    (fails : ∀ error, answer = .error error → StepFails mutated (.ofDevice error)) :
    Outcome (fun fault : StepFault => StepFails mutated fault.failure) (fun _ => True)
      (deviceAnswer root answer) := by
  cases answer with
  | error error => exact fails error rfl
  | ok value => exact trivial

theorem fails_ensureRootPreflight : Fails mutated (ensureRootPreflight root) := by
  refine blames_request fun owns _ => ?_
  cases owns with
  | true => exact blames_pure trivial
  | false =>
    obtain ⟨state, failure⟩ := root
    cases state with
    | granted => exact blames_pure trivial
    | failed message => exact blames_throw (StepFails.new message)
    | notRun =>
      refine blames_request fun answer answered => blames_check ?_
      cases answer with
      | ok value => exact trivial
      | error error => exact answered error rfl

theorem fails_rootForPath {path : String} : Fails mutated (rootForPath root path) := by
  unfold rootForPath
  split
  · exact fails_ensureRootPreflight
  · exact blames_pure trivial

theorem fails_silent {operation : RunnerOperation} {α : Type}
    {next : RunnerOperation.Response operation → RunnerAttempt StepFault α}
    (each : ∀ response, Fails mutated (next response)) :
    Fails mutated (issue operation >>= next) :=
  blames_request fun response _ => each response

theorem fails_pathExistsCondition {path : String} :
    Fails mutated (pathExistsCondition root path) := by
  refine blames_bind fails_rootForPath fun root _ => ?_
  refine blames_request fun answer answered => ?_
  refine blames_bind (blames_check (deviceAnswer_outcome answered)) fun deviceExists _ => ?_
  refine fails_silent fun fake => ?_
  cases fake with
  | true => exact fails_silent fun sandboxExists => blames_pure trivial
  | false => exact blames_pure trivial

theorem fails_fileExistsCondition {path : String} :
    Fails mutated (fileExistsCondition root path) := by
  refine blames_bind fails_rootForPath fun root _ => ?_
  refine blames_request fun answer answered => ?_
  refine blames_bind (blames_check (deviceAnswer_outcome answered)) fun deviceExists _ => ?_
  refine blames_request fun answer answered => ?_
  refine blames_bind (blames_check (deviceAnswer_outcome answered)) fun deviceIsDir _ => ?_
  refine fails_silent fun fake => ?_
  cases fake with
  | true => exact fails_silent fun sandboxIsFile => blames_pure trivial
  | false => exact blames_pure trivial

variable {condition : ExecutionStepCondition}

theorem fails_requiredStringParam {name : String} :
    Fails mutated (atRoot root (requiredStringParam condition name)) := by
  refine fails_atRoot fun failure stopped => ?_
  unfold requiredStringParam at stopped
  split at stopped
  · cases stopped
  · cases stopped
    exact .new _

theorem fails_conditionPackage : Fails mutated (atRoot root (conditionPackage plan condition)) := by
  refine fails_atRoot fun failure stopped => ?_
  unfold conditionPackage at stopped
  split at stopped
  · cases stopped
    exact .new _
  · split at stopped
    · cases stopped
      exact .new _
    · split at stopped
      · cases stopped
        exact .new _
      · cases stopped

theorem fails_evaluateCondition : Fails mutated (evaluateCondition plan root condition) := by
  unfold evaluateCondition
  split
  · refine blames_bind fails_conditionPackage fun packageName _ => ?_
    refine blames_request fun answer answered => ?_
    exact blames_bind (blames_check (deviceAnswer_outcome answered)) fun installed _ =>
      blames_pure trivial
  · exact blames_bind fails_requiredStringParam fun path _ => fails_pathExistsCondition
  · exact blames_bind fails_requiredStringParam fun path _ => fails_fileExistsCondition
  · refine fails_atRoot fun failure stopped => ?_
    cases stopped
    exact .new _

theorem fails_skipIfMatched : Fails mutated (skipIfMatched plan root step) := by
  refine blames_foldlM (fun condition _ found _ => ?_) trivial
  split
  · exact blames_pure trivial
  · exact fails_evaluateCondition

theorem fails_failedVerify : Fails mutated (failedVerify plan root step) :=
  blames_foldlM (fun _ _ _ _ => blames_bind fails_evaluateCondition fun _ _ => blames_pure trivial)
    trivial

end

section

def Kindless {α : Type} (answer : Except StepFailure α) : Prop :=
  ∀ failure, answer = .error failure → failure.failureKind = none

theorem kindless_ok {α : Type} (value : α) : Kindless (.ok value : Except StepFailure α) :=
  fun _ impossible => by cases impossible

theorem kindless_new {α : Type} (message : String) :
    Kindless (.error (.new message) : Except StepFailure α) := by
  intro failure same
  cases same
  rfl

theorem kindless_bind {α β : Type} {answer : Except StepFailure α}
    {next : α → Except StepFailure β} (first : Kindless answer)
    (last : ∀ value, Kindless (next value)) : Kindless (answer >>= next) := by
  intro failure stopped
  cases answer with
  | error stop =>
    cases stopped
    exact first _ rfl
  | ok value => exact last value failure stopped

variable {state : ExecutionState} {refValue : String}

theorem kindless_resolveArtifactField {artifact : ArtifactRuntimeState} {field : String} :
    Kindless (resolveArtifactField refValue artifact field) := by
  unfold resolveArtifactField
  split
  · split
    · exact kindless_ok _
    · exact kindless_new _
  · exact kindless_new _

theorem kindless_resolveArtifactRef {artifactRef : List Char} :
    Kindless (resolveArtifactRef state refValue artifactRef) := by
  unfold resolveArtifactRef
  split
  · exact kindless_new _
  · split
    · exact kindless_new _
    · exact kindless_resolveArtifactField

theorem kindless_resolveStepRef {stepRef : List Char} :
    Kindless (resolveStepRef state refValue stepRef) := by
  unfold resolveStepRef
  split
  · exact kindless_new _
  · split
    · exact kindless_new _
    · unfold resolveStepOutput
      split
      · split
        · exact kindless_ok _
        · exact kindless_new _
      · exact kindless_new _

theorem kindless_resolveRuntimeRef : Kindless (resolveRuntimeRef state refValue) := by
  unfold resolveRuntimeRef
  split
  · unfold resolveInputRef
    split
    · exact kindless_ok _
    · exact kindless_new _
  · split
    · exact kindless_resolveArtifactRef
    · split
      · exact kindless_resolveStepRef
      · exact kindless_new _

theorem kindless_resolveStepParams (params : OrderedMap String ExecutionParamValue) :
    Kindless (resolveStepParams state params) := by
  unfold resolveStepParams
  generalize OrderedMap.empty = resolved
  induction params.entries generalizing resolved with
  | nil => exact kindless_ok _
  | cons entry rest ih =>
    rw [List.foldlM_cons]
    refine kindless_bind (kindless_bind ?_ fun value => kindless_ok _) fun next => ih next
    cases entry.2 with
    | literal value => exact kindless_ok _
    | ref reference => exact kindless_resolveRuntimeRef

end

section

variable {mutated : Prop} {plan : ExecutionPlan} {step : ExecutionStep} {root : RootPreflight}
  {execution : ExecutionState} {index : Nat}

def Blamed (mutated : Prop) (message : Option String) (kind : Option StepFailureKind) : Prop :=
  kind ≠ none → ∃ failure, StepFails mutated failure ∧ failure.failureKind = kind ∧
    message = some failure.message

def StepOutcome.Blamed (mutated : Prop) (outcome : StepOutcome) : Prop :=
  Executor.Blamed mutated outcome.message outcome.failureKind

theorem blamed_kindless {outcome : StepOutcome} (none : outcome.failureKind = none) :
    outcome.Blamed mutated := fun some => absurd none some

theorem blamed_faultOutcome {fault : StepFault} (fails : StepFails mutated fault.failure)
    (outputs : OrderedMap String RuntimeValue) :
    StepOutcome.Blamed mutated { faultOutcome execution fault with outputs := outputs } :=
  fun _ => ⟨fault.failure, fails, rfl, rfl⟩

abbrev Ends (mutated : Prop) {α : Type} (good : α → Prop) (part : RunnerAttempt StepOutcome α) :
    Prop :=
  Blames (Answered mutated) (StepOutcome.Blamed mutated) good part

theorem ends_orOutcome {α : Type} {part : RunnerAttempt StepFault α}
    {outcome : StepFault → StepOutcome} (fails : Fails mutated part)
    (kept : ∀ fault : StepFault, StepFails mutated fault.failure → (outcome fault).Blamed mutated) :
    Ends mutated (fun _ => True) (orOutcome outcome part) := by
  refine trusting_bind fails fun answer known => ?_
  cases answer with
  | error fault => exact kept fault known
  | ok value => exact trivial

theorem ends_prepareRoot : Ends mutated (fun _ => True) (prepareRoot plan step execution root) := by
  refine blames_request fun isDir _ => ?_
  split
  · exact ends_orOutcome fails_ensureRootPreflight fun fault fails =>
      @blamed_faultOutcome mutated execution ⟨fault.failure, _⟩ fails .empty
  · exact blames_pure trivial

theorem ends_skipStep : Ends mutated (fun _ => True) (skipStep plan step index execution root) := by
  refine blames_request fun _ _ => ?_
  refine blames_bind (ends_orOutcome fails_skipIfMatched fun fault fails =>
    blamed_faultOutcome fails .empty) fun found _ => ?_
  split
  · exact blames_throw (blamed_kindless rfl)
  · exact blames_pure trivial

theorem permissionOutcome_kind {outcome : StepOutcome}
    (stopped : permissionOutcome plan step execution root = .error outcome) :
    outcome.failureKind = none := by
  unfold permissionOutcome at stopped
  split at stopped
  · split at stopped
    · cases stopped
      rfl
    · split at stopped
      · cases stopped
      · cases stopped
        rfl
  · cases stopped

theorem ends_admitStep : Ends mutated (fun _ => True) (check (admitStep plan step execution root)) := by
  refine blames_check ?_
  cases admitted : admitStep plan step execution root with
  | ok value => exact trivial
  | error outcome =>
    rcases require_bind_error admitted with ⟨blocked, rfl⟩ | ⟨free, stopped⟩
    · exact blamed_kindless rfl
    · rcases require_bind_error stopped with ⟨missing, rfl⟩ | ⟨enabled, stopped⟩
      · exact blamed_kindless rfl
      · exact blamed_kindless (permissionOutcome_kind stopped)

theorem ends_rejectConflicts :
    Ends mutated (fun _ => True) (check (rejectConflicts plan step execution root)) := by
  refine blames_check ?_
  unfold rejectConflicts Checks.require
  dsimp only
  split
  · exact trivial
  · exact blamed_kindless rfl

theorem fails_resolvedRunStep {params : OrderedMap String Json} :
    Blames (Answered mutated) (fun fault => StepFails mutated fault.failure)
      (fun ran => ∀ failure, ran.result = .error failure → StepFails mutated failure)
      (resolvedRunStep step execution root params) := by
  refine blames_request fun answer answered => ?_
  refine blames_bind (fails_atRoot answered) fun reached _ => ?_
  have rooted : Fails mutated (rootWhen reached root) := by
    unfold rootWhen
    split
    · exact fails_ensureRootPreflight
    · exact blames_pure trivial
  refine blames_bind rooted fun root _ => ?_
  exact blames_request fun effect answered => blames_pure answered

theorem trusting_runStep : Trusting (Answered mutated)
    (fun ran => ∀ failure, ran.result = .error failure → StepFails mutated failure)
    (runStep step execution root) := by
  unfold runStep
  split
  · next failure unresolved =>
    intro stop same
    cases same
    refine .unchecked failure ?_
    rw [kindless_resolveStepParams step.params failure unresolved]
    rfl
  · refine trusting_bind fails_resolvedRunStep fun ended known => ?_
    cases ended with
    | ok ran => exact known
    | error fault =>
      intro failure same
      cases same
      exact known

theorem verifiedOutcome_blamed {ran : StepRun} {outputs : OrderedMap String RuntimeValue}
    {ended : Except StepFault (List String × RootPreflight)}
    (known : Outcome (fun fault => StepFails mutated fault.failure) (fun _ => True) ended) :
    (verifiedOutcome ran outputs ended).Blamed mutated := by
  cases ended with
  | error fault => exact blamed_faultOutcome known _
  | ok found =>
    obtain ⟨failed, root⟩ := found
    cases failed with
    | nil => exact blamed_kindless rfl
    | cons name rest => exact blamed_kindless rfl

theorem trusting_performStep : Trusting (Answered mutated) (StepOutcome.Blamed mutated)
    (performStep plan step index execution root) := by
  refine trusting_request fun _ _ => trusting_bind trusting_runStep fun ran fails => ?_
  split
  · next failure failed =>
    exact @blamed_faultOutcome mutated ran.execution ⟨failure, ran.root⟩ (fails failure failed) _
  · refine trusting_request fun _ _ => trusting_bind fails_failedVerify fun ended known => ?_
    exact verifiedOutcome_blamed known

theorem ends_attemptStep :
    Ends mutated (StepOutcome.Blamed mutated) (attemptStep plan step index execution root) := by
  refine blames_bind ends_admitStep fun _ _ => ?_
  refine blames_bind ends_prepareRoot fun root _ => ?_
  refine blames_bind ends_rejectConflicts fun _ _ => ?_
  refine blames_bind ends_skipStep fun root _ => ?_
  exact blames_lift trusting_performStep

end

section

variable {mutated : Prop} {plan : ExecutionPlan}

def StepRunRecord.Blamed (mutated : Prop) (record : StepRunRecord) : Prop :=
  Executor.Blamed mutated record.message record.failureKind

def RunnerState.Blamed (mutated : Prop) (state : RunnerState) : Prop :=
  ∀ record ∈ state.records, record.Blamed mutated

theorem RunnerState.Blamed.append {state next : RunnerState} {record : StepRunRecord}
    (blamed : state.Blamed mutated) (own : record.Blamed mutated)
    (extends_ : next.records = state.records ++ [record]) : next.Blamed mutated := by
  intro held member
  rw [extends_] at member
  rcases List.mem_append.mp member with old | new
  · exact blamed held old
  · obtain rfl := List.mem_singleton.mp new
    exact own

theorem blames_scheduleStep {state : RunnerState} {item : ExecutionStep × Nat}
    (blamed : state.Blamed mutated) :
    Blames (Answered mutated) (RunnerState.Blamed mutated) (RunnerState.Blamed mutated)
      (scheduleStep plan state item) := by
  unfold scheduleStep
  split
  · exact blames_pure (blamed.append (fun some => absurd rfl some) rfl)
  · have asked : Trusting (Answered mutated) (fun _ => True) (cancelRequested state) := by
      unfold cancelRequested
      split
      · exact trivial
      · exact fun _ _ => trivial
    refine blames_bind (blames_lift asked) fun wanted _ => ?_
    split
    · exact blames_pure (blamed.append (fun some => absurd rfl some) rfl)
    · refine blames_bind (blames_lift ends_attemptStep) fun ran known => ?_
      have own : (outcomeOf ran).Blamed mutated := by
        cases ran with
        | ok outcome => exact known
        | error outcome => exact known
      have settled : (state.settle item.1 (outcomeOf ran)).Blamed mutated :=
        @RunnerState.Blamed.append mutated state _ (recordOf item.1 (outcomeOf ran)) blamed own rfl
      dsimp only
      split
      · exact blames_throw settled
      · exact blames_pure settled

def ExecutionRunResult.Blamed (mutated : Prop) (result : ExecutionRunResult) : Prop :=
  ∀ record ∈ result.steps, record.Blamed mutated

theorem blames_admitPlan : Blames (Answered mutated) (ExecutionRunResult.Blamed mutated)
    (fun _ => True) (admitPlan plan) := by
  refine trusting_of_runs fun events result ran _ => ?_
  cases result with
  | ok value => exact trivial
  | error result =>
    obtain ⟨failed, blocked, rfl⟩ := admitPlan_error ran
    intro record member some
    obtain ⟨item, _, rfl⟩ := List.mem_map.mp member
    refine absurd ?_ some
    split
    · rfl
    · rfl

theorem blames_runSteps : Blames (Answered mutated) (RunnerState.Blamed mutated)
    (RunnerState.Blamed mutated) (runSteps plan) :=
  blames_foldlM (fun _ _ _ blamed => blames_scheduleStep blamed)
    fun _ impossible => nomatch impossible

/-- Over answers that keep their contract, a run blames only what its calls reported. -/
theorem trusting_runWithProgressAndCancel : Trusting (Answered mutated)
    (ExecutionRunResult.Blamed mutated) (runWithProgressAndCancel plan) := by
  refine @trusting_bind _ _ _ _ _
    (Outcome (ExecutionRunResult.Blamed mutated) (ExecutionRunResult.Blamed mutated)) _ _ _ ?_
    fun ended known => ?_
  · refine blames_bind blames_admitPlan fun _ _ => ?_
    refine blames_bind (blames_lift blames_runSteps) fun ended known => blames_pure ?_
    cases ended with
    | ok state => exact known
    | error state => exact known
  · cases ended with
    | ok result => exact known
    | error result => exact known

end

section

variable {mutated : Prop} {error : AdbCommandError}

theorem realAdbError_kind (precedes : Bool) (error : AdbCommandError) :
    (realAdbError precedes error).kind = (mapAdbError error).kind := by
  unfold realAdbError
  split
  · rfl
  · rfl

theorem resolutionKind_unchecked (message : String) :
    (isIdentityKind (.ofDeviceOperation (resolutionKind message)) ||
      isRootKind (.ofDeviceOperation (resolutionKind message))) = false := by
  unfold resolutionKind
  split
  · rfl
  · split
    · rfl
    · split
      · rfl
      · rfl

theorem mapAdbError_ne_rootMarker :
    (mapAdbError error).message ≠ rootAuthorityFailureAfterMutationMarker := by
  unfold rootAuthorityFailureAfterMutationMarker
  cases error with
  | deviceIdentityChanged phase =>
    cases phase <;> simp [mapAdbError, identityError, postOperationIdentityFailureMarker]
  | deviceIdentityUnverified phase =>
    cases phase <;> simp [mapAdbError, identityError, postOperationIdentityFailureMarker]
  | _ => simp [mapAdbError, transportError]

theorem realAdbError_rootMarker {precedes : Bool}
    (marked : (realAdbError precedes error).message = rootAuthorityFailureAfterMutationMarker) :
    precedes = true := by
  unfold realAdbError at marked
  split at marked
  · next root =>
    simp only [Bool.and_eq_true] at root
    exact root.2
  · exact absurd marked mapAdbError_ne_rootMarker

theorem realAdbError_identityMarker {precedes : Bool}
    (identity : isIdentityKind (.ofDeviceOperation (mapAdbError error).kind) = true)
    (marked : (realAdbError precedes error).message = postOperationIdentityFailureMarker) :
    error = .deviceIdentityChanged .postOperation ∨
      error = .deviceIdentityUnverified .postOperation := by
  cases error with
  | deviceIdentityChanged phase =>
    cases phase with
    | preOperation =>
      simp [realAdbError, isRootFailure, mapAdbError, identityError,
        postOperationIdentityFailureMarker] at marked
    | postOperation => exact .inl rfl
  | deviceIdentityUnverified phase =>
    cases phase with
    | preOperation =>
      simp [realAdbError, isRootFailure, mapAdbError, identityError,
        postOperationIdentityFailureMarker] at marked
    | postOperation => exact .inr rfl
  | resolution message =>
    have plain := (Bool.or_eq_false_iff.mp (resolutionKind_unchecked message)).1
    exact absurd (plain.symm.trans identity) Bool.false_ne_true
  | _ => cases identity

theorem copyCommit_letters : "copy commit did not complete: ".toList =
    'c' :: "opy commit did not complete: ".toList := by decide +kernel

theorem copyCommit_starts (text : String) :
    ("copy commit did not complete: " ++ text).toList.head? = some 'c' := by
  rw [String.toList_append, copyCommit_letters, List.cons_append, List.head?_cons]

theorem copyCommitMessage_ne {marker : String} (starts : marker.toList.head? ≠ some 'c')
    (reason : Option String) : copyCommitMessage reason ≠ marker := by
  rintro rfl
  exact starts (copyCommit_starts _)

theorem StepFails.identity {failure : StepFailure} (fails : StepFails mutated failure)
    {kind : StepFailureKind} (failed : failure.failureKind = some kind)
    (identity : isIdentityKind kind = true)
    (marked : failure.message = postOperationIdentityFailureMarker) :
    kind = .deviceIdentityChanged .postOperation ∨ kind = .deviceIdentityUnverified .postOperation := by
  cases fails with
  | unchecked _ plain =>
    rw [failed, Option.any_some, identity] at plain
    cases plain
  | device precedes error outputs before =>
    obtain rfl : StepFailureKind.ofDeviceOperation (realAdbError precedes error).kind = kind :=
      Option.some.inj failed
    rw [realAdbError_kind] at identity ⊢
    rcases realAdbError_identityMarker identity marked with rfl | rfl
    · exact .inl rfl
    · exact .inr rfl
  | copyCommit error reason outputs =>
    exact absurd marked (copyCommitMessage_ne (by decide +kernel) reason)

theorem StepFails.root {failure : StepFailure} (fails : StepFails mutated failure)
    {kind : StepFailureKind} (failed : failure.failureKind = some kind)
    (root : isRootKind kind = true)
    (marked : failure.message = rootAuthorityFailureAfterMutationMarker) : mutated := by
  cases fails with
  | unchecked _ plain =>
    rw [failed, Option.any_some, root, Bool.or_true] at plain
    cases plain
  | device precedes error outputs before => exact before (realAdbError_rootMarker marked)
  | copyCommit error reason outputs =>
    exact absurd marked (copyCommitMessage_ne (by decide +kernel) reason)

end

end EmuChef.Executor
