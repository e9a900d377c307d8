import EmuChef.Executor.Runner

/-! What one step of the loop can do, and how it says that the loop goes on. -/

namespace EmuChef.Executor

open Planner Program

def entered : RunnerEvent → Option (Nat × StepCall)
  | ⟨.enter index stepCall, _⟩ => some (index, stepCall)
  | _ => none

def rootRefused : RunnerEvent → Bool
  | ⟨.revalidateRoot, .error _⟩ => true
  | _ => false

def NoCallAfterRefusal (first later : RunnerEvent) : Prop :=
  rootRefused first = true → entered later = none

def Refused (events : List RunnerEvent) : Prop := ∃ event ∈ events, rootRefused event = true

theorem refused_append {before after : List RunnerEvent} :
    Refused (before ++ after) ↔ Refused before ∨ Refused after := by
  simp only [Refused, List.mem_append, or_and_right, exists_or]

def Silent (events : List RunnerEvent) : Prop := ∀ event ∈ events, entered event = none

theorem silent_append {before after : List RunnerEvent} :
    Silent (before ++ after) ↔ Silent before ∧ Silent after := by
  simp only [Silent, List.mem_append, or_imp, forall_and]

theorem Silent.quiet {events : List RunnerEvent} (silent : Silent events) :
    events.Pairwise NoCallAfterRefusal :=
  List.pairwise_of_forall_mem_list fun _ _ later member _ => silent later member

theorem quiet_of_not_refused {events : List RunnerEvent} (clear : ¬ Refused events) :
    events.Pairwise NoCallAfterRefusal :=
  List.pairwise_of_forall_mem_list fun first member _ _ refused =>
    absurd ⟨first, member, refused⟩ clear

section

variable {α β : Type}

/-- An attempt that makes no call, and that a refusal of the root stops with its message kept. -/
def Calm (attempt : RunnerAttempt StepFault α) : Prop :=
  ∀ events result, Attempts attempt events result →
    Silent events ∧
      (Refused events → ∃ fault, result = .error fault ∧ fault.root.failure.isSome = true)

theorem calm_pure (value : α) : Calm (pure value : RunnerAttempt StepFault α) := by
  intro events result ran
  obtain ⟨rfl, rfl⟩ := attempts_pure.mp ran
  exact ⟨by simp [Silent], by simp [Refused]⟩

theorem calm_check (answer : Except StepFault α) : Calm (check answer) := by
  intro events result ran
  obtain ⟨rfl, rfl⟩ := attempts_check.mp ran
  exact ⟨by simp [Silent], by simp [Refused]⟩

theorem calm_bind {first : RunnerAttempt StepFault α} {next : α → RunnerAttempt StepFault β}
    (before : Calm first) (after : ∀ value, Calm (next value)) : Calm (first >>= next) := by
  intro events result ran
  rcases attempts_bind.mp ran with ⟨fault, stopped, rfl⟩ | ⟨value, seen, more, head, rest, rfl⟩
  · obtain ⟨silent, refused⟩ := before events _ stopped
    refine ⟨silent, fun found => ?_⟩
    obtain ⟨kept, same, failed⟩ := refused found
    cases same
    exact ⟨fault, rfl, failed⟩
  · obtain ⟨silent, refused⟩ := before seen _ head
    obtain ⟨silentMore, refusedMore⟩ := after value more result rest
    refine ⟨silent_append.mpr ⟨silent, silentMore⟩, fun found => ?_⟩
    rcases refused_append.mp found with early | late
    · obtain ⟨_, impossible, _⟩ := refused early
      exact nomatch impossible
    · exact refusedMore late

theorem calm_foldlM {items : List β} {step : α → β → RunnerAttempt StepFault α} {state : α}
    (each : ∀ state item, Calm (step state item)) : Calm (items.foldlM step state) := by
  induction items generalizing state with
  | nil => exact calm_pure state
  | cons item rest ih =>
      rw [List.foldlM_cons]
      exact calm_bind (each state item) fun _ => ih

def isPlain : RunnerOperation → Bool
  | .enter _ _ | .revalidateRoot => false
  | _ => true

theorem plain_event {event : RunnerEvent} (plain : isPlain event.operation = true) :
    entered event = none ∧ rootRefused event = false := by
  obtain ⟨operation, response⟩ := event
  cases operation <;> first | exact ⟨rfl, rfl⟩ | exact nomatch plain

theorem calm_issue {operation : RunnerOperation} (plain : isPlain operation = true) :
    Calm (issue operation) := by
  intro events result ran
  obtain ⟨value, requested, rfl⟩ := attempts_lift.mp ran
  obtain rfl := runs_request.mp requested
  have plainly : entered ⟨operation, value⟩ = none ∧ rootRefused ⟨operation, value⟩ = false :=
    plain_event plain
  exact ⟨by simpa [Silent] using plainly.1, by simp [Refused, plainly.2]⟩

theorem calm_revalidate (root : RootPreflight) :
    Calm (issue .revalidateRoot >>= fun answer => check (revalidated root answer)) := by
  intro events result ran
  rcases attempts_bind.mp ran with ⟨fault, stopped, rfl⟩ | ⟨answer, seen, more, asked, last, rfl⟩
  · obtain ⟨_, _, impossible⟩ := attempts_lift.mp stopped
    exact nomatch impossible
  · obtain ⟨value, requested, same⟩ := attempts_lift.mp asked
    cases same
    obtain rfl := runs_request.mp requested
    obtain ⟨rfl, rfl⟩ := attempts_check.mp last
    refine ⟨by simp [Silent, entered], fun found => ?_⟩
    cases answer with
    | ok granted => simp [Refused, rootRefused] at found
    | error error => exact ⟨_, rfl, rfl⟩

theorem calm_ensureRootPreflight (root : RootPreflight) : Calm (ensureRootPreflight root) := by
  refine calm_bind (calm_issue (by rfl)) fun owns => ?_
  cases owns with
  | true => exact calm_pure root
  | false =>
      cases root.state with
      | granted => exact calm_pure root
      | failed message => exact calm_check (.error ⟨.new message, root⟩)
      | notRun => exact calm_revalidate root

theorem calm_rootForPath (root : RootPreflight) (path : String) : Calm (rootForPath root path) := by
  unfold rootForPath
  split
  · exact calm_ensureRootPreflight root
  · exact calm_pure root

theorem calm_askDevice {operation : RunnerOperation} {next : α → RunnerAttempt StepFault β}
    {read : RunnerOperation.Response operation → Except StepFault α}
    (plain : isPlain operation = true) (after : ∀ value, Calm (next value)) :
    Calm (issue operation >>= fun answer => check (read answer) >>= next) :=
  calm_bind (calm_issue plain) fun _ => calm_bind (calm_check _) after

theorem calm_pathExistsCondition (root : RootPreflight) (path : String) :
    Calm (pathExistsCondition root path) := by
  refine calm_bind (calm_rootForPath root path) fun root => ?_
  refine calm_askDevice (by rfl) fun _ => calm_bind (calm_issue (by rfl)) fun fake => ?_
  cases fake with
  | true => exact calm_bind (calm_issue (by rfl)) fun _ => calm_pure _
  | false => exact calm_pure _

theorem calm_fileExistsCondition (root : RootPreflight) (path : String) :
    Calm (fileExistsCondition root path) := by
  refine calm_bind (calm_rootForPath root path) fun root => ?_
  refine calm_askDevice (by rfl) fun _ => ?_
  refine calm_askDevice (by rfl) fun _ => calm_bind (calm_issue (by rfl)) fun fake => ?_
  cases fake with
  | true => exact calm_bind (calm_issue (by rfl)) fun _ => calm_pure _
  | false => exact calm_pure _

variable (plan : ExecutionPlan)

theorem calm_evaluateCondition (root : RootPreflight) (condition : ExecutionStepCondition) :
    Calm (evaluateCondition plan root condition) := by
  unfold evaluateCondition
  split
  · exact calm_bind (calm_check _) fun _ => calm_askDevice (by rfl) fun _ =>
      calm_pure _
  · exact calm_bind (calm_check _) fun _ => calm_pathExistsCondition root _
  · exact calm_bind (calm_check _) fun _ => calm_fileExistsCondition root _
  · exact calm_check _

theorem calm_skipIfMatched (root : RootPreflight) (step : ExecutionStep) :
    Calm (skipIfMatched plan root step) := by
  refine calm_foldlM fun found condition => ?_
  cases found.1 with
  | true => exact calm_pure _
  | false => exact calm_evaluateCondition plan found.2 condition

theorem calm_failedVerify (root : RootPreflight) (step : ExecutionStep) :
    Calm (failedVerify plan root step) :=
  calm_foldlM fun _ _ => calm_bind (calm_evaluateCondition plan _ _) fun _ => calm_pure _

theorem calm_resolvedRunStep (step : ExecutionStep) (execution : ExecutionState)
    (root : RootPreflight) (params : OrderedMap String Json) :
    Calm (resolvedRunStep step execution root params) := by
  refine calm_bind (calm_issue (by rfl)) fun _ => calm_bind (calm_check _) fun reached => ?_
  refine calm_bind ?_ fun _ => calm_bind (calm_issue (by rfl)) fun _ => calm_pure _
  cases reached with
  | true => exact calm_ensureRootPreflight root
  | false => exact calm_pure root

end

section

variable (plan : ExecutionPlan) (step : ExecutionStep) {root : RootPreflight}
  {events : List RunnerEvent} {outcome : StepOutcome}

theorem resolvedRunStep_steps {execution : ExecutionState} {params : OrderedMap String Json}
    {ran : StepRun}
    (ended : Attempts (resolvedRunStep step execution root params) events (.ok ran)) :
    ran.execution.steps = execution.steps := by
  obtain ⟨_, _, _, _, rest, _⟩ := attempts_bind_finished.mp ended
  obtain ⟨_, _, _, _, rest, _⟩ := attempts_bind_finished.mp rest
  obtain ⟨_, _, _, _, rest, _⟩ := attempts_bind_finished.mp rest
  obtain ⟨effect, _, _, _, rest, _⟩ := attempts_bind_finished.mp rest
  obtain ⟨_, same⟩ := attempts_pure.mp rest
  cases same
  rfl

theorem runStep_calm {execution : ExecutionState} {ran : StepRun}
    (runs : Runs (runStep step execution root) events ran) :
    Silent events ∧
      (Refused events → ran.root.failure.isSome = true ∧ ∃ failure, ran.result = .error failure) ∧
      ran.execution.steps = execution.steps := by
  unfold runStep at runs
  split at runs
  · obtain ⟨rfl, rfl⟩ := runs_pure.mp runs
    exact ⟨by simp [Silent], by simp [Refused], rfl⟩
  · next params _ =>
    obtain ⟨ended, seen, more, body, last, rfl⟩ := runs_bind.mp runs
    obtain ⟨rfl, rfl⟩ := runs_pure.mp last
    obtain ⟨silent, refused⟩ := calm_resolvedRunStep step execution root params seen ended body
    rw [List.append_nil]
    refine ⟨silent, fun found => ?_, ?_⟩
    · obtain ⟨fault, rfl, failed⟩ := refused found
      exact ⟨failed, fault.failure, rfl⟩
    · cases ended with
      | error fault => rfl
      | ok ran => exact resolvedRunStep_steps step body

structure ExitSpec (execution : ExecutionState) (outcome : StepOutcome) : Prop where
  notCancelled : outcome.status ≠ .cancelled
  stopFailed : outcome.after = .stop → outcome.status = .failed
  failStop : outcome.after ≠ .stop →
    outcome.failureKind.any StepFailureKind.requiresDeviceFailStop = false
  kept : outcome.execution.steps = execution.steps

/-- A part of a step: its calls are the step's own, none follows a refusal, and a refusal ends it
with an outcome after which no further step is scheduled. -/
structure Sound (index : Nat) (execution : ExecutionState) (events : List RunnerEvent)
    (outcome : StepOutcome) : Prop extends ExitSpec execution outcome where
  calls : ∀ event ∈ events, ∀ stepCall, entered event = some stepCall → stepCall.1 = index
  quiet : events.Pairwise NoCallAfterRefusal
  refused : Refused events → outcome.after ≠ .proceed

structure Passed (index : Nat) (events : List RunnerEvent) : Prop where
  calls : ∀ event ∈ events, ∀ stepCall, entered event = some stepCall → stepCall.1 = index
  clear : ¬ Refused events

variable {index : Nat} {execution : ExecutionState}

theorem Silent.calls (silent : Silent events) :
    ∀ event ∈ events, ∀ stepCall, entered event = some stepCall → stepCall.1 = index := by
  intro event member stepCall found
  rw [silent event member] at found
  exact nomatch found

theorem Passed.nil : Passed index [] := ⟨by simp, by simp [Refused]⟩

theorem Passed.append {before after : List RunnerEvent} (first : Passed index before)
    (second : Passed index after) : Passed index (before ++ after) where
  calls := by
    intro event member
    rcases List.mem_append.mp member with early | late
    · exact first.calls event early
    · exact second.calls event late
  clear := fun found => (refused_append.mp found).elim first.clear second.clear

theorem Sound.append {before after : List RunnerEvent} (first : Passed index before)
    (rest : Sound index execution after outcome) :
    Sound index execution (before ++ after) outcome where
  toExitSpec := rest.toExitSpec
  calls := by
    intro event member
    rcases List.mem_append.mp member with early | late
    · exact first.calls event early
    · exact rest.calls event late
  quiet := List.pairwise_append.mpr ⟨quiet_of_not_refused first.clear, rest.quiet,
    fun event member _ _ refused => absurd ⟨event, member, refused⟩ first.clear⟩
  refused := fun found => rest.refused ((refused_append.mp found).resolve_left first.clear)

theorem passed_enter (index : Nat) (stepCall : StepCall) : Passed index [⟨.enter index stepCall, ()⟩] where
  calls := by
    intro event member found same
    obtain rfl := List.mem_singleton.mp member
    cases same
    rfl
  clear := by simp [Refused, rootRefused]

theorem Silent.passed (silent : Silent events) (clear : ¬ Refused events) :
    Passed index events := ⟨silent.calls, clear⟩

theorem Silent.sound (silent : Silent events) (exit : ExitSpec execution outcome)
    (refused : Refused events → outcome.after ≠ .proceed) :
    Sound index execution events outcome where
  toExitSpec := exit
  calls := silent.calls
  quiet := silent.quiet
  refused := refused

theorem sound_nil (exit : ExitSpec execution outcome) :
    Sound index execution [] outcome where
  toExitSpec := exit
  calls := by simp
  quiet := .nil
  refused := by simp [Refused]

theorem quietOutcome_exit {status : StepRunStatus} {message : Option String}
    (notCancelled : status ≠ .cancelled) :
    ExitSpec execution (quietOutcome status message execution root) :=
  ⟨notCancelled, fun stops => (nomatch stops), fun _ => rfl, rfl⟩

theorem faultOutcome_exit {ran : ExecutionState} (fault : StepFault)
    (kept : ran.steps = execution.steps) (outputs : OrderedMap String RuntimeValue) :
    ExitSpec execution { faultOutcome ran fault with outputs := outputs } where
  notCancelled := by simp [faultOutcome]
  stopFailed := fun _ => rfl
  failStop := by
    intro goesOn
    by_cases stops : fault.failure.failureKind.any StepFailureKind.requiresDeviceFailStop = true
    · simp [faultOutcome, afterFailure, StepFailure.isFailStop, stops] at goesOn
    · simpa [faultOutcome] using stops
  kept := kept

theorem afterFailure_ne_proceed {failure : StepFailure} (failed : root.failure.isSome = true) :
    afterFailure failure root ≠ .proceed := by
  simp only [afterFailure, failed, if_true]
  split <;> simp

theorem permissionOutcome_exit
    (stopped : permissionOutcome plan step execution root = .error outcome) :
    ExitSpec execution outcome := by
  unfold permissionOutcome at stopped
  split at stopped
  · split at stopped
    · cases stopped
      exact ⟨by simp [quietOutcome], fun _ => rfl, fun _ => rfl, rfl⟩
    · split at stopped
      · exact nomatch stopped
      · cases stopped
        exact ⟨by simp [quietOutcome], fun stops => (nomatch stops), fun _ => rfl, rfl⟩
  · exact nomatch stopped

theorem require_bind_error {α ε : Type} {holds : Prop} [Decidable holds] {stop outcome : ε}
    {next : Unit → Except ε α} (stopped : (Checks.require holds stop >>= next) = .error outcome) :
    (¬ holds ∧ outcome = stop) ∨ (holds ∧ next () = .error outcome) := by
  by_cases passes : holds
  · rw [Checks.require, if_pos passes] at stopped
    exact .inr ⟨passes, stopped⟩
  · refine .inl ⟨passes, ?_⟩
    simp only [Checks.require, passes, if_false] at stopped
    exact (Except.error.inj stopped).symm

theorem admitStep_exit (stopped : admitStep plan step execution root = .error outcome) :
    ExitSpec execution outcome ∧
      (outcome.status = .executed ∨ outcome.status = .skipped →
        blockingDependencies step execution = []) := by
  rcases require_bind_error stopped with ⟨blocked, rfl⟩ | ⟨free, stopped⟩
  · exact ⟨quietOutcome_exit (by simp), by simp [quietOutcome]⟩
  · rcases require_bind_error stopped with ⟨missing, rfl⟩ | ⟨enabled, stopped⟩
    · exact ⟨quietOutcome_exit (by simp), fun _ => free⟩
    · exact ⟨permissionOutcome_exit plan step stopped, fun _ => free⟩

theorem admitStep_ok (passed : admitStep plan step execution root = .ok ()) :
    blockingDependencies step execution = [] ∧ missingCapabilities plan step = [] := by
  obtain ⟨_, free, passed⟩ := Checks.bind_eq_ok.mp passed
  obtain ⟨_, enabled, _⟩ := Checks.bind_eq_ok.mp passed
  exact ⟨Checks.require_eq_ok.mp free, Checks.require_eq_ok.mp enabled⟩

theorem attempts_orOutcome {α : Type} {outcome : StepFault → StepOutcome}
    {part : RunnerAttempt StepFault α} {result : Except StepOutcome α} :
    Attempts (orOutcome outcome part) events result ↔
      ∃ ended, Attempts part events ended ∧ result = ended.mapError outcome := by
  change Runs (part.run >>= fun ended => pure (ended.mapError outcome)) events result ↔ _
  simp only [runs_bind, runs_pure]
  constructor
  · rintro ⟨ended, before, after, ran, ⟨rfl, rfl⟩, rfl⟩
    exact ⟨ended, by simpa [Attempts] using ran, rfl⟩
  · rintro ⟨ended, ran, rfl⟩
    exact ⟨ended, events, [], ran, ⟨rfl, rfl⟩, by simp⟩

theorem calm_orOutcome {α : Type} (index : Nat) {outcome : StepFault → StepOutcome}
    {part : RunnerAttempt StepFault α} (calm : Calm part)
    (exit : ∀ fault, ExitSpec execution (outcome fault))
    (after : ∀ fault, fault.root.failure.isSome = true → (outcome fault).after ≠ .proceed)
    {result : Except StepOutcome α} (ran : Attempts (orOutcome outcome part) events result) :
    (∃ ended, result = .error ended ∧ Sound index execution events ended) ∨
      ∃ value, result = .ok value ∧ Passed index events := by
  obtain ⟨ended, body, rfl⟩ := attempts_orOutcome.mp ran
  obtain ⟨silent, refused⟩ := calm events ended body
  cases ended with
  | error fault =>
      refine .inl ⟨outcome fault, rfl, silent.sound (exit fault) fun found => ?_⟩
      obtain ⟨same, equal, failed⟩ := refused found
      cases equal
      exact after fault failed
  | ok value =>
      refine .inr ⟨value, rfl, silent.passed fun found => ?_⟩
      obtain ⟨_, impossible, _⟩ := refused found
      exact nomatch impossible

theorem sound_prepareRoot {result : Except StepOutcome RootPreflight}
    (ran : Attempts (prepareRoot plan step execution root) events result) :
    (∃ ended, result = .error ended ∧ Sound index execution events ended) ∨
      ∃ value, result = .ok value ∧ Passed index events := by
  obtain ⟨isDir, after, rest, rfl⟩ := attempts_request_bind.mp ran
  have first : Passed index [(⟨.hostDirectories, isDir⟩ : RunnerEvent)] :=
    Silent.passed (by simp [Silent, entered]) (by simp [Refused, rootRefused])
  by_cases needed : (planStepRootRequirements isDir plan step).any = true
  · rw [if_pos needed] at rest
    rcases calm_orOutcome index (calm_ensureRootPreflight root)
      (fun fault => faultOutcome_exit ⟨fault.failure, _⟩ rfl .empty)
      (fun fault _ => afterFailure_ne_proceed rfl) rest with ⟨ended, rfl, sound⟩ | ⟨value, rfl, passed⟩
    · exact .inl ⟨ended, rfl, .append first sound⟩
    · exact .inr ⟨value, rfl, first.append passed⟩
  · rw [if_neg needed] at rest
    obtain ⟨rfl, rfl⟩ := attempts_pure.mp rest
    exact .inr ⟨root, rfl, first⟩

theorem sound_skipStep {result : Except StepOutcome RootPreflight}
    (ran : Attempts (skipStep plan step index execution root) events result) :
    (∃ ended, result = .error ended ∧ Sound index execution events ended) ∨
      ∃ value, result = .ok value ∧ Passed index events := by
  obtain ⟨_, after, rest, rfl⟩ := attempts_request_bind.mp ran
  have first := passed_enter index .skipIf
  have matching {events} {result : Except StepOutcome (Bool × RootPreflight)}
      (body : Attempts (orOutcome (faultOutcome execution) (skipIfMatched plan root step))
        events result) :=
    calm_orOutcome index (calm_skipIfMatched plan root step)
      (fun fault => faultOutcome_exit fault rfl .empty) (fun _ => afterFailure_ne_proceed) body
  rcases attempts_bind.mp rest with ⟨ended, stopped, rfl⟩ | ⟨found, seen, more, body, last, rfl⟩
  · rcases matching stopped with ⟨_, same, sound⟩ | ⟨_, impossible, _⟩
    · cases same
      exact .inl ⟨ended, rfl, .append first sound⟩
    · exact nomatch impossible
  · rcases matching body with ⟨_, impossible, _⟩ | ⟨_, _, passed⟩
    · exact nomatch impossible
    · by_cases matched : found.1 = true
      · rw [if_pos matched] at last
        obtain ⟨rfl, rfl⟩ := attempts_throw.mp last
        exact .inl ⟨_, rfl, .append first (.append passed (sound_nil (quietOutcome_exit nofun)))⟩
      · rw [if_neg matched] at last
        obtain ⟨rfl, rfl⟩ := attempts_pure.mp last
        exact .inr ⟨_, rfl, first.append (passed.append .nil)⟩

theorem afterSuccess_ne_stop (root : RootPreflight) : afterSuccess root ≠ .stop := by
  unfold afterSuccess
  split <;> simp

theorem verifiedOutcome_exit {ran : StepRun} (kept : ran.execution.steps = execution.steps)
    (outputs : OrderedMap String RuntimeValue)
    (ended : Except StepFault (List String × RootPreflight)) :
    ExitSpec execution (verifiedOutcome ran outputs ended) := by
  cases ended with
  | error fault => exact faultOutcome_exit fault kept _
  | ok found =>
      obtain ⟨failed, root⟩ := found
      cases failed with
      | nil => exact ⟨nofun, fun stops => absurd stops (afterSuccess_ne_stop root),
          fun _ => rfl, kept⟩
      | cons name rest => exact ⟨nofun, fun _ => rfl, fun _ => rfl, kept⟩

theorem sound_performStep
    (ran : Runs (performStep plan step index execution root) events outcome) :
    Sound index execution events outcome := by
  obtain ⟨_, after, rest, rfl⟩ := runs_request_bind.mp ran
  refine Sound.append (passed_enter index .runStep) ?_
  obtain ⟨stepRun, seen, more, body, last, rfl⟩ := runs_bind.mp rest
  obtain ⟨silent, refused, kept⟩ := runStep_calm step body
  cases result : stepRun.result with
  | error failure =>
      simp only [result] at last
      obtain ⟨rfl, rfl⟩ := runs_pure.mp last
      rw [List.append_nil]
      exact silent.sound (faultOutcome_exit _ kept _) fun found =>
        afterFailure_ne_proceed (refused found).1
  | ok outputs =>
      simp only [result] at last
      have clear : ¬ Refused seen := by
        intro found
        obtain ⟨_, failure, failed⟩ := refused found
        rw [result] at failed
        exact nomatch failed
      refine Sound.append (silent.passed clear) ?_
      obtain ⟨_, checks, verified, rfl⟩ := runs_request_bind.mp last
      refine Sound.append (passed_enter index .verify) ?_
      obtain ⟨ended, seen, more, body, closed, rfl⟩ := runs_bind.mp verified
      obtain ⟨rfl, rfl⟩ := runs_pure.mp closed
      obtain ⟨silent, refused⟩ := calm_failedVerify plan stepRun.root step _ _ body
      rw [List.append_nil]
      refine silent.sound (verifiedOutcome_exit kept outputs ended) fun found => ?_
      obtain ⟨fault, rfl, failed⟩ := refused found
      exact afterFailure_ne_proceed failed

theorem sound_bind {α : Type} {part : RunnerAttempt StepOutcome α}
    {next : α → RunnerAttempt StepOutcome StepOutcome} {result : Except StepOutcome StepOutcome}
    (ran : Attempts (part >>= next) events result)
    (first : ∀ events result, Attempts part events result →
      (∃ ended, result = .error ended ∧ Sound index execution events ended) ∨
        ∃ value, result = .ok value ∧ Passed index events)
    (last : ∀ value events result, Attempts (next value) events result →
      Sound index execution events (outcomeOf result)) :
    Sound index execution events (outcomeOf result) := by
  rcases attempts_bind.mp ran with ⟨ended, stopped, rfl⟩ | ⟨value, before, after, head, rest, rfl⟩
  · rcases first _ _ stopped with ⟨_, same, sound⟩ | ⟨_, impossible, _⟩
    · cases same
      exact sound
    · exact nomatch impossible
  · rcases first _ _ head with ⟨_, impossible, _⟩ | ⟨_, _, passed⟩
    · exact nomatch impossible
    · exact .append passed (last value after result rest)

theorem sound_rejectConflicts {result : Except StepOutcome Unit}
    (ran : Attempts (check (rejectConflicts plan step execution root)) events result) :
    (∃ ended, result = .error ended ∧ Sound index execution events ended) ∨
      ∃ value, result = .ok value ∧ Passed index events := by
  obtain ⟨rfl, rfl⟩ := attempts_check.mp ran
  by_cases free : activeConflicts plan step = []
  · exact .inr ⟨(), by simp [rejectConflicts, free], .nil⟩
  · exact .inl ⟨_, if_neg free, sound_nil (quietOutcome_exit nofun)⟩

/-- A step acts only with its dependencies succeeded and its capabilities there. -/
theorem sound_attemptStep {result : Except StepOutcome StepOutcome}
    (ran : Attempts (attemptStep plan step index execution root) events result) :
    Sound index execution events (outcomeOf result) ∧
      ((outcomeOf result).status = .executed ∨ (outcomeOf result).status = .skipped →
        blockingDependencies step execution = []) ∧
      (¬ Silent events →
        blockingDependencies step execution = [] ∧ missingCapabilities plan step = []) := by
  rcases attempts_check_bind.mp ran with ⟨ended, stopped, rfl, rfl⟩ | ⟨_, admitted, rest⟩
  · obtain ⟨exit, done⟩ := admitStep_exit plan step stopped
    exact ⟨sound_nil exit, done, fun loud => absurd (by simp [Silent]) loud⟩
  obtain ⟨free, enabled⟩ := admitStep_ok plan step admitted
  refine ⟨?_, fun _ => free, fun _ => ⟨free, enabled⟩⟩
  refine sound_bind rest (fun _ _ => sound_prepareRoot plan step) fun root _ _ rest => ?_
  refine sound_bind rest (fun _ _ => sound_rejectConflicts plan step) fun _ _ _ rest => ?_
  refine sound_bind rest (fun _ _ => sound_skipStep plan step) fun root _ _ rest => ?_
  obtain ⟨outcome, performed, rfl⟩ := attempts_lift.mp rest
  exact sound_performStep plan step performed

end

end EmuChef.Executor
