import EmuChef.Session.ExecutionReport
import EmuChef.Executor.RunLaw

/-! The actions of a reviewed permission plan on the device, and the warnings that the report of the
execution takes from their results. -/

namespace EmuChef.Executor

open Planner
open Program (Attempt Attempts Runs)

inductive PermissionOperation where
  | grantRuntimePermission (packageName permission : String) (permissionSet : PermissionSetKind)
  | allowAppOp (packageName operation : String) (permissionSet : PermissionSetKind)
  deriving DecidableEq

abbrev PermissionAnswer : PermissionOperation → Type := fun _ => Except DeviceOperationError Unit

abbrev PermissionEvent := Event PermissionOperation PermissionAnswer

section

variable (step : ExecutionStep) (permissionPlan : PermissionPlan)

def permissionOperation (permissionSet : PermissionSetKind) :
    PermissionPlanAction → PermissionOperation
  | .runtimePermission packageName permission _ _ _ =>
      .grantRuntimePermission packageName permission permissionSet
  | .appOp packageName op .allow _ _ _ => .allowAppOp packageName op permissionSet

structure ActionResults where
  results : List Json
  ordinaryFailure : Option DeviceOperationError
  safetyFailure : Option DeviceOperationError

def ActionResults.push (state : ActionResults) (action : PermissionPlanAction) (status : String)
    (message : Option String) : ActionResults :=
  { state with
    results := state.results ++
      [permissionPlanActionResult step permissionPlan action status message] }

def settleAction (state : ActionResults) (action : PermissionPlanAction) :
    Except DeviceOperationError Unit → Except ActionResults ActionResults
  | .ok () => .ok (state.push step permissionPlan action "executed" none)
  | .error error =>
      let failed := state.push step permissionPlan action "failed" (some error.message)
      if error.kind.requiresDeviceFailStop then .error { failed with safetyFailure := some error }
      else .ok { failed with ordinaryFailure := failed.ordinaryFailure.or (some error) }

/-- One round of the loop; it is left with the results so far where the device must not be used. -/
def executeAction (state : ActionResults) (action : PermissionPlanAction) :
    Attempt PermissionOperation PermissionAnswer ActionResults ActionResults := do
  if action.applicability ≠ .applicable then
    return state.push step permissionPlan action "not_applicable" none
  else
    let answer ← ExceptT.lift (Program.request
      (permissionOperation permissionPlan.permissionSet action))
    Program.check (settleAction step permissionPlan state action answer)

def resultsOf : Except ActionResults ActionResults → ActionResults
  | .ok state | .error state => state

def finishActions (state : ActionResults) : Except StepFailure (OrderedMap String RuntimeValue) :=
  let outputs := permissionActionOutputs state.results
  let withOutputs (error : DeviceOperationError) : StepFailure :=
    { StepFailure.ofDevice error with outputs := outputs }
  match state.safetyFailure with
  | some error => .error (withOutputs error)
  | none =>
      if permissionPlan.onFailure = .fail then
        state.ordinaryFailure.elim (.ok outputs) fun error => .error (withOutputs error)
      else .ok outputs

def executePlannedPermissionActions :
    Program PermissionOperation PermissionAnswer
      (Except StepFailure (OrderedMap String RuntimeValue)) := do
  let ended ←
    (permissionPlan.actions.foldlM (executeAction step permissionPlan) ⟨[], none, none⟩).run
  return finishActions permissionPlan (resultsOf ended)

def executeGrantPermissions (plan : ExecutionPlan) :
    Program PermissionOperation PermissionAnswer
      (Except StepFailure (OrderedMap String RuntimeValue)) :=
  match validatedPlanPermissionPlan plan step with
  | .error reason =>
      return .error (.new ("The reviewed permission plan is invalid: " ++ reason ++ "."))
  | .ok (_, permissionPlan) => executePlannedPermissionActions step permissionPlan

end

end EmuChef.Executor

namespace EmuChef.Session

open Planner Executor
open Program (Attempt Attempts Runs)

def callError (event : PermissionEvent) : Option DeviceOperationError :=
  match event.response with
  | .ok () => none
  | .error error => some error

def stopsDevice (event : PermissionEvent) : Bool :=
  (callError event).any fun error => error.kind.requiresDeviceFailStop

def callErrors (events : List PermissionEvent) : List DeviceOperationError :=
  events.filterMap callError

def resultOutputs : Except StepFailure (OrderedMap String RuntimeValue) →
    OrderedMap String RuntimeValue
  | .ok outputs => outputs
  | .error failure => failure.outputs

section

variable (recipeId : Option String) (stepId : String)

def failedActions (results : List Json) : List (String × String) :=
  (results.filter fun action => (action.field? "status").bind Json.asStr = some "failed").map
    fun action =>
      let warning := permissionWarning recipeId stepId action
      (warning.code, warning.message)

theorem failedActions_append (results more : List Json) :
    failedActions recipeId stepId (results ++ more) =
      failedActions recipeId stepId results ++ failedActions recipeId stepId more := by
  simp [failedActions]

theorem collectPermissionWarnings_outputs (results : List Json) :
    (collectPermissionWarnings recipeId stepId (permissionActionOutputs results)).map
        (fun warning => (warning.code, warning.message)) =
      failedActions recipeId stepId results := by
  simp [collectPermissionWarnings, permissionActionOutputs, failedActions, Json.field?,
    Json.asArray]

variable (step : ExecutionStep) (permissionPlan : PermissionPlan) (action : PermissionPlanAction)

theorem failedActions_failed (message : String) : failedActions recipeId stepId
    [permissionPlanActionResult step permissionPlan action "failed" (some message)] =
      [("permission_action_failed", message)] := by
  cases action <;>
    simp [failedActions, permissionPlanActionResult, permissionWarning, Json.asStr, actionDetails,
      List.append_assoc, show Json.optionalField "message" (some (Json.string message)) =
        [("message", .string message)] from rfl]

theorem failedActions_other {status : String} (other : status ≠ "failed")
    (message : Option String) : failedActions recipeId stepId
      [permissionPlanActionResult step permissionPlan action status message] = [] := by
  simp [failedActions, permissionPlanActionResult, Json.field?, Json.asStr, other]

end

section

variable {step : ExecutionStep} {permissionPlan : PermissionPlan} {recipeId : Option String}
  {stepId : String}

def askedFor (permissionPlan : PermissionPlan) (actions : List PermissionPlanAction) :
    List PermissionOperation :=
  (actions.filter fun action => action.applicability = .applicable).map
    (permissionOperation permissionPlan.permissionSet)

/-- The results of the actions passed so far are told by the calls that were made for them. -/
structure ToldByCalls (permissionPlan : PermissionPlan) (recipeId : Option String) (stepId : String)
    (passed : List PermissionPlanAction) (state : ActionResults) (seen : List PermissionEvent) :
    Prop where
  asked : seen.map (·.operation) = askedFor permissionPlan passed
  reported : failedActions recipeId stepId state.results =
    (callErrors seen).map fun error => ("permission_action_failed", error.message)

structure Unstopped (state : ActionResults) (seen : List PermissionEvent) : Prop where
  safe : state.safetyFailure = none
  ordinary : state.ordinaryFailure = (callErrors seen).head?
  calls : ∀ event ∈ seen, stopsDevice event = false

theorem askedFor_append {passed : List PermissionPlanAction} {action : PermissionPlanAction} :
    askedFor permissionPlan (passed ++ [action]) = askedFor permissionPlan passed ++
      if action.applicability = .applicable then
        [permissionOperation permissionPlan.permissionSet action] else [] := by
  by_cases applies : action.applicability = .applicable <;> simp [askedFor, applies]

theorem told_round {passed : List PermissionPlanAction} {action : PermissionPlanAction}
    {state : ActionResults} {seen more : List PermissionEvent}
    {next : Except ActionResults ActionResults}
    (told : ToldByCalls permissionPlan recipeId stepId passed state seen)
    (unstopped : Unstopped state seen)
    (ran : Attempts (executeAction step permissionPlan state action) more next) :
    ToldByCalls permissionPlan recipeId stepId (passed ++ [action]) (resultsOf next)
        (seen ++ more) ∧
      ((∃ after, next = .ok after ∧ Unstopped after (seen ++ more)) ∨
        ∃ after event error, next = .error after ∧ more = [event] ∧
          callError event = some error ∧ stopsDevice event = true ∧
          after.safetyFailure = some error) := by
  unfold executeAction at ran
  by_cases applies : action.applicability = .applicable
  · rw [if_neg (not_not.mpr applies)] at ran
    obtain ⟨answer, rest, checked, rfl⟩ := Program.attempts_request_bind.mp ran
    obtain ⟨rfl, rfl⟩ := Program.attempts_check.mp checked
    have asked (response : Except DeviceOperationError Unit) :
        (seen ++ [(⟨permissionOperation permissionPlan.permissionSet action, response⟩ :
          PermissionEvent)]).map (·.operation) = askedFor permissionPlan (passed ++ [action]) := by
      simp [askedFor_append, applies, told.asked]
    cases answer with
    | ok done =>
        refine ⟨⟨asked _, ?_⟩, .inl ⟨_, rfl, unstopped.safe, ?_, ?_⟩⟩
        · simp [resultsOf, settleAction, ActionResults.push, failedActions_append, told.reported,
            failedActions_other, callErrors, callError]
        · simpa [callErrors, callError, ActionResults.push] using unstopped.ordinary
        · simpa [stopsDevice, callError, or_imp, forall_and] using unstopped.calls
    | error error =>
        have errors (operation : PermissionOperation) :
            callErrors (seen ++ [(⟨operation, .error error⟩ : PermissionEvent)]) =
              callErrors seen ++ [error] := by
          simp [callErrors, callError]
        have reported : failedActions recipeId stepId
            (state.push step permissionPlan action "failed" (some error.message)).results =
              (callErrors seen ++ [error]).map fun error =>
                ("permission_action_failed", error.message) := by
          simp [ActionResults.push, failedActions_append, told.reported, failedActions_failed]
        by_cases stops : error.kind.requiresDeviceFailStop = true
        · rw [settleAction, if_pos stops]
          refine ⟨⟨asked _, ?reported⟩, .inr ⟨_, _, error, rfl, rfl, rfl, ?stopped, rfl⟩⟩
          case reported =>
            rw [errors]
            exact reported
          case stopped => simpa [stopsDevice, callError]
        · rw [settleAction, if_neg stops]
          refine ⟨⟨asked _, ?_⟩, .inl ⟨_, rfl, unstopped.safe, ?_, ?_⟩⟩
          · rw [errors]
            exact reported
          · simp [errors, ActionResults.push, unstopped.ordinary, List.head?_append]
          · simpa [stopsDevice, callError, or_imp, forall_and, stops] using unstopped.calls
  · rw [if_pos applies] at ran
    obtain ⟨rfl, rfl⟩ := Program.attempts_pure.mp ran
    rw [List.append_nil]
    refine ⟨⟨?_, ?_⟩, .inl ⟨_, rfl, unstopped.safe, unstopped.ordinary, unstopped.calls⟩⟩
    · rw [askedFor_append, if_neg applies, List.append_nil, told.asked]
    · simp [resultsOf, ActionResults.push, failedActions_append, told.reported,
        failedActions_other]

/-- What a run of the actions leaves: the calls go through the actions that apply in their order,
and stop only after one that must not be followed by another. -/
structure PermissionRun (permissionPlan : PermissionPlan) (recipeId : Option String)
    (stepId : String) (events : List PermissionEvent)
    (result : Except StepFailure (OrderedMap String RuntimeValue)) : Prop where
  inOrder : events.map (·.operation) <+: askedFor permissionPlan permissionPlan.actions
  complete : (∀ event ∈ events, stopsDevice event = false) →
    events.map (·.operation) = askedFor permissionPlan permissionPlan.actions
  stopsLast : ∀ before event after, events = before ++ event :: after →
    stopsDevice event = true → after = []
  failed : ∀ failure, result = .error failure ↔ ∃ error,
    (if events.any stopsDevice then (callErrors events).getLast?
      else if permissionPlan.onFailure = .fail then (callErrors events).head? else none) =
        some error ∧
      failure = { StepFailure.ofDevice error with outputs := resultOutputs result }
  warned : (collectPermissionWarnings recipeId stepId (resultOutputs result)).map
      (fun warning => (warning.code, warning.message)) =
    (callErrors events).map fun error => ("permission_action_failed", error.message)

theorem resultOutputs_finishActions (state : ActionResults) :
    resultOutputs (finishActions permissionPlan state) = permissionActionOutputs state.results := by
  unfold finishActions
  split
  · rfl
  · split
    · cases state.ordinaryFailure <;> rfl
    · rfl

theorem warned_of_told {passed : List PermissionPlanAction} {state : ActionResults}
    {seen : List PermissionEvent}
    (told : ToldByCalls permissionPlan recipeId stepId passed state seen) :
    (collectPermissionWarnings recipeId stepId
        (resultOutputs (finishActions permissionPlan state))).map
        (fun warning => (warning.code, warning.message)) =
      (callErrors seen).map fun error => ("permission_action_failed", error.message) := by
  rw [resultOutputs_finishActions, collectPermissionWarnings_outputs, told.reported]

theorem executePlannedPermissionActions_run {events : List PermissionEvent}
    {result : Except StepFailure (OrderedMap String RuntimeValue)}
    (ran : Runs (executePlannedPermissionActions step permissionPlan) events result) :
    PermissionRun permissionPlan recipeId stepId events result := by
  obtain ⟨ended, seen, last, looped, finished, rfl⟩ := Program.runs_bind.mp ran
  obtain ⟨rfl, rfl⟩ := Program.runs_pure.mp finished
  rw [List.append_nil]
  have rounds := Program.attempts_foldlM
    (fun passed state seen => ToldByCalls permissionPlan recipeId stepId passed state seen ∧
      Unstopped state seen)
    ⟨⟨rfl, rfl⟩, rfl, rfl, by simp⟩ (by
      rintro passed action rest state seen _ ⟨told, unstopped⟩ more next body
      obtain ⟨toldNext, ⟨after, same, going⟩ | ⟨after, _, _, impossible, _⟩⟩ :=
        told_round told unstopped body
      · cases same
        exact ⟨toldNext, going⟩
      · cases impossible) looped
  rcases rounds with ⟨state, rfl, told, unstopped⟩ |
    ⟨passed, action, rest, state, before, more, stop, split, ⟨told, unstopped⟩, body, rfl, rfl⟩
  · have calm : seen.any stopsDevice = false := by simpa using unstopped.calls
    refine ⟨by simp [told.asked], fun _ => told.asked, ?_, ?_, warned_of_told told⟩
    · rintro earlier event later rfl stops
      rw [unstopped.calls event (by simp)] at stops
      cases stops
    · intro failure
      rw [resultOutputs_finishActions, calm]
      simp only [resultsOf, finishActions, unstopped.safe, unstopped.ordinary]
      by_cases fails : permissionPlan.onFailure = .fail
      · cases first : (callErrors seen).head? <;> simp [fails, eq_comm]
      · simp [fails]
  · obtain ⟨toldNext,
        ⟨_, impossible, _⟩ | ⟨after, event, error, same, rfl, called, stops, safety⟩⟩ :=
      told_round told unstopped body
    · cases impossible
    cases same
    refine ⟨?_, ?_, ?_, ?_, warned_of_told toldNext⟩
    · rw [toldNext.asked, split, List.append_cons passed action rest, askedFor, askedFor,
        List.filter_append (passed ++ [action]), List.map_append]
      exact List.prefix_append _ _
    · intro calm
      rw [calm event (by simp)] at stops
      cases stops
    · intro earlier other later same otherStops
      rcases List.eq_nil_or_concat later with rfl | ⟨between, final, rfl⟩
      · rfl
      · have inside : other ∈ before := by
          have whole : before ++ [event] = earlier ++ other :: between ++ [final] := by
            simpa using same
          simp [(List.append_inj' whole rfl).1]
        rw [unstopped.calls other inside] at otherStops
        cases otherStops
    · intro failure
      have stopped : (before ++ [event]).any stopsDevice = true := by simp [stops]
      have latest : (callErrors (before ++ [event])).getLast? = some error := by
        simp [callErrors, called]
      rw [resultOutputs_finishActions, stopped, if_pos rfl, latest]
      simp [resultsOf, finishActions, safety, eq_comm]

/-- A permission step asks the device for nothing where its plan is not the reviewed one, and else
for the actions that apply, in their order, up to the first that must not be followed by another. -/
theorem executeGrantPermissions_run {plan : ExecutionPlan} {events : List PermissionEvent}
    {result : Except StepFailure (OrderedMap String RuntimeValue)}
    (ran : Runs (executeGrantPermissions step plan) events result) :
    (∃ app permissionPlan, validatedPlanPermissionPlan plan step = .ok (app, permissionPlan) ∧
      PermissionRun permissionPlan recipeId stepId events result) ∨
    ∃ reason, validatedPlanPermissionPlan plan step = .error reason ∧ events = [] ∧
      result = .error (.new ("The reviewed permission plan is invalid: " ++ reason ++ ".")) := by
  unfold executeGrantPermissions at ran
  split at ran
  next reason refused =>
    obtain ⟨rfl, rfl⟩ := Program.runs_pure.mp ran
    exact .inr ⟨reason, refused, rfl, rfl⟩
  next app permissionPlan valid =>
    exact .inl ⟨app, permissionPlan, valid, executePlannedPermissionActions_run ran⟩

end

def grantStep : ExecutionStep :=
  { waitStep "setup/grant" [] with
    typeName := "grant_permissions"
    appId := some "player"
    permissionPlan := some ⟨.elevated, .warn,
      [.runtimePermission "org.player" "android.permission.CAMERA" none none .applicable,
        .appOp "org.player" "MANAGE_EXTERNAL_STORAGE" .allow none none .applicable]⟩ }

def grantPlan : ExecutionPlan := { planOf [grantStep] [] with apps := [⟨"player", "org.player"⟩] }

theorem grantPlan_valid : (validatedPlanPermissionPlan grantPlan grantStep).toOption.map
    (fun checked => (askedFor checked.2 checked.2.actions).length) = some 2 := by
  decide +kernel

/-- A device that refuses the first action is still asked for the second. -/
theorem executeGrantPermissions_run_sample : ∃ events result,
    Runs (executeGrantPermissions grantStep grantPlan) events result ∧ events.length = 2 := by
  obtain ⟨events, result, ran, answered⟩ := Program.exists_runs_answers
    (fun _ => .error ⟨.commandFailed, "denied"⟩ :
      (operation : PermissionOperation) → PermissionAnswer operation)
    (executeGrantPermissions grantStep grantPlan)
  refine ⟨events, result, ran, ?_⟩
  have valid := grantPlan_valid
  obtain ⟨app, permissionPlan, same, told⟩ | ⟨reason, same, _⟩ :=
    @executeGrantPermissions_run grantStep (some "setup") "setup/grant" _ _ _ ran
  · have calm : ∀ event ∈ events, stopsDevice event = false := by
      intro event member
      rw [stopsDevice, callError, answered event member]
      rfl
    rw [← List.length_map (·.operation), told.complete calm]
    simpa [same, Except.toOption] using valid
  · simp [same, Except.toOption] at valid

end EmuChef.Session
