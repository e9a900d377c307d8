import EmuChef.App.LaunchLaw
import EmuChef.Adb.ShellCommand
import EmuChef.Session.ExecutionReport

/-! The launch that the app offers after a run, and the launch candidate that the backend accepts. -/

namespace EmuChef.App

open EmuChef.Session EmuChef.Planner EmuChef.Executor EmuChef.Adb

def literalText : Option ExecutionParamValue → Option String
  | some (.literal (.string text)) => some text
  | _ => none

def lifecycleTarget (app : ExecutionAppSnapshot) (step : ExecutionStep) :
    Except String (String × Option String) :=
  if isValidPackageId app.packageId = false then .error "app snapshot package is invalid"
  else match literalText (step.params.get? "package_name") with
    | none => .error "concrete package is missing"
    | some packageName =>
      if packageName ≠ app.packageId then
        .error "concrete package differs from the app snapshot"
      else if step.typeName = "launch_app" then
        if step.params.entries.length ≠ 2 then .error "app launch has unexpected parameters"
        else match literalText (step.params.get? "activity") with
          | none => .error "concrete launcher activity is missing"
          | some activity =>
            if isValidConcreteLauncherActivity activity = false then
              .error "concrete launcher activity is invalid"
            else .ok (packageName, some activity)
      else if step.typeName = "force_stop_app" then
        if step.params.entries.length ≠ 1 then .error "app force-stop has unexpected parameters"
        else .ok (packageName, none)
      else .error "step is not an app lifecycle operation"

def validatedPlanLifecycleTarget (plan : ExecutionPlan) (step : ExecutionStep) :
    Except String (String × Option String) :=
  match step.appId with
  | none => .error "app identity is missing"
  | some appId =>
    match plan.apps.filter fun app => app.id = appId with
    | [] => .error "app snapshot is missing"
    | [app] => lifecycleTarget app step
    | _ => .error "app snapshot is ambiguous"

structure LaunchUnavailable where
  message : String
  reason : Option String
  deriving DecidableEq

def succeededSteps (report : ExecutionReport) : List String :=
  (stepsOf report.recipes).filterMap fun step =>
    if step.status = .succeeded then some step.stepId else none

def isLaunched (report : ExecutionReport) (step : ExecutionStep) : Bool :=
  step.typeName = "launch_app" && step.id ∈ succeededSteps report && step.appId.isSome

def addCandidate (report : ExecutionReport) (candidates : List (String × Option String))
    (step : ExecutionStep) : Except LaunchUnavailable (List (String × Option String)) :=
  if isLaunched report step then
    match validatedPlanLifecycleTarget report.reviewedPlan.plan step with
    | .error reason => .error
        ⟨"The retained app launch does not match its reviewed App snapshot.", some reason⟩
    | .ok candidate => .ok (candidates.insert candidate)
  else .ok candidates

def runSucceeded (report : ExecutionReport) : Bool :=
  report.status = .succeeded || report.status = .succeededWithWarnings

def eligibleLaunchCandidate (report : ExecutionReport) :
    Except LaunchUnavailable (String × Option String) :=
  if report.mode = .real ∧ runSucceeded report then
    match report.reviewedPlan.plan.steps.foldlM (addCandidate report) [] with
    | .error unavailable => .error unavailable
    | .ok [candidate] => .ok candidate
    | .ok _ => .error
        ⟨"The retained execution does not establish exactly one safe launch candidate.", none⟩
  else .error ⟨"This execution is not eligible to launch an app.", none⟩

structure AppPresentation where
  name : String
  description : Option String
  category : Option String

def presentedApp (present : ExecutionAppSnapshot → AppPresentation) (app : ExecutionAppSnapshot) :
    Json :=
  let shown := present app
  .object ([("id", .string app.id), ("name", .string shown.name)] ++
    (Json.optionalField "description" (shown.description.map Json.string) ++
      (Json.optionalField "category" (shown.category.map Json.string) ++
        [("package_id", .string app.packageId)])))

def presentedPlan (present : ExecutionAppSnapshot → AppPresentation) (plan : ExecutionPlan) : Json :=
  .object ([("id", .string plan.id)] ++
    (Json.optionalField "apps" (filledArray (plan.apps.map (presentedApp present))) ++
      [("steps", .array (plan.steps.map ExecutionStep.toJson))]))

def statusText : ExecutionStatus → String
  | .running => "running"
  | .succeeded => "succeeded"
  | .succeededWithWarnings => "succeeded_with_warnings"
  | .failed => "failed"
  | .cancelled => "cancelled"

def stepStatusText : StepExecutionStatus → String
  | .pending => "pending"
  | .running => "running"
  | .succeeded => "succeeded"
  | .skipped => "skipped"
  | .failed => "failed"
  | .blocked => "blocked"
  | .cancelled => "cancelled"

def reportedStep (step : ExecutionStepReport) : Json :=
  .object ([("stepId", .string step.stepId), ("recipeId", .string step.recipeId),
    ("status", .string (stepStatusText step.status))] ++
      Json.optionalField "message" (step.message.map Json.string))

def reportedRecipe (recipe : ExecutionRecipeReport) : Json :=
  .object [("recipeId", .string recipe.recipeId), ("steps", .array (recipe.steps.map reportedStep))]

def reportDocument (report : ExecutionReport) : Json :=
  .object [("executionId", .string report.executionId), ("simulated", .bool report.simulated),
    ("status", .string (statusText report.status)),
    ("recipes", .array (report.recipes.map reportedRecipe))]

def pointer? (value : Json) (path : List String) : Option Json :=
  path.foldlM Json.field? value

def asStrAt (value : Json) (path : List String) : Option String :=
  (pointer? value path).bind Json.asStr

def arrayAt (value : Json) (path : List String) : Option (List Json) :=
  (pointer? value path).bind Json.asArray

def heldBool : Json → Option Bool
  | .bool held => some held
  | _ => none

def unlessBlank (text : Option String) : Option String := text.filter fun text => !isBlank text

def succeededStepIds (report : Json) : List String :=
  (((arrayAt report ["recipes"]).getD []).flatMap fun recipe =>
    (arrayAt recipe ["steps"]).getD []).filterMap fun step =>
      if asStrAt step ["status"] = some "succeeded" then asStrAt step ["stepId"] else none

def isFullyQualifiedActivity (activity : String) : Bool :=
  let segments := activity.toList.splitOnP fun letter => letter = '.'
  2 ≤ segments.length && segments.all fun segment => !segment.isEmpty

def stepLabel (step : Json) : String :=
  (unlessBlank (((step.field? "note").or (step.field? "name")).bind Json.asStr)).getD
    "Launch configured app"

/-- The package and activity of a launch step with its only matching App; `none` where the launch
aborts the whole offer. -/
def matchedLaunch (app step : Json) : Option (String × Option String) := do
  let _ ← unlessBlank (asStrAt app ["name"])
  let packageName ← unlessBlank (asStrAt app ["package_id"])
  let stepPackageName ← asStrAt step ["params", "package_name", "value"]
  if stepPackageName ≠ packageName then none
  else
    let launcherActivity ← unlessBlank (asStrAt app ["launcher_activity"])
    let stepActivity ← unlessBlank (asStrAt step ["params", "activity", "value"])
    if !isFullyQualifiedActivity launcherActivity || stepActivity ≠ launcherActivity then none
    else some (packageName, some launcherActivity)

def noteLaunch (apps : List Json) (succeeded : List String)
    (candidates : List ((String × Option String) × String)) (step : Json) :
    Option (List ((String × Option String) × String)) := do
  let stepId ← asStrAt step ["id"]
  if asStrAt step ["type"] ≠ some "launch_app" ∨ stepId ∉ succeeded then some candidates
  else
    let appId ← unlessBlank (asStrAt step ["app_id"])
    match apps.filter fun app => asStrAt app ["id"] = some appId with
    | [app] =>
      let target ← matchedLaunch app step
      if candidates.any fun candidate => candidate.1 = target then some candidates
      else some (candidates ++ [(target, stepLabel step)])
    | _ => none

def eligibleLaunchLabel (mapping : ExecutionMapping) (report : Json) : Option String :=
  if (report.field? "simulated").bind heldBool ≠ some false ∨
      (asStrAt report ["status"] ≠ some "succeeded" ∧
        asStrAt report ["status"] ≠ some "succeeded_with_warnings") then none
  else do
    let apps ← arrayAt mapping.review.response ["plan", "apps"]
    let candidates ← ((arrayAt mapping.review.response ["plan", "steps"]).getD []).foldlM
      (noteLaunch apps (succeededStepIds report)) []
    match candidates with
    | [candidate] => some candidate.2
    | _ => none

section

variable {report : ExecutionReport} {target : String × Option String} {step : ExecutionStep}

theorem lifecycleTarget_activity {app : ExecutionAppSnapshot}
    (launch : step.typeName = "launch_app") (validated : lifecycleTarget app step = .ok target) :
    ∃ activity, target = (app.packageId, some activity) := by
  simp only [lifecycleTarget, if_pos launch] at validated
  split at validated
  · cases validated
  · split at validated
    · cases validated
    · split at validated
      · cases validated
      · next same =>
        split at validated
        · cases validated
        · split at validated
          · cases validated
          · split at validated
            · cases validated
            · obtain rfl := Except.ok.inj validated
              exact ⟨_, by rw [Decidable.of_not_not same]⟩

theorem validatedPlanLifecycleTarget_activity {plan : ExecutionPlan}
    (launch : step.typeName = "launch_app")
    (validated : validatedPlanLifecycleTarget plan step = .ok target) :
    ∃ packageName activity, target = (packageName, some activity) := by
  unfold validatedPlanLifecycleTarget at validated
  split at validated
  · cases validated
  · split at validated
    · cases validated
    · obtain ⟨activity, rfl⟩ := lifecycleTarget_activity launch validated
      exact ⟨_, activity, rfl⟩
    · cases validated

theorem addCandidate_skips (idle : isLaunched report step = false)
    (candidates : List (String × Option String)) :
    addCandidate report candidates step = .ok candidates := by
  rw [addCandidate, if_neg (by simp [idle])]

theorem addCandidate_adds (launched : isLaunched report step = true)
    (validated : validatedPlanLifecycleTarget report.reviewedPlan.plan step = .ok target)
    (candidates : List (String × Option String)) :
    addCandidate report candidates step = .ok (candidates.insert target) := by
  rw [addCandidate, if_pos launched, validated]

theorem addCandidate_ok {candidates after : List (String × Option String)}
    (added : addCandidate report candidates step = .ok after) :
    (isLaunched report step = false ∧ after = candidates) ∨
      (isLaunched report step = true ∧ ∃ target,
        validatedPlanLifecycleTarget report.reviewedPlan.plan step = .ok target ∧
        after = candidates.insert target) := by
  cases launched : isLaunched report step with
  | false =>
    rw [addCandidate_skips launched] at added
    exact .inl ⟨rfl, (Except.ok.inj added).symm⟩
  | true =>
    cases validated : validatedPlanLifecycleTarget report.reviewedPlan.plan step with
    | error reason =>
      rw [addCandidate, if_pos launched, validated] at added
      cases added
    | ok target =>
      rw [addCandidate_adds launched validated] at added
      exact .inr ⟨rfl, target, rfl, (Except.ok.inj added).symm⟩

variable {steps : List ExecutionStep}

theorem foldlM_addCandidate {candidates after : List (String × Option String)}
    (collected : steps.foldlM (addCandidate report) candidates = .ok after) :
    candidates ⊆ after ∧
    (∀ step ∈ steps, isLaunched report step = true → ∃ target ∈ after,
      validatedPlanLifecycleTarget report.reviewedPlan.plan step = .ok target) ∧
    ∀ target ∈ after, target ∈ candidates ∨ ∃ step ∈ steps, isLaunched report step = true := by
  induction steps generalizing candidates with
  | nil =>
    obtain rfl := Except.ok.inj collected
    simp
  | cons step rest ih =>
    rw [List.foldlM_cons] at collected
    cases added : addCandidate report candidates step with
    | error unavailable =>
      rw [added] at collected
      cases collected
    | ok next =>
      rw [added] at collected
      obtain ⟨kept, found, known⟩ := ih collected
      rcases addCandidate_ok added with ⟨idle, rfl⟩ | ⟨launched, target, validated, rfl⟩
      · refine ⟨kept, ?_, ?_⟩
        · intro other member isLaunch
          rcases List.mem_cons.mp member with rfl | later
          · rw [idle] at isLaunch
            cases isLaunch
          · exact found other later isLaunch
        · intro target member
          rcases known target member with before | ⟨other, later, isLaunch⟩
          · exact .inl before
          · exact .inr ⟨other, List.mem_cons_of_mem _ later, isLaunch⟩
      · refine ⟨fun other member => kept (List.mem_insert_of_mem member), ?_, ?_⟩
        · intro other member isLaunch
          rcases List.mem_cons.mp member with rfl | later
          · exact ⟨target, kept List.mem_insert_self, validated⟩
          · exact found other later isLaunch
        · intro other member
          exact .inr ⟨step, List.mem_cons_self, launched⟩

theorem foldlM_addCandidate_shared
    (shared : ∀ step ∈ steps, isLaunched report step = true →
      validatedPlanLifecycleTarget report.reviewedPlan.plan step = .ok target) :
    steps.foldlM (addCandidate report) [target] = .ok [target] := by
  induction steps with
  | nil => rfl
  | cons step rest ih =>
    have later := ih fun other member => shared other (List.mem_cons_of_mem _ member)
    rw [List.foldlM_cons]
    cases launched : isLaunched report step with
    | false =>
      rw [addCandidate_skips launched]
      exact later
    | true =>
      rw [addCandidate_adds launched (shared step List.mem_cons_self launched),
        List.insert_of_mem List.mem_cons_self]
      exact later

theorem foldlM_addCandidate_some
    (shared : ∀ step ∈ steps, isLaunched report step = true →
      validatedPlanLifecycleTarget report.reviewedPlan.plan step = .ok target)
    (launches : ∃ step ∈ steps, isLaunched report step = true) :
    steps.foldlM (addCandidate report) [] = .ok [target] := by
  induction steps with
  | nil =>
    obtain ⟨step, member, -⟩ := launches
    cases member
  | cons step rest ih =>
    have sharedLater : ∀ other ∈ rest, isLaunched report other = true →
        validatedPlanLifecycleTarget report.reviewedPlan.plan other = .ok target :=
      fun other member => shared other (List.mem_cons_of_mem _ member)
    rw [List.foldlM_cons]
    cases launched : isLaunched report step with
    | false =>
      rw [addCandidate_skips launched]
      refine ih sharedLater ?_
      obtain ⟨other, member, isLaunch⟩ := launches
      rcases List.mem_cons.mp member with rfl | later
      · rw [launched] at isLaunch
        cases isLaunch
      · exact ⟨other, later, isLaunch⟩
    | true =>
      rw [addCandidate_adds launched (shared step List.mem_cons_self launched)]
      exact foldlM_addCandidate_shared sharedLater

/-- The run succeeded, and all the launches in it, one at least, launch one reviewed target. -/
structure LaunchesOne (report : ExecutionReport) (target : String × Option String) : Prop where
  real : report.mode = .real
  ended : runSucceeded report = true
  launched : ∃ step ∈ report.reviewedPlan.plan.steps, isLaunched report step = true
  shared : ∀ step ∈ report.reviewedPlan.plan.steps, isLaunched report step = true →
    validatedPlanLifecycleTarget report.reviewedPlan.plan step = .ok target

theorem eligibleLaunchCandidate_iff :
    eligibleLaunchCandidate report = .ok target ↔ LaunchesOne report target := by
  constructor
  · intro accepted
    unfold eligibleLaunchCandidate at accepted
    split_ifs at accepted with finished
    split at accepted
    · cases accepted
    · next candidate collected =>
      obtain rfl := Except.ok.inj accepted
      obtain ⟨-, found, known⟩ := foldlM_addCandidate collected
      refine ⟨finished.1, finished.2, ?_, ?_⟩
      · exact (known candidate List.mem_cons_self).resolve_left List.not_mem_nil
      · intro step member launched
        obtain ⟨other, held, validated⟩ := found step member launched
        obtain rfl := List.mem_singleton.mp held
        exact validated
    · cases accepted
  · intro launches
    rw [eligibleLaunchCandidate, if_pos ⟨launches.real, launches.ended⟩,
      foldlM_addCandidate_some launches.shared launches.launched]

end

section

variable {present : ExecutionAppSnapshot → AppPresentation} {plan : ExecutionPlan}

theorem presentedApp_activity (app : ExecutionAppSnapshot) :
    asStrAt (presentedApp present app) ["launcher_activity"] = none := by
  have absent : (presentedApp present app).field? "launcher_activity" = none := by
    simp [presentedApp]
  simp [asStrAt, pointer?, absent]

theorem matchedLaunch_presented (app : ExecutionAppSnapshot) (step : Json) :
    matchedLaunch (presentedApp present app) step = none := by
  unfold matchedLaunch
  rw [presentedApp_activity]
  cases unlessBlank (asStrAt (presentedApp present app) ["name"]) with
  | none => rfl
  | some name =>
    cases unlessBlank (asStrAt (presentedApp present app) ["package_id"]) with
    | none => rfl
    | some packageName =>
      cases asStrAt step ["params", "package_name", "value"] with
      | none => rfl
      | some stepPackageName =>
        show (if stepPackageName ≠ packageName then none else none) = none
        split_ifs <;> rfl

variable {apps : List ExecutionAppSnapshot}

theorem unpresented_of_filter {selects : Json → Bool} {shown : Json}
    (only : (apps.map (presentedApp present)).filter selects = [shown]) :
    ∃ app, shown = presentedApp present app := by
  have member : shown ∈ (apps.map (presentedApp present)).filter selects := by
    rw [only]
    exact List.mem_cons_self
  obtain ⟨app, -, rfl⟩ := List.mem_map.mp (List.mem_of_mem_filter member)
  exact ⟨app, rfl⟩

theorem noteLaunch_presented {succeeded : List String}
    {candidates after : List ((String × Option String) × String)} {step : Json}
    (noted : noteLaunch (apps.map (presentedApp present)) succeeded candidates step = some after) :
    after = candidates := by
  unfold noteLaunch at noted
  obtain ⟨stepId, -, noted⟩ := Option.bind_eq_some_iff.mp noted
  split at noted
  · exact (Option.some.inj noted).symm
  · obtain ⟨appId, -, noted⟩ := Option.bind_eq_some_iff.mp noted
    split at noted
    · next shown only =>
      obtain ⟨app, rfl⟩ := unpresented_of_filter only
      rw [matchedLaunch_presented] at noted
      cases noted
    · cases noted

theorem foldlM_noteLaunch_presented {succeeded : List String}
    {candidates after : List ((String × Option String) × String)} {steps : List Json}
    (noted : steps.foldlM (noteLaunch (apps.map (presentedApp present)) succeeded) candidates =
      some after) :
    after = candidates := by
  induction steps generalizing candidates with
  | nil => exact (Option.some.inj noted).symm
  | cons step rest ih =>
    rw [List.foldlM_cons] at noted
    obtain ⟨next, first, later⟩ := Option.bind_eq_some_iff.mp noted
    rw [ih later, noteLaunch_presented first]

theorem presentedPlan_apps (present : ExecutionAppSnapshot → AppPresentation)
    (plan : ExecutionPlan) :
    (presentedPlan present plan).field? "apps" =
      filledArray (plan.apps.map (presentedApp present)) := by
  simp [presentedPlan]

theorem eligibleLaunchLabel_presented {mapping : ExecutionMapping}
    (reviewed : mapping.review.response.field? "plan" = some (presentedPlan present plan))
    (report : Json) : eligibleLaunchLabel mapping report = none := by
  apply Option.eq_none_iff_forall_ne_some.mpr
  intro label offered
  unfold eligibleLaunchLabel at offered
  split at offered
  · cases offered
  · obtain ⟨apps, listed, offered⟩ := Option.bind_eq_some_iff.mp offered
    obtain ⟨candidates, collected, offered⟩ := Option.bind_eq_some_iff.mp offered
    have shown : apps = plan.apps.map (presentedApp present) := by
      simp only [arrayAt, pointer?, List.foldlM_cons, List.foldlM_nil, reviewed,
        Option.bind_eq_bind, Option.bind_some, presentedPlan_apps] at listed
      generalize plan.apps.map (presentedApp present) = shown at listed ⊢
      cases shown with
      | nil => cases listed
      | cons first rest => exact (Option.some.inj listed).symm
    rw [shown] at collected
    rw [foldlM_noteLaunch_presented collected] at offered
    cases offered

def LaunchesNameApps (report : ExecutionReport) : Prop :=
  ∀ step ∈ report.reviewedPlan.plan.steps, step.typeName = "launch_app" → step.appId.isSome = true

/-- The run succeeded, every launch of its plan names an App, and the launches that succeeded, one at
least, all launch one reviewed target. -/
def LaunchesOneApp (report : ExecutionReport) : Prop :=
  LaunchesNameApps report ∧ ∃ target, LaunchesOne report target

/-- What the app offers is what the backend launches, and the other way round, and an offer is used
once. -/
structure LaunchContract (mapping : ExecutionMapping) (report : ExecutionReport) : Prop where
  offered : ∀ label, eligibleLaunchLabel mapping (reportDocument report) = some label →
    ∃ packageName activity apps,
      eligibleLaunchCandidate report = .ok (packageName, some activity) ∧
      arrayAt mapping.review.response ["plan", "apps"] = some apps ∧
      ∀ step ∈ report.reviewedPlan.plan.steps, step.typeName = "launch_app" →
        step.id ∈ succeededSteps report →
        validatedPlanLifecycleTarget report.reviewedPlan.plan step =
          .ok (packageName, some activity) ∧
        ∃ app ∈ apps, asStrAt app ["id"] = step.appId ∧
          asStrAt app ["package_id"] = some packageName ∧
          asStrAt app ["launcher_activity"] = some activity
  accepted : LaunchesNameApps report → ∀ packageName activity,
    eligibleLaunchCandidate report = .ok (packageName, some activity) →
    (eligibleLaunchLabel mapping (reportDocument report)).isSome = true
  oneShot : ∀ world, LaunchWorld.Reachable eligibleLaunchLabel world →
    OneShot eligibleLaunchLabel world

theorem LaunchesOne.activity {report : ExecutionReport} {target : String × Option String}
    (launches : LaunchesOne report target) :
    ∃ packageName activity, target = (packageName, some activity) := by
  obtain ⟨step, member, launched⟩ := launches.launched
  have validated := launches.shared step member launched
  simp only [isLaunched, Bool.and_eq_true, decide_eq_true_eq] at launched
  exact validatedPlanLifecycleTarget_activity launched.1.1 validated

theorem not_launchContract {mapping : ExecutionMapping} {report : ExecutionReport}
    (reviewed : mapping.review.response.field? "plan" =
      some (presentedPlan present report.reviewedPlan.plan))
    (launches : LaunchesOneApp report) : ¬LaunchContract mapping report := by
  intro contract
  obtain ⟨named, target, one⟩ := launches
  obtain ⟨packageName, activity, rfl⟩ := one.activity
  have offered := contract.accepted named packageName activity (eligibleLaunchCandidate_iff.mpr one)
  rw [eligibleLaunchLabel_presented reviewed] at offered
  cases offered

/-- For a plan as the backend writes it the app's offer agrees with the backend's exactly where the
run did not launch one App. -/
theorem launchContract_iff {mapping : ExecutionMapping} {report : ExecutionReport}
    (reviewed : mapping.review.response.field? "plan" =
      some (presentedPlan present report.reviewedPlan.plan)) :
    LaunchContract mapping report ↔ ¬LaunchesOneApp report := by
  constructor
  · intro contract launches
    exact not_launchContract reviewed launches contract
  · intro without
    refine ⟨?_, ?_, fun world reached => reached.oneShot⟩
    · intro label offered
      rw [eligibleLaunchLabel_presented reviewed] at offered
      cases offered
    · intro named packageName activity accepted
      exact absurd ⟨named, _, eligibleLaunchCandidate_iff.mp accepted⟩ without

def launchPlan : ExecutionPlan where
  id := "plan"
  apps := [⟨"example-app", "com.example.app"⟩]
  copyCommitSnapshots := []
  runtimeCapabilities := ⟨true, true, true, true, true, true, true, true, none⟩
  inputs := []
  artifacts := []
  steps := [{
    id := "recipe.one/launch"
    recipeRef := "recipe.one"
    appId := some "example-app"
    typeName := "launch_app"
    name := "Launch app"
    note := "Launch configured app"
    dependencies := []
    constraints := ⟨[], []⟩
    permissionPlan := none
    params := .ofList [("package_name", .literal (.string "com.example.app")),
      ("activity", .literal (.string "com.example.app.MainActivity"))]
    skipIf := []
    verify := [] }]

def launchReport : ExecutionReport where
  executionId := "execution"
  reviewedPlan := ⟨launchPlan, ["recipe.one"]⟩
  mode := .real
  status := .succeeded
  latestSequence := 3
  recipes := [⟨"recipe.one", .succeeded,
    [⟨"recipe.one/launch", "recipe.one", .succeeded, none, .empty⟩]⟩]
  warnings := []
  errors := []

def examplePresentation (app : ExecutionAppSnapshot) : AppPresentation := ⟨app.id, none, none⟩

def launchMapping (plan : Json) : ExecutionMapping where
  kind := .real
  publicHandle := 0
  sidecarId := "sidecar"
  reviewHandle := "review"
  review := ⟨.object [("plan", plan)], .null, .null, "digest", "device", none, none, 0, 0⟩

theorem launchReport_launchesOneApp : LaunchesOneApp launchReport := by
  have named : LaunchesNameApps launchReport := by
    unfold LaunchesNameApps
    decide +kernel
  refine ⟨named, ("com.example.app", some "com.example.app.MainActivity"), ?_⟩
  exact ⟨rfl, rfl, by decide +kernel, by decide +kernel⟩

/-- The one launch of the run succeeded, the backend accepts it, and the app does not offer it. -/
theorem launchContract_fails :
    ¬LaunchContract (launchMapping (presentedPlan examplePresentation launchPlan)) launchReport :=
  @not_launchContract examplePresentation _ _ rfl launchReport_launchesOneApp

-- The run with a candidate breaks the contract, the same run keeps it once it failed.
theorem launchContract_iff_failed :
    LaunchesOneApp launchReport ∧
      (LaunchContract (launchMapping (presentedPlan examplePresentation launchPlan)) launchReport ↔
        ¬LaunchesOneApp launchReport) ∧
      LaunchContract (launchMapping (presentedPlan examplePresentation launchPlan))
        { launchReport with status := .failed } := by
  have agrees (status : ExecutionStatus) := @launchContract_iff examplePresentation
    (launchMapping (presentedPlan examplePresentation launchPlan))
    { launchReport with status := status } rfl
  refine ⟨launchReport_launchesOneApp, agrees .succeeded, (agrees .failed).mpr ?_⟩
  rintro ⟨-, target, one⟩
  exact absurd one.ended (by decide)

-- With an activity in the App snapshot the launch would be offered.
example : eligibleLaunchLabel
    (launchMapping (.object [("apps", .array [.object [("id", .string "example-app"),
        ("name", .string "Example App"), ("package_id", .string "com.example.app"),
        ("launcher_activity", .string "com.example.app.MainActivity")]]),
      ("steps", .array (launchPlan.steps.map ExecutionStep.toJson))]))
    (reportDocument launchReport) = some "Launch configured app" := by
  decide +kernel

end

end EmuChef.App
