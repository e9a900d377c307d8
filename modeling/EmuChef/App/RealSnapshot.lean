import EmuChef.App.LaunchOffer
import EmuChef.App.ReportText

/-! The snapshot of a real execution that the app shows: statuses, counts and what it says of
changes of a stopped run. -/

namespace EmuChef.App

open EmuChef.Session EmuChef.Executor

structure ReportedIssue where
  code : String
  message : String
  deriving DecidableEq

structure ReportedRecipe where
  recipeId : String
  status : String
  steps : List String
  deriving DecidableEq

structure ReportView where
  status : String
  recipes : List ReportedRecipe
  warnings : List ReportedIssue
  errors : List ReportedIssue

def recipeStatusText : RecipeExecutionStatus → String
  | .pending => "pending"
  | .running => "running"
  | .succeeded => "succeeded"
  | .succeededWithWarnings => "succeeded_with_warnings"
  | .failed => "failed"
  | .blocked => "blocked"
  | .cancelled => "cancelled"

def viewRecipe (recipe : ExecutionRecipeReport) : ReportedRecipe :=
  ⟨recipe.recipeId, recipeStatusText recipe.status,
    recipe.steps.map fun step => stepStatusText step.status⟩

def viewIssue (issue : ExecutionIssue) : ReportedIssue := ⟨issue.code, issue.message⟩

def viewOf (report : ExecutionReport) : ReportView where
  status := statusText report.status
  recipes := report.recipes.map viewRecipe
  warnings := report.warnings.map viewIssue
  errors := report.errors.map viewIssue

/-- The report's Recipes that are not projected yet, by id, and those that are. -/
structure Projecting where
  byId : OrderedMap String ReportedRecipe
  projected : List ReportedRecipe

def takeRetained (state : Projecting) (recipeId : String) : Projecting :=
  match state.byId.get? recipeId with
  | some recipe => ⟨state.byId.erase recipeId, state.projected ++ [recipe]⟩
  | none => state

def takeReported (state : Projecting) (recipe : ReportedRecipe) : Projecting :=
  if state.byId.contains recipe.recipeId then
    ⟨state.byId.erase recipe.recipeId, state.projected ++ [recipe]⟩
  else state

def projectRecipes (retained : List String) (recipes : List ReportedRecipe) : List ReportedRecipe :=
  let byId := OrderedMap.ofList (recipes.map fun recipe => (recipe.recipeId, recipe))
  (recipes.foldl takeReported (retained.foldl takeRetained ⟨byId, []⟩)).projected

def exactSerial (mapping : ExecutionMapping) : String :=
  (asStrAt mapping.review.target ["serial"]).getD ""

def retainedRecipeIds (mapping : ExecutionMapping) : List String :=
  ((arrayAt mapping.review.response ["plan", "recipes"]).getD []).filterMap fun recipe =>
    asStrAt recipe ["id"]

def allowlistedRealString (value : String) (allowed : List String) (fallback : String) : String :=
  (allowed.find? fun word => value = word).getD fallback

def executionWords : List String :=
  ["queued", "running", "succeeded", "succeeded_with_warnings", "failed", "cancelled"]

def recipeWords : List String :=
  ["pending", "running", "succeeded", "succeeded_with_warnings", "failed", "blocked", "cancelled"]

def stepWords : List String :=
  ["pending", "running", "succeeded", "skipped", "failed", "blocked", "cancelled"]

def projectedStatus (serial : String) (allowed : List String) (status : String) : String :=
  allowlistedRealString (redactExactSerial serial status) allowed "pending"

def projectRecipe (serial : String) (recipe : ReportedRecipe) : ReportedRecipe where
  recipeId := recipe.recipeId
  status := projectedStatus serial recipeWords recipe.status
  steps := recipe.steps.map (projectedStatus serial stepWords)

def isTerminalStatus (status : String) : Bool :=
  status = "succeeded" || status = "succeeded_with_warnings" || status = "failed" ||
    status = "cancelled"

def identityMarker : String :=
  "The device identity could not be verified after the operation may have run."

def rootMarker : String :=
  "Root authority could not be confirmed after earlier device changes may have occurred."

/-- How many failed checks a report raises, and whether one says that work came before it. -/
structure ProjectionFacts where
  identityFailures : Nat
  postOperationMarker : Bool
  rootFailures : Nat
  rootMarker : Bool

def isIdentityCode (code : String) : Bool :=
  code = "device_identity_changed" || code = "device_identity_unverified"

def isRootCode (code : String) : Bool :=
  code = "root_authority_revoked" || code = "root_authority_unverified"

def realProjectionFacts (report : ReportView) : ProjectionFacts :=
  let issues := report.errors ++ report.warnings
  { identityFailures := issues.countP fun issue => isIdentityCode issue.code
    postOperationMarker := issues.any fun issue =>
      isIdentityCode issue.code && issue.message = identityMarker
    rootFailures := issues.countP fun issue => isRootCode issue.code
    rootMarker := issues.any fun issue =>
      isRootCode issue.code && issue.message = App.rootMarker }

structure CompletionCounts where
  total : Nat
  completed : Nat
  skipped : Nat
  blocked : Nat
  failed : Nat
  cancelled : Nat
  pending : Nat
  deriving DecidableEq

inductive StepCount where
  | completed
  | skipped
  | blocked
  | failed
  | cancelled
  | pending
  deriving DecidableEq

def countKey (status : String) : StepCount :=
  if status = "succeeded" then .completed
  else if status = "skipped" then .skipped
  else if status = "blocked" then .blocked
  else if status = "failed" then .failed
  else if status = "cancelled" then .cancelled
  else .pending

def countSteps (steps : List String) : CompletionCounts where
  total := steps.length
  completed := steps.countP fun status => countKey status = .completed
  skipped := steps.countP fun status => countKey status = .skipped
  blocked := steps.countP fun status => countKey status = .blocked
  failed := steps.countP fun status => countKey status = .failed
  cancelled := steps.countP fun status => countKey status = .cancelled
  pending := steps.countP fun status => countKey status = .pending

structure CompletionSummary where
  classification : String
  counts : CompletionCounts
  warningCount : Nat
  partialChangesPossible : Bool
  deriving DecidableEq

def classificationOf (status : String) : String :=
  if status = "succeeded" then "success"
  else if status = "succeeded_with_warnings" then "success_with_warnings"
  else if status = "failed" then "failed"
  else if status = "cancelled" then "cancelled"
  else "in_progress"

def completionSummaryWithIdentityState (status : String) (recipes : List ReportedRecipe)
    (warningCount : Nat) (facts : ProjectionFacts) : CompletionSummary :=
  let counts := countSteps (recipes.flatMap (·.steps))
  { classification := classificationOf status
    counts := counts
    warningCount := warningCount
    partialChangesPossible := (status = "failed" || status = "cancelled") &&
      (counts.completed > 0 || counts.failed > facts.identityFailures + facts.rootFailures ||
        facts.postOperationMarker || facts.rootMarker) }

def remediationKind (code : String) : String :=
  if code = "artifact_tls_verification_failed" ∨ code = "artifact_digest_mismatch" ∨
      code = "artifact_size_mismatch" ∨ code = "unknown_artifact_ref" ∨
      code = "missing_capability" ∨ code = "step_conflict" then "review_inputs"
  else if code = "artifact_http_status" ∨ code = "artifact_transport_failed" ∨
      code = "dependency_blocked" ∨ code = "verification_failed" ∨ code = "operation_timed_out" ∨
      code = "device_storage_exhausted" ∨ code = "step_execution_failed" ∨
      code = "optional_permission_failed" then "generate_fresh_plan"
  else if code = "device_offline" ∨ code = "device_unauthorized" ∨ code = "device_disconnected" ∨
      code = "device_transport_lost" ∨ isIdentityCode code then "reconnect_device"
  else if isRootCode code then "requalify_root"
  else if code = "adb_server_unavailable" then "repair_platform_tools"
  else "view_report"

structure TerminalPolicy where
  authorityInvalidated : Bool
  recoveryState : String
  partialChangePresentation : String
  availableControls : List String
  terminalResolution : Option String
  deriving DecidableEq

structure RealSnapshot where
  status : String
  terminal : Bool
  recipes : List ReportedRecipe
  /-- The remediation of each error. -/
  errors : List String
  completion : CompletionSummary
  terminalPolicy : Option TerminalPolicy

def partialChangePresentation (completion : CompletionSummary) : String :=
  if completion.partialChangesPossible = false then "none"
  else if completion.counts.completed > 0 then "possible_partial_change"
  else "indeterminate"

def recoveryOf (snapshot : RealSnapshot) : String × Bool :=
  if snapshot.status = "cancelled" then ("fresh_review_required", false)
  else if snapshot.status = "failed" then
    let remediation := snapshot.errors.head?.getD "view_report"
    if remediation = "reconnect_device" then ("requalification_required", true)
    else if remediation = "requalify_root" then ("root_requalification_required", true)
    else if remediation = "generate_fresh_plan" ∨ remediation = "repair_platform_tools" then
      ("fresh_qualification_required", true)
    else ("fresh_review_required", false)
  else ("none", false)

def terminalPolicyOf (snapshot : RealSnapshot) : TerminalPolicy :=
  let recovery := recoveryOf snapshot
  { authorityInvalidated := recovery.2
    recoveryState := recovery.1
    partialChangePresentation := partialChangePresentation snapshot.completion
    availableControls := ["export_report", "fresh_workflow"] ++
      if snapshot.status = "failed" ∨ snapshot.status = "cancelled" ∨
          snapshot.status = "succeeded_with_warnings" then ["repair_setup"] else []
    terminalResolution := none }

def attachTerminalPolicy (snapshot : RealSnapshot) (launchActionPresent : Bool) : RealSnapshot :=
  if isTerminalStatus snapshot.status then
    let policy := terminalPolicyOf snapshot
    { snapshot with
      terminalPolicy := some
        { policy with
          availableControls := policy.availableControls ++
            if launchActionPresent then ["launch_configured_app"] else [] } }
  else snapshot

def sanitizePolicy (tables : CaseTables) (serial : String) (policy : TerminalPolicy) :
    TerminalPolicy :=
  { policy with
    recoveryState := sanitizedText tables serial policy.recoveryState
    partialChangePresentation := sanitizedText tables serial policy.partialChangePresentation
    availableControls := policy.availableControls.map (sanitizedText tables serial) }

section

variable (tables : CaseTables)

def projectRealSnapshot (mapping : ExecutionMapping) (report : ReportView) : RealSnapshot :=
  let serial := exactSerial mapping
  let status := allowlistedRealString report.status executionWords "running"
  let recipes := (projectRecipes (retainedRecipeIds mapping) report.recipes).map
    (projectRecipe serial)
  let snapshot := attachTerminalPolicy
    { status := status
      terminal := isTerminalStatus status
      recipes := recipes
      errors := report.errors.map fun issue => remediationKind issue.code
      completion := completionSummaryWithIdentityState status recipes report.warnings.length
        (realProjectionFacts report)
      terminalPolicy := none } false
  { snapshot with terminalPolicy := snapshot.terminalPolicy.map (sanitizePolicy tables serial) }

def retainedRealExecutionSnapshot (mapping : ExecutionMapping) (report : ReportView)
    (launchActionPresent : Bool) : RealSnapshot :=
  attachTerminalPolicy (projectRealSnapshot tables mapping report) launchActionPresent

def realExecutionUnavailable : String :=
  "This real-device execution is unavailable. Its outcome is unknown and the device may have been " ++
    "partially changed. Reconnect and generate a new review."

def lostReport : ReportView :=
  ⟨"failed", [], [], [⟨"execution_unavailable", realExecutionUnavailable⟩]⟩

def lostPolicy (policy : TerminalPolicy) : TerminalPolicy :=
  { policy with
    terminalResolution := some "runtime_lost"
    availableControls := ["fresh_workflow"] }

def lostRealExecutionSnapshot : Option ExecutionMapping → RealSnapshot
  | some mapping =>
    let snapshot := projectRealSnapshot tables mapping lostReport
    { snapshot with terminalPolicy := snapshot.terminalPolicy.map lostPolicy }
  | none =>
    { status := "failed"
      terminal := true
      recipes := []
      errors := ["reconnect_device"]
      completion := ⟨"failed", countSteps [], 0, true⟩
      terminalPolicy := some
        ⟨true, "fresh_review_required", "indeterminate", ["fresh_workflow"], some "runtime_lost"⟩ }

end

section

theorem erase_perm {map : OrderedMap String ReportedRecipe} {key : String} {value : ReportedRecipe}
    (held : map.get? key = some value) :
    map.values.Perm (value :: (map.erase key).values) := by
  obtain ⟨before, after, place⟩ := List.append_of_mem (OrderedMap.get?_eq_some.mp held)
  rw [OrderedMap.values, OrderedMap.values, OrderedMap.entries_erase_at place, place,
    List.map_append, List.map_append, List.map_cons]
  exact List.perm_middle

def Projecting.all (state : Projecting) : List ReportedRecipe := state.projected ++ state.byId.values

def Projecting.Keyed (state : Projecting) : Prop :=
  ∀ key recipe, state.byId.get? key = some recipe → recipe.recipeId = key

theorem Projecting.take_perm {state : Projecting} {key : String} {recipe : ReportedRecipe}
    (held : state.byId.get? key = some recipe) :
    (Projecting.all ⟨state.byId.erase key, state.projected ++ [recipe]⟩).Perm state.all := by
  rw [Projecting.all, Projecting.all, List.append_assoc]
  exact ((erase_perm held).symm).append_left state.projected

theorem Projecting.Keyed.erase {state : Projecting} (keyed : state.Keyed) (key : String)
    (projected : List ReportedRecipe) : Projecting.Keyed ⟨state.byId.erase key, projected⟩ := by
  intro other recipe held
  rw [OrderedMap.get?_erase] at held
  split at held
  · cases held
  · exact keyed other recipe held

theorem takeRetained_keeps {state : Projecting} (keyed : state.Keyed) (recipeId : String) :
    (takeRetained state recipeId).all.Perm state.all ∧ (takeRetained state recipeId).Keyed := by
  unfold takeRetained
  split
  · next recipe held => exact ⟨Projecting.take_perm held, keyed.erase recipeId _⟩
  · exact ⟨List.Perm.refl _, keyed⟩

theorem retained_keeps {retained : List String} {state : Projecting} (keyed : state.Keyed) :
    (retained.foldl takeRetained state).all.Perm state.all ∧
      (retained.foldl takeRetained state).Keyed := by
  induction retained generalizing state with
  | nil => exact ⟨List.Perm.refl _, keyed⟩
  | cons recipeId rest ih =>
    obtain ⟨same, still⟩ := takeRetained_keeps keyed recipeId
    obtain ⟨later, last⟩ := ih still
    exact ⟨later.trans same, last⟩

theorem reported_perm {rest : List ReportedRecipe} {state : Projecting} (keyed : state.Keyed)
    (held : ∀ key recipe, state.byId.get? key = some recipe → recipe ∈ rest)
    (distinct : (rest.map (·.recipeId)).Nodup) :
    (rest.foldl takeReported state).projected.Perm state.all := by
  induction rest generalizing state with
  | nil =>
    have none : state.byId.values = [] := by
      rw [OrderedMap.values, List.map_eq_nil_iff, List.eq_nil_iff_forall_not_mem]
      rintro ⟨key, recipe⟩ member
      exact absurd (held key recipe (OrderedMap.get?_eq_some.mpr member)) List.not_mem_nil
    rw [Projecting.all, none, List.append_nil]
    exact List.Perm.refl _
  | cons recipe rest ih =>
    rw [List.map_cons, List.nodup_cons] at distinct
    have others : ∀ other, other ∈ rest → other.recipeId ≠ recipe.recipeId := fun other member same =>
      distinct.1 (List.mem_map.mpr ⟨other, member, same⟩)
    rw [List.foldl_cons, takeReported]
    split
    · next contained =>
      obtain ⟨found, known⟩ := Option.isSome_iff_exists.mp
        (OrderedMap.contains_iff.mp contained)
      have same : found = recipe := by
        rcases List.mem_cons.mp (held _ found known) with rfl | later
        · rfl
        · exact absurd (keyed _ found known) (others found later)
      rw [same] at known
      refine (ih (keyed.erase _ _) (fun key other found => ?_) distinct.2).trans
        (Projecting.take_perm known)
      rw [OrderedMap.get?_erase] at found
      split at found
      · cases found
      · next apart =>
        rcases List.mem_cons.mp (held key other found) with rfl | later
        · exact absurd (keyed key _ found).symm apart
        · exact later
    · next absent =>
      refine ih keyed (fun key other found => ?_) distinct.2
      rcases List.mem_cons.mp (held key other found) with rfl | later
      · rw [← keyed key other found] at found
        exact absurd (OrderedMap.contains_iff.mpr (Option.isSome_iff_exists.mpr ⟨_, found⟩)) absent
      · exact later

theorem projectRecipes_perm {recipes : List ReportedRecipe}
    (distinct : (recipes.map (·.recipeId)).Nodup) (retained : List String) :
    (projectRecipes retained recipes).Perm recipes := by
  have entries : (OrderedMap.ofList (recipes.map fun recipe => (recipe.recipeId, recipe))).entries =
      recipes.map fun recipe => (recipe.recipeId, recipe) :=
    OrderedMap.entries_ofList (by simpa [Function.comp_def] using distinct)
  have keyed : Projecting.Keyed
      ⟨.ofList (recipes.map fun recipe => (recipe.recipeId, recipe)), []⟩ := by
    intro key recipe held
    obtain ⟨_, _, same⟩ := List.mem_map.mp (OrderedMap.mem_of_get?_ofList held)
    cases same
    rfl
  obtain ⟨same, still⟩ := @retained_keeps retained _ keyed
  have whole : Projecting.all ⟨.ofList (recipes.map fun recipe => (recipe.recipeId, recipe)), []⟩ =
      recipes := by
    rw [Projecting.all, OrderedMap.values, entries]
    simp [Function.comp_def]
  rw [whole] at same
  refine (reported_perm still (fun key recipe held => ?_) distinct).trans same
  refine same.subset (List.mem_append_right _ ?_)
  exact List.mem_map.mpr ⟨(key, recipe), OrderedMap.get?_eq_some.mp held, rfl⟩

variable {serial word : String}

theorem allowlisted_eq {value fallback : String} {allowed : List String} (listed : word ∈ allowed)
    (other : word ≠ fallback) :
    allowlistedRealString value allowed fallback = word ↔ value = word := by
  unfold allowlistedRealString
  constructor
  · intro shown
    cases found : allowed.find? fun word => value = word with
    | none =>
      rw [found] at shown
      exact absurd shown.symm other
    | some picked =>
      rw [found] at shown
      obtain rfl : picked = word := shown
      simpa using List.find?_some found
  · rintro rfl
    have found : (allowed.find? fun word => value = word).isSome = true :=
      List.find?_isSome.mpr ⟨value, listed, by simp⟩
    obtain ⟨picked, known⟩ := Option.isSome_iff_exists.mp found
    have same : value = picked := by simpa using List.find?_some known
    rw [known, Option.getD_some, same]

theorem projectedStatus_eq {status : String} {allowed : List String} (listed : word ∈ allowed)
    (other : word ≠ "pending") (plain : '[' ∉ word.toList) :
    projectedStatus serial allowed status = word ↔ status = word ∧ ¬Hides serial word := by
  rw [projectedStatus, allowlisted_eq listed other]
  constructor
  · intro shown
    have whole : ¬Hides serial status := by
      intro hidden
      have mark := redactExactSerial_bracket hidden
      rw [shown] at mark
      exact plain mark
    rw [redactExactSerial_absent whole] at shown
    subst shown
    exact ⟨rfl, whole⟩
  · rintro ⟨rfl, shown⟩
    exact redactExactSerial_absent shown

theorem countKey_completed {status : String} : countKey status = .completed ↔ status = "succeeded" := by
  unfold countKey
  constructor
  · intro counted
    by_contra other
    rw [if_neg other] at counted
    repeat' split at counted
    all_goals cases counted
  · rintro rfl
    rfl

theorem countKey_failed {status : String} : countKey status = .failed ↔ status = "failed" := by
  unfold countKey
  constructor
  · intro counted
    repeat' split at counted
    all_goals first | assumption | cases counted
  · rintro rfl
    decide

theorem count_projected {shown statuses : List String} {key : StepCount} {checks : Nat}
    (same : shown.Perm (statuses.map (projectedStatus serial stepWords))) (listed : word ∈ stepWords)
    (other : word ≠ "pending") (plain : '[' ∉ word.toList)
    (keyed : ∀ status, countKey status = key ↔ status = word) :
    checks < shown.countP (fun status => countKey status = key) ↔
      ¬Hides serial word ∧ checks < statuses.count word := by
  rw [same.countP_eq, List.countP_map]
  by_cases hidden : Hides serial word
  · have none : statuses.countP ((fun status => countKey status = key) ∘
        projectedStatus serial stepWords) = 0 := by
      rw [List.countP_eq_zero]
      intro status _
      simp [keyed, projectedStatus_eq listed other plain, hidden]
    simp [none, hidden]
  · have all : statuses.countP ((fun status => countKey status = key) ∘
        projectedStatus serial stepWords) = statuses.count word := by
      refine List.countP_congr fun status _ => ?_
      simp [keyed, projectedStatus_eq listed other plain, hidden]
    simp [all, hidden]

end

section

variable {tables : CaseTables} {mapping : ExecutionMapping} {report : ReportView}

def reportedSteps (report : ReportView) : List String := report.recipes.flatMap (·.steps)

/-- What makes the flag true in a report of a stopped run: a completed step, a failed step that no
failed check accounts for, or a marker. -/
def ShowsWork (serial : String) (report : ReportView) : Prop :=
  (¬Hides serial "succeeded" ∧ 0 < (reportedSteps report).count "succeeded") ∨
  (¬Hides serial "failed" ∧
    (realProjectionFacts report).identityFailures + (realProjectionFacts report).rootFailures <
      (reportedSteps report).count "failed") ∨
  (realProjectionFacts report).postOperationMarker = true ∨
  (realProjectionFacts report).rootMarker = true

theorem projected_steps (distinct : (report.recipes.map (·.recipeId)).Nodup)
    (retained : List String) (serial : String) :
    (((projectRecipes retained report.recipes).map (projectRecipe serial)).flatMap (·.steps)).Perm
      ((reportedSteps report).map (projectedStatus serial stepWords)) := by
  have spread : ∀ recipes : List ReportedRecipe,
      (recipes.map (projectRecipe serial)).flatMap (·.steps) =
        (recipes.flatMap (·.steps)).map (projectedStatus serial stepWords) := by
    intro recipes
    simp [List.flatMap_map, List.map_flatMap, projectRecipe]
  rw [spread, reportedSteps]
  exact ((projectRecipes_perm distinct retained).flatMap_right _).map _

@[simp] theorem completion_attachTerminalPolicy (snapshot : RealSnapshot) (launch : Bool) :
    (attachTerminalPolicy snapshot launch).completion = snapshot.completion := by
  unfold attachTerminalPolicy
  split
  · rfl
  · rfl

@[simp] theorem status_attachTerminalPolicy (snapshot : RealSnapshot) (launch : Bool) :
    (attachTerminalPolicy snapshot launch).status = snapshot.status := by
  unfold attachTerminalPolicy
  split
  · rfl
  · rfl

theorem stopped_word (stopped : report.status = "failed" ∨ report.status = "cancelled") :
    allowlistedRealString report.status executionWords "running" = report.status := by
  rcases stopped with status | status
  · rw [status]
    decide
  · rw [status]
    decide

theorem status_projectRealSnapshot (stopped : report.status = "failed" ∨ report.status = "cancelled") :
    (projectRealSnapshot tables mapping report).status = report.status := by
  change (attachTerminalPolicy _ false).status = _
  rw [status_attachTerminalPolicy]
  exact stopped_word stopped

/-- Partial changes are announced after a stopped run exactly if it shows work. -/
theorem partialChangesPossible_iff (distinct : (report.recipes.map (·.recipeId)).Nodup)
    (stopped : report.status = "failed" ∨ report.status = "cancelled") :
    (projectRealSnapshot tables mapping report).completion.partialChangesPossible = true ↔
      ShowsWork (exactSerial mapping) report := by
  have steps := projected_steps distinct (retainedRecipeIds mapping) (exactSerial mapping)
  change (attachTerminalPolicy _ false).completion.partialChangesPossible = true ↔ _
  rw [completion_attachTerminalPolicy]
  simp only [completionSummaryWithIdentityState, stopped_word stopped, Bool.and_eq_true,
    Bool.or_eq_true, decide_eq_true_eq, stopped, true_and, gt_iff_lt, ShowsWork, or_assoc]
  exact or_congr
    (count_projected steps (by decide) (by decide) (by decide +kernel) fun _ => countKey_completed)
    (or_congr_left (count_projected steps (by decide) (by decide) (by decide +kernel)
      fun _ => countKey_failed))

theorem presentation_iff {snapshot : RealSnapshot} {launch : Bool}
    (terminal : isTerminalStatus snapshot.status = true) :
    ((attachTerminalPolicy snapshot launch).terminalPolicy.any fun policy =>
        policy.partialChangePresentation = "none") = true ↔
      snapshot.completion.partialChangesPossible = false := by
  rw [attachTerminalPolicy, if_pos terminal]
  simp only [Option.any_some, terminalPolicyOf, partialChangePresentation, decide_eq_true_eq]
  split
  · next denied => simp [denied]
  · next shown =>
    split
    · simp [shown]
    · simp [shown]

end

end EmuChef.App
