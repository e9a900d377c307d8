import EmuChef.Planner.Contracts
import EmuChef.Planner.ExecutionPlan
import EmuChef.Planner.Usage

/-! The permission steps of Apps: their contracts, and the permission plans that they resolve to. -/

namespace EmuChef.Planner

open Authored (AppDefinition AppPermissionSet AppPermissionSets)

def isAppPermissionStep (step : Authored.Step) : Bool :=
  step.typeName = "grant_permissions" && (step.appRef.isSome || step.params.contains "permission_set")

def permissionAppRefRequiredMessage (recipeId : String) (step : Authored.Step) : PlannerMessage :=
  { code := "permission_app_ref_required"
    message := "App-aware permission step '" ++ step.id ++
      "' must select an App Definition with app_ref."
    details := .object [("recipe_ref", .string recipeId), ("step_id", .string step.id),
      ("param", .string "app_ref")] }

def validateAppPermissionStepContracts (recipes : OrderedMap String Authored.Recipe)
    (expandedRecipeRefs : List String) : List PlannerMessage :=
  (expandedSteps recipes expandedRecipeRefs).flatMap fun (recipeId, _, step) =>
    if isAppPermissionStep step then
      (if step.appRef.isNone then [permissionAppRefRequiredMessage recipeId step] else []) ++
        validateParamContract recipes recipeId step
    else []

section

variable (androidApiLevel : Option Int) (recipeId : String) (step : Authored.Step)
  (app : AppDefinition)

def permissionPlanningMessage (code message : String) (details : List (String × Json)) :
    PlannerMessage :=
  ⟨code, message,
    .object (details ++ [("recipe_ref", .string recipeId), ("step_id", .string step.id)])⟩

def permissionActionApplicability (androidApiMin androidApiMax : Option Int) :
    Option PermissionActionApplicability :=
  if androidApiMin = none ∧ androidApiMax = none then some .applicable
  else
    androidApiLevel.map fun actual =>
      match androidApiMin.filter (actual < ·) with
      | some minimum => .notApplicable (.androidApiBelowMinimum actual minimum)
      | none =>
          match androidApiMax.filter (· < actual) with
          | some maximum => .notApplicable (.androidApiAboveMaximum actual maximum)
          | none => .applicable

def plannedAction (androidApiMin androidApiMax : Option Int)
    (build : PermissionActionApplicability → PermissionPlanAction) (failure : PlannerMessage) :
    PermissionPlanAction ⊕ PlannerMessage :=
  match permissionActionApplicability androidApiLevel androidApiMin androidApiMax with
  | some applicability => .inl (build applicability)
  | none => .inr failure

def permissionSetName : PermissionSetKind → String
  | .baseline => "baseline"
  | .elevated => "elevated"

def optionalInteger : Option Int → Json
  | some value => .integer value
  | none => .null

def apiLevelUnknownMessage (kind : PermissionSetKind) (what sourceSection : String) (index : Nat)
    (named : String × String) (androidApiMin androidApiMax : Option Int) : PlannerMessage :=
  permissionPlanningMessage recipeId step "permission_api_level_unknown"
    ("Permission step '" ++ step.id ++ "' cannot resolve " ++ what ++ " '" ++ named.2 ++
      "' because the Android API level is unknown; provide the API level or remove the action's " ++
      "API bounds.")
    [("app_ref", .string (step.appRef.getD "")),
      ("permission_set", .string (permissionSetName kind)),
      ("source_section", .string sourceSection), ("action_index", .integer index),
      (named.1, .string named.2), ("android_api_min", optionalInteger androidApiMin),
      ("android_api_max", optionalInteger androidApiMax)]

def plannedActions (kind : PermissionSetKind) (permissionSet : AppPermissionSet) :
    List (PermissionPlanAction ⊕ PlannerMessage) :=
  permissionSet.runtime.zipIdx.map (fun (action, index) =>
    plannedAction androidApiLevel action.androidApiMin action.androidApiMax
      (.runtimePermission app.packageId action.permission action.androidApiMin action.androidApiMax)
      (apiLevelUnknownMessage recipeId step kind "runtime action" "runtime" index
        ("permission", action.permission) action.androidApiMin action.androidApiMax)) ++
  permissionSet.appOps.zipIdx.map fun (action, index) =>
    plannedAction androidApiLevel action.androidApiMin action.androidApiMax
      (.appOp app.packageId action.op .allow action.androidApiMin action.androidApiMax)
      (apiLevelUnknownMessage recipeId step kind "app-op" "app_ops" index ("op", action.op)
        action.androidApiMin action.androidApiMax)

def authoredPermissionSet : Except PlannerMessage PermissionSetKind :=
  match step.params.get? "permission_set" with
  | some (.literal (.string "baseline")) => .ok .baseline
  | some (.literal (.string "elevated")) => .ok .elevated
  | some (.literal (.string value)) =>
      .error (permissionPlanningMessage recipeId step "permission_set_unknown"
        ("Permission step '" ++ step.id ++ "' selects unknown set '" ++ value ++
          "'; choose baseline or elevated.") [("permission_set", .string value)])
  | _ => .error (permissionPlanningMessage recipeId step "permission_set_required"
      ("Permission step '" ++ step.id ++ "' must select the literal set baseline or elevated.")
      [("param", .string "permission_set")])

def permissionSetMissing (kind : PermissionSetKind) (message : String) : PlannerMessage :=
  permissionPlanningMessage recipeId step "permission_set_missing" message
    [("app_ref", .string (step.appRef.getD "")), ("permission_set", .string (permissionSetName kind))]

def permissionSetOf (sets : AppPermissionSets) : PermissionSetKind → Option AppPermissionSet
  | .baseline => sets.baseline
  | .elevated => sets.elevated

def selectedPermissionSet (kind : PermissionSetKind) : Except PlannerMessage AppPermissionSet :=
  match app.permissionSets with
  | none => .error (permissionSetMissing recipeId step kind
      ("App Definition '" ++ app.id ++ "' does not define a permission set; add the selected set " ++
        "or choose an app that provides it."))
  | some sets =>
      match permissionSetOf sets kind with
      | some permissionSet => .ok permissionSet
      | none => .error (permissionSetMissing recipeId step kind
          ("App Definition '" ++ app.id ++ "' has no '" ++ permissionSetName kind ++
            "' permission set; add it or select a set that exists."))

def authoredFailurePolicy : Except PlannerMessage PermissionFailurePolicy :=
  let missing := permissionPlanningMessage recipeId step "permission_failure_policy_required"
    ("Permission step '" ++ step.id ++ "' must set policy.on_failure to warn or fail.")
  match step.params.get? "policy" with
  | some (.literal (.object policy)) =>
      match ((Json.object policy).field? "on_failure").bind Json.asStr with
      | some "warn" => .ok .warn
      | some "fail" => .ok .fail
      | _ => .error (missing [("param", .string "policy.on_failure")])
  | _ => .error (missing [("param", .string "policy.on_failure")])

def permissionPlanOf : Except (List PlannerMessage) PermissionPlan := do
  let kind ← (authoredPermissionSet recipeId step).mapError (fun failure => [failure])
  let permissionSet ← (selectedPermissionSet recipeId step app kind).mapError (fun failure => [failure])
  let onFailure ← (authoredFailurePolicy recipeId step).mapError (fun failure => [failure])
  let actions := plannedActions androidApiLevel recipeId step app kind permissionSet
  let failures := actions.filterMap Sum.getRight?
  if failures = [] then return ⟨kind, onFailure, actions.filterMap Sum.getLeft?⟩
  else throw failures

end

section

variable (recipes : OrderedMap String Authored.Recipe) (expandedRecipeRefs : List String)
  (apps : OrderedMap String AppDefinition) (androidApiLevel : Option Int)

def permissionResults : List (String × Except (List PlannerMessage) PermissionPlan) :=
  (expandedSteps recipes expandedRecipeRefs).filterMap fun (recipeId, _, step) =>
    if isAppPermissionStep step then
      (stepApp apps step).map fun app =>
        (makeExecutionStepId recipeId step.id, permissionPlanOf androidApiLevel recipeId step app)
    else none

def permissionErrors (result : String × Except (List PlannerMessage) PermissionPlan) :
    List PlannerMessage :=
  match result.2 with
  | .ok _ => []
  | .error errors => errors

def resolveAppPermissionPlans : Except (List PlannerMessage) (OrderedMap String PermissionPlan) :=
  let results := permissionResults recipes expandedRecipeRefs apps androidApiLevel
  let errors := results.flatMap permissionErrors
  if errors = [] then
    .ok (.ofList (results.filterMap fun result => result.2.toOption.map (result.1, ·)))
  else .error errors

def permissionCapabilities (permissionPlan : PermissionPlan) : List String :=
  if permissionPlan.hasApplicableActions then
    if permissionPlan.permissionSet = .elevated then ["shell_command", "root_shell"]
    else ["shell_command"]
  else []

def addDerivedStepCapabilities (permissionPlans : OrderedMap String PermissionPlan)
    (targetUsage : OrderedMap String ResolvedStepUsage) : OrderedMap String ResolvedStepUsage :=
  targetUsage.mapValues fun stepId usage =>
    match permissionPlans.get? stepId with
    | none => usage
    | some permissionPlan =>
        { usage with
          capabilities := (permissionCapabilities permissionPlan).foldl
            (fun capabilities name => addCapability capabilities (some name)) usage.capabilities }

end

end EmuChef.Planner
