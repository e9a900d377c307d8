import EmuChef.Lib.Kahn
import EmuChef.Planner.Authority

/-! Planning an execution: the expansion of the selected Recipes, the passes over their steps, and
the plan that is emitted. -/

namespace EmuChef.Planner

open Authored (AppDefinition)

structure PlannerInput where
  recipes : List Authored.Recipe
  selectedRecipeRefs : List String
  bindings : BindingLayers
  planId : String
  androidApiLevel : Option Int
  runtimeCapabilities : RuntimeCapabilities
  catalogIdentity : Option String
  targetDevice : Option (Option Int)

/-- The API level that the target device was seen with replaces that of the device context. -/
def PlannerInput.permissionAndroidApiLevel (input : PlannerInput) : Option Int :=
  input.targetDevice.join.or input.androidApiLevel

def PlannerInput.emitsProductContract (input : PlannerInput) : Bool :=
  input.catalogIdentity.isSome || input.targetDevice.isSome

/-- How a planning differs from the one that is executed: `assume` and `report` stand for the
capabilities that the planner does not know. -/
structure PlanningMode where
  ignoreBindingDiagnostics : Bool
  assumeUnrecognizedCapabilitiesAvailable : Bool
  reportUnrecognizedCapabilityWarnings : Bool
  deriving DecidableEq

section

variable (recipes : OrderedMap String Authored.Recipe)

structure Expansion where
  ordered : List String
  permanent : Finset String
  errors : List PlannerMessage

def recipeCycleMessage (cycle : List String) (recipeRef : String) : PlannerMessage :=
  { code := "dependency_cycle"
    message := "Recipe dependency cycle detected at '" ++ recipeRef ++ "'."
    details := .object [("cycle", Json.strings cycle)] }

def recipeNotFoundMessage (recipeRef : String) (dependent : Option String) : PlannerMessage :=
  { code := "recipe_not_found"
    message := "Recipe '" ++ recipeRef ++ "' was not found."
    details := .object ([("recipe_ref", .string recipeRef)] ++
      match dependent with
      | some dependentRef =>
          [("dependency_ref", .string recipeRef), ("dependent_recipe_ref", .string dependentRef),
            ("source", .string "recipe_dependencies")]
      | none =>
          [("selected_recipe_ref", .string recipeRef), ("source", .string "selected_recipe_refs")]) }

/-- Visit a Recipe after its dependencies. The ids in `stack` are those whose visit is open: the
source also keeps them in its set `temporary`. -/
def visitRecipeDependency (fuel : Nat) (recipeRef : String) (stack : List String)
    (found : Expansion) : Expansion :=
  match fuel with
  | 0 => found
  | fuel + 1 =>
      if recipeRef ∈ found.permanent then found
      else if recipeRef ∈ stack then
        { found with errors := found.errors ++ [recipeCycleMessage (stack ++ [recipeRef]) recipeRef] }
      else
        match recipes.get? recipeRef with
        | none =>
            { found with errors := found.errors ++ [recipeNotFoundMessage recipeRef stack.getLast?] }
        | some recipe =>
            let visited := recipe.recipeDependencies.foldl (fun found dependencyRef =>
              visitRecipeDependency fuel dependencyRef (stack ++ [recipeRef]) found) found
            { visited with
              permanent := insert recipeRef visited.permanent
              ordered := if recipeRef ∈ visited.ordered then visited.ordered
                else visited.ordered ++ [recipeRef] }

def expandRecipeDependencies (selectedRecipeRefs : List String) :
    List String × List PlannerMessage :=
  let found := selectedRecipeRefs.foldl (fun found recipeRef =>
    visitRecipeDependency recipes (recipes.entries.length + 1) recipeRef [] found) ⟨[], ∅, []⟩
  (found.ordered, found.errors)

end

section

variable (recipes : OrderedMap String Authored.Recipe) (expandedRecipeRefs : List String)
  (selectedStepIds : Finset String)

def authoredSteps : List PlannedStep :=
  (expandedSteps recipes expandedRecipeRefs).filterMap fun (recipeId, _, step) =>
    let stepId := makeExecutionStepId recipeId step.id
    if stepId ∈ selectedStepIds then some ⟨stepId, recipeId, step⟩ else none

def referencedArtifactIds (step : Authored.Step) : List String :=
  (paramRefs step).filterMap fun reference =>
    match parseReference reference with
    | some (.artifactField targetId _) => some targetId
    | _ => none

def selectedArtifactIds : List String :=
  firstOccurrences ((expandedSteps recipes expandedRecipeRefs).flatMap fun (recipeId, recipe, step) =>
    if makeExecutionStepId recipeId step.id ∈ selectedStepIds then
      (selectedArtifacts recipe step ++ referencedArtifactIds step).map
        (makeExecutionArtifactId recipeId)
    else [])

/-- The inputs that one Recipe adds to a plan: those its selected steps refer to, then those that
supply its selected artifacts. -/
def recipeInputIds (artifactIds : List String) (recipeId : String) (recipe : Authored.Recipe) :
    List String :=
  (recipe.steps.flatMap fun step =>
    if makeExecutionStepId recipeId step.id ∈ selectedStepIds then
      referencedInputIds recipeId (plannerStep step)
    else []) ++
  (appArtifactReferences recipe).filterMap fun found =>
    if makeExecutionArtifactId recipeId found.1 ∈ artifactIds then
      found.2.input.map (makeExecutionInputId recipeId)
    else none

def selectedInputIds (artifactIds : List String) : List String :=
  firstOccurrences ((expandedRecipes recipes expandedRecipeRefs).flatMap fun (recipeId, recipe) =>
    recipeInputIds selectedStepIds artifactIds recipeId recipe)

end

def stepCycleMessage (steps : List PlannedStep) : PlannerMessage :=
  { code := "dependency_cycle"
    message := "Execution step dependency cycle detected."
    details := .object [("step_ids", Json.strings (steps.map PlannedStep.id))] }

def plannedDependencies (planned : PlannedStep) : List String :=
  (uniqueDependencyIds planned.step.dependencies).map (makeExecutionStepId planned.recipeId)

def topologicallySortSteps (steps : List PlannedStep) :
    Except PlannerPanic (List PlannedStep × List PlannerMessage) :=
  match Kahn.order (steps.map fun planned => (planned.id, plannedDependencies planned)) with
  | .error stepId => .error (.dependencyCountUnderflow stepId)
  | .ok order =>
      let stepById := OrderedMap.ofList (steps.map fun planned => (planned.id, planned))
      let result := order.filterMap stepById.get?
      if result.length ≠ steps.length then .ok ([], [stepCycleMessage steps]) else .ok (result, [])

section

variable (apps : OrderedMap String AppDefinition) (recipe : Authored.Recipe) (step : Authored.Step)

def isLifecycleStep (step : Authored.Step) : Bool :=
  step.typeName = "launch_app" || step.typeName = "force_stop_app"

def textParam (value : String) : ExecutionParamValue := .literal (.string value)

def lifecycleParams (appRef stepId : String) :
    Except PlannerPanic (OrderedMap String ExecutionParamValue) :=
  match apps.get? appRef with
  | none => .error (.unvalidatedAppDefinition stepId)
  | some app =>
      if step.typeName = "launch_app" then
        match app.launcherActivity with
        | none => .error (.unvalidatedLauncherActivity stepId)
        | some activity =>
            .ok (.ofList [("package_name", textParam app.packageId), ("activity", textParam activity)])
      else .ok (.ofList [("package_name", textParam app.packageId)])

def normalizeArtifactSelection (normalized : OrderedMap String ParamValue) :
    OrderedMap String ExecutionParamValue :=
  let selected := expandArtifactSelection recipe (normalized.get? "artifacts")
    (normalized.get? "artifact_groups")
  .ofList ([("artifacts", .literal (Json.strings
      (selected.map (makeExecutionArtifactId recipe.id))))] ++
    match normalized.get? "extract_on" with
    | some (.literal value) => [("extract_on", .literal value)]
    | _ => [])

def normalizeParam (dest : Option String) (value : ParamValue) :
    Except PlannerPanic ExecutionParamValue :=
  match value with
  | .ref refValue => .ok (.ref (normalizeRefForExecution recipe refValue))
  | .literal value => .ok (.literal value)
  | .appTarget _ =>
      match dest with
      | some path => .ok (textParam path)
      | none => .error (.unresolvedTarget step.id)

def targetKindName : AppTargetKind → String
  | .file => "file"
  | .directory => "directory"

def destKindParams (destKind : Option AppTargetKind) : List (String × ExecutionParamValue) :=
  (destKind.map fun kind => ("dest_kind", textParam (targetKindName kind))).toList

def normalizeEntry (dest : Option String) (entry : String × ParamValue) :
    Except PlannerPanic (String × ExecutionParamValue) := do
  let value ← normalizeParam recipe step dest entry.2
  return (entry.1, value)

def knownParams (spec : StepSpec) : List (String × ParamValue) :=
  let normalized := paramsWithDefaults step
  spec.params.filterMap fun entry => (normalized.get? entry.1).map (entry.1, ·)

def normalizeSpecParams (spec : StepSpec) (usage : ResolvedStepUsage) :
    Except PlannerPanic (OrderedMap String ExecutionParamValue) := do
  let entries ← (knownParams step spec).mapM (normalizeEntry recipe step usage.dest)
  return .ofList (entries ++ destKindParams usage.destKind)

def lifecycleApp : Option String := if isLifecycleStep step then step.appRef else none

def normalizeStepParamsForExecution (usage : ResolvedStepUsage) :
    Except PlannerPanic (OrderedMap String ExecutionParamValue) :=
  if isAppPermissionStep step then .ok .empty
  else
    match lifecycleApp step with
    | some appRef => lifecycleParams apps step appRef step.id
    | none =>
        if isArtifactStep step.typeName then
          .ok (normalizeArtifactSelection recipe (paramsWithDefaults step))
        else
          match stepSpecFor step.typeName with
          | none => .ok .empty
          | some spec => normalizeSpecParams recipe step spec usage

end

section

variable (host : Host) (checks : AuthorityChecks) (recipes : OrderedMap String Authored.Recipe)
  (expandedRecipeRefs : List String) (apps : OrderedMap String AppDefinition)

def isLocalInput : ExecutionArtifactSource → Bool
  | .localInput _ => true
  | _ => false

def emitArtifact (artifactIds : List String) (recipeId artifactId : String)
    (artifact : Authored.RecipeArtifact) : Option ExecutionArtifact :=
  let executionId := makeExecutionArtifactId recipeId artifactId
  match artifact with
  | .remoteFile _ _ => some ⟨executionId⟩
  | .appArtifact reference =>
      (executionAppArtifactProjection checks reference recipeId apps).bind fun source =>
        if isLocalInput source ∧ executionId ∉ artifactIds then none else some ⟨executionId⟩

def emitExecutionArtifacts (artifactIds : List String) : List ExecutionArtifact :=
  (expandedRecipes recipes expandedRecipeRefs).flatMap fun (recipeId, recipe) =>
    recipe.artifacts.entries.filterMap fun entry =>
      emitArtifact checks apps artifactIds recipeId entry.1 entry.2

def nonBlank (value : Option String) : Option String :=
  (value.map trim).filter fun text => text ≠ ""

def isWordSeparator (letter : Char) : Bool := letter = '_' || letter = '-'

def asciiUppercase (letter : Char) : Char :=
  if 'a' ≤ letter ∧ letter ≤ 'z' then Char.ofNat (letter.toNat - 32) else letter

def humanizedStepType (typeName : String) : Option String :=
  let words := (typeName.toList.splitOnP isWordSeparator).filter fun word => word ≠ []
  if words = [] then none
  else
    match (host.lowercase (String.ofList ([' '].intercalate words))).toList with
    | [] => some ""
    | first :: rest => some (String.ofList (asciiUppercase first :: rest))

def normalizedProgressNote (step : Authored.Step) : String :=
  ((nonBlank step.progressNote).or ((nonBlank (some step.name)).or
    (humanizedStepType host step.typeName))).getD step.id

def executionConstraints (capabilities : List String) (constraints : StepConstraints)
    (recipeId : String) : ExecutionStepConstraints :=
  ⟨capabilities, constraints.conflictsWith.map (makeExecutionStepId recipeId)⟩

def emitConditions (appRef : Option String) (stepId : String) :
    List Authored.StepCondition → List (Option String) →
      Except PlannerPanic (List ExecutionStepCondition)
  | [], _ => .ok []
  | _ :: _, [] => .error (.missingConditionPath stepId)
  | condition :: conditions, path :: paths => do
      let resolved := executionCondition apps condition appRef
      let rest ← emitConditions appRef stepId conditions paths
      let params := match path with
        | some path => resolved.params.insert "path" (.string path)
        | none => resolved.params
      return { resolved with params := params } :: rest

def emitStep (emitsNote : Bool) (targetUsage : OrderedMap String ResolvedStepUsage)
    (permissionPlans : OrderedMap String PermissionPlan) (recipe : Authored.Recipe)
    (planned : PlannedStep) : Except PlannerPanic ExecutionStep := do
  let step := planned.step
  let usage ← stepUsage targetUsage (makeExecutionStepId recipe.id step.id)
  let params ← normalizeStepParamsForExecution apps recipe step usage
  let skipIf ← emitConditions apps step.appRef planned.id step.skipIf usage.skipIfPaths
  let verify ← emitConditions apps step.appRef planned.id step.verify usage.verifyPaths
  return {
    id := planned.id
    recipeRef := planned.recipeId
    appId := (step.appRef.bind apps.get?).map AppDefinition.id
    typeName := step.typeName
    name := step.name
    note := if emitsNote then normalizedProgressNote host step else ""
    dependencies := step.dependencies.map (makeExecutionStepId recipe.id)
    constraints := executionConstraints usage.capabilities step.constraints recipe.id
    permissionPlan := permissionPlans.get? planned.id
    params := params
    skipIf := skipIf
    verify := verify }

def emitSteps (emitsNote : Bool) (targetUsage : OrderedMap String ResolvedStepUsage)
    (permissionPlans : OrderedMap String PermissionPlan) (steps : List PlannedStep) :
    Except PlannerPanic (List ExecutionStep) :=
  (steps.filterMap fun planned => (recipes.get? planned.recipeId).map (·, planned)).mapM
    fun (recipe, planned) => emitStep host apps emitsNote targetUsage permissionPlans recipe planned

end

section

inductive PlanningResult where
  | success (plan : ExecutionPlan) (warnings : List PlannerMessage)
  | error (errors warnings : List PlannerMessage)

inductive PlanningStop where
  | panicked (panic : PlannerPanic)
  | refused (errors warnings : List PlannerMessage)

def refuse (errors warnings : List PlannerMessage) : Except PlanningStop Unit :=
  if errors = [] then .ok () else .error (.refused errors warnings)

def answered {α : Type} : Except (List PlannerMessage) α → Except PlanningStop α
  | .ok value => .ok value
  | .error errors => .error (.refused errors [])

def running {α : Type} : Except PlannerPanic α → Except PlanningStop α
  | .ok value => .ok value
  | .error panic => .error (.panicked panic)

variable (host : Host) (checks : AuthorityChecks)

def appDefinitionAmbiguous (appId : String) : PlannerMessage :=
  appAuthorityError "app_definition_ambiguous"
    "More than one App Definition has the same identity." [("app_id", .string appId)]

def indexAppDefinitions (appDefinitions : List AppDefinition) :
    Except (List PlannerMessage) (OrderedMap String AppDefinition) :=
  appDefinitions.foldlM (fun apps app =>
    if apps.contains app.id then .error [appDefinitionAmbiguous app.id]
    else .ok (apps.insert app.id app)) .empty

structure Prepared where
  apps : OrderedMap String AppDefinition
  recipes : OrderedMap String Authored.Recipe
  expandedRecipeRefs : List String
  inputBindings : OrderedMap String Json
  targetUsage : OrderedMap String ResolvedStepUsage
  permissionPlans : OrderedMap String PermissionPlan

def recipeTable (recipes : List Authored.Recipe) : OrderedMap String Authored.Recipe :=
  .ofList (recipes.map fun recipe => (recipe.id, recipe))

def prepare (input : PlannerInput) (appDefinitions : List AppDefinition) (mode : PlanningMode) :
    Except PlanningStop Prepared := do
  let apps ← answered (indexAppDefinitions appDefinitions)
  let recipes := recipeTable input.recipes
  let (expandedRecipeRefs, dependencyErrors) :=
    expandRecipeDependencies recipes input.selectedRecipeRefs
  refuse dependencyErrors []
  let resolution := resolveRuntimeBindings host recipes expandedRecipeRefs input.bindings
  refuse (if mode.ignoreBindingDiagnostics then [] else resolution.diagnostics) []
  let inputBindings := effectiveInputBindings resolution.resolvedInputs
  let targetUsage ← answered (resolveUsage checks.validateAppDefinition recipes expandedRecipeRefs
    apps (some inputBindings))
  refuse (validateAppPermissionStepContracts recipes expandedRecipeRefs) []
  let permissionPlans ← answered (resolveAppPermissionPlans recipes expandedRecipeRefs apps
    input.permissionAndroidApiLevel)
  return ⟨apps, recipes, expandedRecipeRefs, inputBindings,
    addDerivedStepCapabilities permissionPlans targetUsage, permissionPlans⟩

structure Chosen where
  warnings : List PlannerMessage
  artifactIds : List String
  inputIds : List String
  steps : List PlannedStep

def choose (input : PlannerInput) (mode : PlanningMode) (prepared : Prepared) :
    Except PlanningStop Chosen := do
  let (selected, errors, warnings) ← running (selectedStepIds
    (prepared.recipes.mapValues fun _ recipe => plannerRecipe recipe) prepared.expandedRecipeRefs
    prepared.inputBindings input.runtimeCapabilities prepared.targetUsage
    mode.assumeUnrecognizedCapabilitiesAvailable mode.reportUnrecognizedCapabilityWarnings)
  refuse errors warnings
  let artifactIds := selectedArtifactIds prepared.recipes prepared.expandedRecipeRefs selected
  return {
    warnings := warnings
    artifactIds := artifactIds
    inputIds := selectedInputIds prepared.recipes prepared.expandedRecipeRefs selected artifactIds
    steps := authoredSteps prepared.recipes prepared.expandedRecipeRefs selected }

def validateChosen (mode : PlanningMode) (prepared : Prepared) (chosen : Chosen) :
    Except PlanningStop Unit := do
  refuse (validateAppAuthority checks prepared.apps prepared.recipes prepared.expandedRecipeRefs
    chosen.steps) []
  refuse (validateSelectedUserProvidedInputs prepared.apps host prepared.recipes
    prepared.inputBindings mode.ignoreBindingDiagnostics chosen.artifactIds) []
  refuse (validateStepParamContracts prepared.recipes chosen.steps) []
  refuse (validateEmittedStepDependencies chosen.steps) []
  refuse (validateArtifactSelections prepared.recipes chosen.steps) []
  refuse (validateStepRefs chosen.steps) []

def emptyPlanMessage (planId : String) : PlannerMessage :=
  { code := "empty_execution_plan"
    message := "Execution plan emission produced no runnable steps."
    details := .object [("plan_id", .string planId)] }

def orderSteps (input : PlannerInput) (chosen : Chosen) : Except PlanningStop (List PlannedStep) := do
  let (ordered, errors) ← running (topologicallySortSteps chosen.steps)
  refuse errors []
  refuse (if ordered = [] then [emptyPlanMessage input.planId] else []) chosen.warnings
  return ordered

def emitPlan (input : PlannerInput) (prepared : Prepared) (chosen : Chosen)
    (ordered : List PlannedStep) : Except PlannerPanic ExecutionPlan := do
  let steps ← emitSteps host prepared.recipes prepared.apps input.emitsProductContract
    prepared.targetUsage prepared.permissionPlans ordered
  return {
    id := input.planId
    apps := executionAppSnapshots prepared.apps
      (expandedRecipes prepared.recipes prepared.expandedRecipeRefs) ordered
    copyCommitSnapshots := []
    runtimeCapabilities := input.runtimeCapabilities
    inputs := emitExecutionInputs host prepared.recipes chosen.inputIds prepared.inputBindings
    artifacts := emitExecutionArtifacts checks prepared.recipes prepared.expandedRecipeRefs
      prepared.apps chosen.artifactIds
    steps := steps }

def planning (input : PlannerInput) (appDefinitions : List AppDefinition) (mode : PlanningMode) :
    Except PlanningStop (ExecutionPlan × List PlannerMessage) := do
  let prepared ← prepare host checks input appDefinitions mode
  let chosen ← choose input mode prepared
  validateChosen host checks mode prepared chosen
  let ordered ← orderSteps input chosen
  let plan ← running (emitPlan host checks input prepared chosen ordered)
  return (plan, chosen.warnings)

def planExecutionWithAppDefinitionsInner (input : PlannerInput) (appDefinitions : List AppDefinition)
    (mode : PlanningMode) : Except PlannerPanic PlanningResult :=
  match planning host checks input appDefinitions mode with
  | .ok (plan, warnings) => .ok (.success plan warnings)
  | .error (.refused errors warnings) => .ok (.error errors warnings)
  | .error (.panicked panic) => .error panic

def planExecutionWithAppDefinitions (input : PlannerInput) (appDefinitions : List AppDefinition) :
    Except PlannerPanic PlanningResult :=
  planExecutionWithAppDefinitionsInner host checks input appDefinitions ⟨false, false, false⟩

end

end EmuChef.Planner
