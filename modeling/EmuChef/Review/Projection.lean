import EmuChef.CopyCommit.Snapshot
import EmuChef.Planner.PlanLaw

/-! The review of a plan: what planning emits for it, and its projection into features,
sections and actions. -/

namespace EmuChef.Review

open Planner
open Authored (AppDefinition)
open CopyCommit (CopyManifestEntry)
open Executor (validatedPlanPermissionPlan)

section

structure ExecutionDevicePlanSnapshot where
  id : String
  name : Option String
  description : Option String
  deriving DecidableEq

/-- The fields of an input declaration that a review shows; the labels are those of its options. -/
structure InputPresentation where
  label : String
  description : Option String
  isSensitive : Bool
  optionLabels : List String
  deriving DecidableEq

structure ExecutionPlanSource where
  selectedRecipeRefs : List String
  expandedRecipeRefs : List String
  deriving DecidableEq

structure ExecutionRecipeSnapshot where
  id : String
  deriving DecidableEq

structure ExecutionResolvedInputSnapshot where
  key : String
  recipeId : String
  inputId : String
  typeName : String
  value : Option Json
  source : Option BindingSource
  label : String
  description : Option String
  required : Bool
  isSensitive : Bool
  selectedEnumLabel : Option String

structure ReviewedPlan where
  execution : ExecutionPlan
  source : ExecutionPlanSource
  devicePlan : Option ExecutionDevicePlanSnapshot
  recipes : List ExecutionRecipeSnapshot
  resolvedInputs : List ExecutionResolvedInputSnapshot
  copyCommitSnapshots : List CopyCommit.ExecutionCopyCommitSnapshot

structure ExecutionReviewArtifacts where
  devicePlan : Option ExecutionDevicePlanSnapshot
  recipes : List ExecutionRecipeSnapshot
  resolvedInputs : List ExecutionResolvedInputSnapshot

-- How the authored declaration of an input is presented, by Recipe and input.
variable (presentation : String → String → InputPresentation)

def selectedEnumLabel (declaration : InputDeclaration) (shown : InputPresentation)
    (value : Option Json) : Option String :=
  if declaration.typeName = "enum" then
    value.bind fun value =>
      ((declaration.options.zip shown.optionLabels).find? fun option => option.1.equal value).map
        Prod.snd
  else none

def inputSnapshot (recipes : OrderedMap String Authored.Recipe) (resolved : ResolvedInputBinding) :
    Except PlannerMessage ExecutionResolvedInputSnapshot :=
  match (recipes.get? resolved.recipeId).bind fun recipe => recipe.inputs.get? resolved.inputId with
  | none => .error
      { code := "review_input_snapshot_missing"
        message := "A resolved input could not be captured for plan review."
        details := .object [("input_id", .string resolved.key)] }
  | some declaration =>
      let shown := presentation resolved.recipeId resolved.inputId
      .ok {
        key := resolved.key
        recipeId := resolved.recipeId
        inputId := resolved.inputId
        typeName := resolved.typeName
        value := resolved.value
        source := resolved.source
        label := shown.label
        description := shown.description
        required := declaration.required
        isSensitive := shown.isSensitive
        selectedEnumLabel := selectedEnumLabel declaration shown resolved.value }

def incompleteSnapshot (expected resolved : Nat) : PlannerMessage :=
  { code := "review_input_snapshot_incomplete"
    message := "Resolved inputs could not be captured completely for plan review."
    details := .object [("expected_count", .integer expected), ("resolved_count", .integer resolved)] }

def executionReviewSnapshots (emitReviewSnapshots : Bool)
    (devicePlan : Option ExecutionDevicePlanSnapshot) (expandedRecipeRefs : List String)
    (recipes : OrderedMap String Authored.Recipe) (resolvedInputs : List ResolvedInputBinding) :
    Except PlannerMessage ExecutionReviewArtifacts :=
  let expanded := expandedRecipeRefs.filterMap recipes.get?
  let expected := (expanded.map fun recipe => recipe.inputs.entries.length).sum
  if !emitReviewSnapshots then .ok ⟨none, [], []⟩
  else if expected ≠ resolvedInputs.length then
    .error (incompleteSnapshot expected resolvedInputs.length)
  else do
    let snapshots ← resolvedInputs.mapM (inputSnapshot presentation recipes)
    return ⟨devicePlan, expanded.map fun recipe => ⟨recipe.id⟩, snapshots⟩

def captured (warnings : List PlannerMessage) :
    Except PlannerMessage ExecutionReviewArtifacts → Except PlanningStop ExecutionReviewArtifacts
  | .ok artifacts => .ok artifacts
  | .error error => .error (.refused [error] warnings)

variable (host : Host) (checks : AuthorityChecks)

/-- Planning with the review data of its plan; `devicePlan` is the presentation that a runtime
configuration asks for. -/
def reviewedPlanning (input : PlannerInput) (devicePlan : Option ExecutionDevicePlanSnapshot)
    (appDefinitions : List AppDefinition) (mode : PlanningMode) :
    Except PlanningStop ReviewedPlan := do
  let prepared ← prepare host checks input appDefinitions mode
  let chosen ← choose input mode prepared
  validateChosen host checks mode prepared chosen
  let ordered ← orderSteps input chosen
  let resolution := resolveRuntimeBindings host prepared.recipes prepared.expandedRecipeRefs
    input.bindings
  let artifacts ← captured chosen.warnings (executionReviewSnapshots presentation
    (input.emitsProductContract || devicePlan.isSome) devicePlan prepared.expandedRecipeRefs
    prepared.recipes resolution.resolvedInputs)
  let plan ← running (emitPlan host checks input prepared chosen ordered)
  return {
    execution := plan
    source := ⟨input.selectedRecipeRefs, prepared.expandedRecipeRefs⟩
    devicePlan := artifacts.devicePlan
    recipes := artifacts.recipes
    resolvedInputs := artifacts.resolvedInputs
    copyCommitSnapshots := [] }

end

section

structure ReviewCopyChanges where
  selectedBoundary : String
  additions : List String
  replacements : List String
  deletions : List String
  deriving DecidableEq

structure ActionText where
  title : String
  description : Option String
  deriving DecidableEq

structure ReviewAction where
  text : ActionText
  reviewedDeletionSet : Option (List String)
  copyChanges : Option ReviewCopyChanges
  requirement : String
  deviceLocation : Option String
  deriving DecidableEq

structure ReviewSection where
  kind : String
  label : String
  actions : List ReviewAction
  deriving DecidableEq

structure ReviewFeature where
  automaticallyAdded : Bool
  sections : List ReviewSection
  deriving DecidableEq

structure ReviewProjection where
  features : List ReviewFeature
  actionCount : Nat
  canExecute : Bool
  deriving DecidableEq

def sectionLabels : List (String × String) :=
  [("preparation", "Prerequisites and preparation"), ("downloads", "Downloads"),
    ("installs", "Installs"), ("copies", "Copies"), ("permissions", "Permissions"),
    ("launches", "Launches"), ("device_changes", "Device changes")]

def actionSection (step : ExecutionStep) : Option String :=
  match step.typeName with
  | "wait" | "extract_artifacts" | "extract_archive" => some "preparation"
  | "resolve_artifacts" | "download_remote_file" => some "downloads"
  | "install_apk" => some "installs"
  | "copy_files" => some "copies"
  | "grant_permissions" => some "permissions"
  | "launch_app" => some "launches"
  | "force_stop_app" => some "device_changes"
  | _ => none

def copyEntriesHaveSameContent (source destination : CopyManifestEntry) : Bool :=
  source.kind = destination.kind &&
    match source.kind with
    | .directory => true
    | .file => source.sha256.isSome && source.sha256 = destination.sha256

def isReplaced (snapshot : CopyCommit.ExecutionCopyCommitSnapshot) (source : CopyManifestEntry) : Bool :=
  snapshot.destinationBeforeManifest.any fun destination =>
    destination.relativePath = source.relativePath &&
      (snapshot.operation = .replace || !copyEntriesHaveSameContent source destination)

def isAdded (snapshot : CopyCommit.ExecutionCopyCommitSnapshot) (source : CopyManifestEntry) : Bool :=
  !snapshot.destinationBeforeManifest.any fun destination =>
    destination.relativePath = source.relativePath

def projectCopyChanges (snapshot : CopyCommit.ExecutionCopyCommitSnapshot) : ReviewCopyChanges where
  selectedBoundary := snapshot.destinationIdentity
  additions := (snapshot.sourceManifest.filter (isAdded snapshot)).map (·.relativePath)
  replacements := (snapshot.sourceManifest.filter (isReplaced snapshot)).map (·.relativePath)
  deletions := snapshot.reviewedDeletionSet

def deviceDestination (step : ExecutionStep) : Option String :=
  if step.typeName ≠ "copy_files" then none
  else
    match step.params.get? "dest" with
    | some (.literal value) => value.asStr.filter fun path =>
        path.toList.head? = some '/' && (Split.splitOnce ['.', '.'] path.toList).isNone
    | _ => none

def copySnapshot (plan : ReviewedPlan) (step : ExecutionStep) :
    Option CopyCommit.ExecutionCopyCommitSnapshot :=
  plan.copyCommitSnapshots.find? fun snapshot => snapshot.stepId = step.id

-- How the title and the description of an action are worded.
variable (wording : ReviewedPlan → ExecutionStep → String → ActionText)

def projectAction (plan : ReviewedPlan) (kind : String) (step : ExecutionStep) : ReviewAction where
  text := wording plan step kind
  reviewedDeletionSet := (copySnapshot plan step).map (·.reviewedDeletionSet)
  copyChanges := (copySnapshot plan step).map projectCopyChanges
  requirement := if step.skipIf.isEmpty then "required" else "conditional"
  deviceLocation := deviceDestination step

def projectSection (plan : ReviewedPlan) (steps : List ExecutionStep) (kind : String × String) :
    Option ReviewSection :=
  let actions := (steps.filter fun step => actionSection step = some kind.1).map
    (projectAction wording plan kind.1)
  if actions = [] then none else some ⟨kind.1, kind.2, actions⟩

def recipeSnapshot (plan : ReviewedPlan) (recipeId : String) : Option ExecutionRecipeSnapshot :=
  (OrderedMap.ofList (plan.recipes.map fun recipe => (recipe.id, recipe))).get? recipeId

def featureSteps (plan : ReviewedPlan) (recipeId : String) : List ExecutionStep :=
  plan.execution.steps.filter fun step => step.recipeRef = recipeId

def projectFeature (plan : ReviewedPlan) (recipeId : String) : ReviewFeature where
  automaticallyAdded := recipeId ∉ plan.source.selectedRecipeRefs
  sections := sectionLabels.filterMap (projectSection wording plan (featureSteps plan recipeId))

def isUnsupported (plan : ReviewedPlan) (step : ExecutionStep) : Bool :=
  (actionSection step).isNone ||
    (step.typeName = "grant_permissions" && (step.permissionPlan.isSome || step.appId.isSome) &&
      !(validatedPlanPermissionPlan plan.execution step).isOk)

def unsupportedAction (plan : ReviewedPlan) : Bool :=
  plan.source.expandedRecipeRefs.any fun recipeId =>
    (recipeSnapshot plan recipeId).isSome && (featureSteps plan recipeId).any (isUnsupported plan)

def missingFeatureMetadata (plan : ReviewedPlan) : Bool :=
  plan.recipes.length ≠ plan.source.expandedRecipeRefs.length ||
    plan.source.expandedRecipeRefs.any fun recipeId => (recipeSnapshot plan recipeId).isNone

def missingRequiredSnapshot (plan : ReviewedPlan) : Bool :=
  plan.devicePlan.isNone || plan.resolvedInputs.any fun input =>
    input.required && input.value.all Json.isNull

def projectReview (plan : ReviewedPlan) : ReviewProjection where
  features := (plan.source.expandedRecipeRefs.filter fun recipeId =>
    (recipeSnapshot plan recipeId).isSome).map (projectFeature wording plan)
  actionCount := plan.execution.steps.length
  canExecute := !unsupportedAction plan && !missingFeatureMetadata plan &&
    !missingRequiredSnapshot plan

end

end EmuChef.Review
