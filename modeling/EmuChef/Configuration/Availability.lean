import EmuChef.Lib.MinimalSets
import EmuChef.Planner.Planning

/-! Whether one Recipe can run on the selected device, and which missing capabilities block it. -/

namespace EmuChef.Configuration

open Authored (AppDefinition)
open MinimalSets (nonemptyCombinations)
open Planner

inductive DiagnosticSeverity where
  | error
  | warning
  deriving DecidableEq

structure RuntimeConfigurationDiagnostic where
  severity : DiagnosticSeverity
  code : String
  message : String
  key : Option String
  details : Json

structure RecipeAvailability where
  available : Bool
  unavailableCapabilities : List String
  deriving DecidableEq

/-- What planning reads of a configuration: `devicePlanParts` is the API level of the device plan's own
context, `deviceContext` the one that overrides it. -/
structure PreparedConfiguration where
  effectiveDevicePlan : String
  recipes : List Authored.Recipe
  selectedRecipeRefs : List String
  expandedRecipeRefs : List String
  bindings : BindingLayers
  devicePlanParts : Option (Option Int)
  runtimeCapabilities : RuntimeCapabilities
  deviceContext : Option (Option Int)
  catalogIdentity : Option String
  targetDevice : Option (Option Int)

def PreparedConfiguration.plannerInput (prepared : PreparedConfiguration) (planId : String) :
    Option PlannerInput :=
  prepared.devicePlanParts.map fun androidApiLevel =>
    { recipes := prepared.recipes
      selectedRecipeRefs := prepared.selectedRecipeRefs
      bindings := prepared.bindings
      planId := planId
      androidApiLevel := prepared.deviceContext.join.or androidApiLevel
      runtimeCapabilities := prepared.runtimeCapabilities
      catalogIdentity := prepared.catalogIdentity
      targetDevice := prepared.targetDevice }

def setAvailable (capabilities : RuntimeCapabilities) (available : Bool) :
    RuntimeCapability → RuntimeCapabilities
  | .adbAvailable => { capabilities with adbAvailable := available }
  | .apkInstall => { capabilities with apkInstall := available }
  | .sharedStorageWrite => { capabilities with sharedStorageWrite := available }
  | .appLaunch => { capabilities with appLaunch := available }
  | .shellCommand => { capabilities with shellCommand := available }
  | .packageRemoveForUser => { capabilities with packageRemoveForUser := available }
  | .rootShell => { capabilities with rootShell := available }
  | .appDataWrite => { capabilities with appDataWrite := available }

def runtimeCapabilityAvailable (capabilities : RuntimeCapabilities) (capability : String) : Bool :=
  (RuntimeCapability.fromName capability).any (·.isAvailable capabilities)

def setRuntimeCapability (capabilities : RuntimeCapabilities) (name : String) (available : Bool) :
    Option RuntimeCapabilities :=
  (RuntimeCapability.fromName name).map (setAvailable capabilities available)

def allRuntimeCapabilities : RuntimeCapabilities :=
  ⟨true, true, true, true, true, true, true, true, none⟩

def sortedSet (names : List String) : List String := names.dedup.insertionSort (· ≤ ·)

section

variable (host : Host) (checks : AuthorityChecks) (input : PlannerInput)
  (appDefinitions : List AppDefinition)

def planExecutionForRecipeAvailability : Except PlannerPanic PlanningResult :=
  planExecutionWithAppDefinitionsInner host checks input appDefinitions ⟨true, false, true⟩

def planExecutionForRecipeAvailabilityUpperBound : Except PlannerPanic PlanningResult :=
  planExecutionWithAppDefinitionsInner host checks input appDefinitions ⟨true, true, false⟩

def planningResultHasSteps : PlanningResult → Bool
  | .success plan _ => plan.steps ≠ []
  | .error _ _ => false

def planningResultIsEmptyOnly : PlanningResult → Bool
  | .success _ _ => false
  | .error errors _ => errors ≠ [] && errors.all fun error => error.code = "empty_execution_plan"

def warningsOf : PlanningResult → List PlannerMessage
  | .success _ warnings => warnings
  | .error _ warnings => warnings

def errorsOf : PlanningResult → List PlannerMessage
  | .success _ _ => []
  | .error errors _ => errors

def stepsOfPlan : PlanningResult → List ExecutionStep
  | .success plan _ => plan.steps
  | .error _ _ => []

end

def plannerResultDiagnostic (severity : DiagnosticSeverity) (message : PlannerMessage) :
    RuntimeConfigurationDiagnostic :=
  ⟨severity, message.code, message.message, none, message.details⟩

def recipePlannerDiagnostics (result : PlanningResult) (recipeId : String)
    (errorSeverity : DiagnosticSeverity) (includeEmptyPlan : Bool) :
    List RuntimeConfigurationDiagnostic :=
  let keyed (severity : DiagnosticSeverity) (message : PlannerMessage) :=
    { plannerResultDiagnostic severity message with key := some recipeId }
  (warningsOf result).map (keyed .warning) ++
    ((errorsOf result).filter fun error =>
      includeEmptyPlan || error.code ≠ "empty_execution_plan").map (keyed errorSeverity)

def recipeAvailabilityDiagnostic (recipeId : String) (severity : DiagnosticSeverity)
    (code message : String) : RuntimeConfigurationDiagnostic :=
  ⟨severity, code, message, some recipeId, .object []⟩

def unsupportedCapabilityDiagnostic (recipeId : String) (severity : DiagnosticSeverity)
    (capabilities : List String) : RuntimeConfigurationDiagnostic :=
  recipeAvailabilityDiagnostic recipeId severity "recipe_availability_unknown_capability"
    ("The Recipe requires unsupported runtime capability name(s): " ++
      String.intercalate ", " capabilities ++
      ". Update the Recipe to use capabilities supported by the planner.")

def orUnresolved (diagnostics : List RuntimeConfigurationDiagnostic) (recipeId : String)
    (severity : DiagnosticSeverity) (message : String) : List RuntimeConfigurationDiagnostic :=
  if diagnostics = [] then
    [recipeAvailabilityDiagnostic recipeId severity "recipe_availability_unresolved" message]
  else diagnostics

def withoutBlockers (diagnostics : List RuntimeConfigurationDiagnostic) (recipeId : String)
    (severity : DiagnosticSeverity) (unsupported : List String) (message : String) :
    List RuntimeConfigurationDiagnostic :=
  if unsupported = [] then
    diagnostics ++
      [recipeAvailabilityDiagnostic recipeId severity "recipe_availability_unresolved" message]
  else
    (diagnostics.filter fun diagnostic => diagnostic.code ≠ "unsupported_runtime_capability") ++
      [unsupportedCapabilityDiagnostic recipeId severity unsupported]

section

/-- What ends the classification of a Recipe before its blockers are known. -/
inductive AvailabilityStop where
  | panicked (panic : PlannerPanic)
  | answered (availability : RecipeAvailability) (diagnostics : List RuntimeConfigurationDiagnostic)

def planned {α : Type} : Except PlannerPanic α → Except AvailabilityStop α
  | .ok value => .ok value
  | .error panic => .error (.panicked panic)

def unavailable (diagnostics : List RuntimeConfigurationDiagnostic) : AvailabilityStop :=
  .answered ⟨false, []⟩ diagnostics

structure Search where
  input : PlannerInput
  diagnostics : List RuntimeConfigurationDiagnostic
  missingCandidates : List String
  unsupportedCapabilities : List String

variable (host : Host) (checks : AuthorityChecks) (prepared : PreparedConfiguration)
  (recipe : Authored.Recipe) (appDefinitions : List AppDefinition)

def availabilitySeverity : DiagnosticSeverity :=
  if recipe.id ∈ prepared.expandedRecipeRefs then .error else .warning

def candidateCapabilities (capabilities : RuntimeCapabilities) (steps : List ExecutionStep) :
    List String :=
  sortedSet ((steps.flatMap fun step => step.constraints.capabilities).filter fun capability =>
    !runtimeCapabilityAvailable capabilities capability)

def beforeSearch : Except AvailabilityStop Search := do
  let severity := availabilitySeverity prepared recipe
  let planId := "plan." ++ prepared.effectiveDevicePlan ++ ".001"
  match { prepared with selectedRecipeRefs := [recipe.id] }.plannerInput planId with
  | none => .error (unavailable [])
  | some input => do
      let actual ← planned (planExecutionForRecipeAvailability host checks input appDefinitions)
      let diagnostics := recipePlannerDiagnostics actual recipe.id severity false
      if planningResultHasSteps actual then .error (.answered ⟨true, []⟩ diagnostics)
      else if !planningResultIsEmptyOnly actual then
        .error (unavailable (orUnresolved diagnostics recipe.id severity
          "The planner could not determine whether this Recipe has a runnable graph."))
      else do
        -- separates work that was pruned for its capabilities from a graph without work
        let upperBound ← planned (planExecutionForRecipeAvailabilityUpperBound host checks
          { input with runtimeCapabilities := allRuntimeCapabilities } appDefinitions)
        let both := diagnostics ++ recipePlannerDiagnostics upperBound recipe.id severity false
        if !planningResultHasSteps upperBound then
          if planningResultIsEmptyOnly upperBound then .error (.answered ⟨true, []⟩ both)
          else .error (unavailable (orUnresolved both recipe.id severity
            ("The planner could not validate this Recipe graph even with all device " ++
              "capabilities enabled.")))
        else
          let candidates := candidateCapabilities input.runtimeCapabilities (stepsOfPlan upperBound)
          let recognized (capability : String) :=
            (setRuntimeCapability input.runtimeCapabilities capability true).isSome
          let missing := candidates.filter recognized
          let unsupported := candidates.filter fun capability => !recognized capability
          if missing = [] then
            .error (unavailable (withoutBlockers both recipe.id severity unsupported
              "The planner pruned all work without identifying a missing runtime capability."))
          else .ok ⟨input, diagnostics, missing, unsupported⟩

/-- The capabilities with those of a subset added, or the first name that is not recognized. -/
def addCapabilities (capabilities : RuntimeCapabilities) (subset : List String) :
    Except String RuntimeCapabilities :=
  subset.foldlM (fun capabilities capability =>
    match setRuntimeCapability capabilities capability true with
    | some more => .ok more
    | none => .error capability) capabilities

def capabilitySubsets (candidates : List String) : List (List String) :=
  nonemptyCombinations candidates

def probeSubset (search : Search) (minimalSolutions : List (List String)) (subset : List String) :
    Except AvailabilityStop (List (List String)) := do
  let severity := availabilitySeverity prepared recipe
  if minimalSolutions.any fun solution => solution.all fun capability => subset.contains capability then
    return minimalSolutions
  else
    match addCapabilities search.input.runtimeCapabilities subset with
    | .error capability => .error (unavailable (search.diagnostics ++
        [recipeAvailabilityDiagnostic recipe.id severity "recipe_availability_unknown_capability"
          ("The planner selected an unsupported runtime capability: " ++ capability ++ ".")]))
    | .ok capabilities => do
        let probe ← planned (planExecutionForRecipeAvailability host checks
          { search.input with runtimeCapabilities := capabilities } appDefinitions)
        if planningResultHasSteps probe then return minimalSolutions ++ [subset]
        else if !planningResultIsEmptyOnly probe then
          .error (unavailable (orUnresolved
            (search.diagnostics ++ recipePlannerDiagnostics probe recipe.id severity false) recipe.id
            severity "The planner could not validate a capability candidate graph."))
        else return minimalSolutions

def classify : Except AvailabilityStop (RecipeAvailability × List RuntimeConfigurationDiagnostic) := do
  let search ← beforeSearch host checks prepared recipe appDefinitions
  let minimalSolutions ← (capabilitySubsets search.missingCandidates).foldlM
    (probeSubset host checks prepared recipe appDefinitions search) []
  let blockers := sortedSet minimalSolutions.flatten
  let diagnostics :=
    if blockers = [] then
      withoutBlockers search.diagnostics recipe.id (availabilitySeverity prepared recipe)
        search.unsupportedCapabilities
        ("The planner found executable work but no missing capability set that restores a " ++
          "runnable graph.")
    else search.diagnostics
  return (⟨false, blockers⟩, diagnostics)

def recipeAvailability :
    Except PlannerPanic (RecipeAvailability × List RuntimeConfigurationDiagnostic) :=
  match classify host checks prepared recipe appDefinitions with
  | .ok answer => .ok answer
  | .error (.answered availability diagnostics) => .ok (availability, diagnostics)
  | .error (.panicked panic) => .error panic

end

end EmuChef.Configuration
