import EmuChef.Lib.Dependency
import EmuChef.Lib.Checks
import EmuChef.Planner.Recipe
import Mathlib.Data.List.Sort
import Mathlib.Data.String.Basic
import Mathlib.Data.Finset.Basic

/-! Which steps of the expanded Recipes a plan runs: availability, dependencies and the pruning of
unbound optional inputs. -/

namespace EmuChef.Planner

open Dependency

structure ResolvedStepUsage where
  dest : Option String
  destKind : Option AppTargetKind
  skipIfPaths : List (Option String)
  verifyPaths : List (Option String)
  capabilities : List String

section

variable (recipes : OrderedMap String Recipe) (expandedRecipeRefs : List String)
  (inputBindings : OrderedMap String Json) (runtimeCapabilities : RuntimeCapabilities)
  (targetUsage : OrderedMap String ResolvedStepUsage)
  (assumeUnrecognizedCapabilitiesAvailable reportUnrecognizedCapabilityWarnings : Bool)

def capabilityAvailable (name : String) : Bool :=
  match RuntimeCapability.fromName name with
  | some capability => capability.isAvailable runtimeCapabilities
  | none => assumeUnrecognizedCapabilitiesAvailable

def unsupportedCapabilityWarning (recipeId stepId capability : String) : PlannerMessage :=
  { code := "unsupported_runtime_capability"
    message := "The planner pruned this step because it requires unsupported runtime capability '" ++
      capability ++ "'; update the Recipe to use a capability supported by the planner."
    details := .object [("recipe_ref", .string recipeId), ("step_id", .string stepId),
      ("capability", .string capability)] }

def unsupportedCapabilityWarnings (recipeId stepId : String) (capabilities : List String) :
    List PlannerMessage :=
  if reportUnrecognizedCapabilityWarnings ∧ ¬assumeUnrecognizedCapabilitiesAvailable then
    let unsupported := capabilities.filter fun name => (RuntimeCapability.fromName name).isNone
    (unsupported.dedup.insertionSort (· ≤ ·)).map (unsupportedCapabilityWarning recipeId stepId)
  else []

structure StepAvailability where
  availabilityByStepId : OrderedMap String Bool
  availableByLocalStepId : OrderedMap String Bool
  requestedLocalStepIds : List String
  warnings : List PlannerMessage

def stepUsage (stepId : String) : Except PlannerPanic ResolvedStepUsage :=
  match targetUsage.get? stepId with
  | some usage => .ok usage
  | none => .error (.missingTargetUsage stepId)

def stepAvailability (recipeId : String) (found : StepAvailability) (step : Step) :
    Except PlannerPanic StepAvailability := do
  let stepId := makeExecutionStepId recipeId step.id
  let usage ← stepUsage targetUsage stepId
  let available := usage.capabilities.all
    (capabilityAvailable runtimeCapabilities assumeUnrecognizedCapabilitiesAvailable)
  return {
    availabilityByStepId := found.availabilityByStepId.insert stepId available
    availableByLocalStepId := found.availableByLocalStepId.insert step.id available
    requestedLocalStepIds :=
      if available then found.requestedLocalStepIds ++ [step.id] else found.requestedLocalStepIds
    warnings := found.warnings ++ unsupportedCapabilityWarnings
      assumeUnrecognizedCapabilitiesAvailable reportUnrecognizedCapabilityWarnings
      recipeId step.id usage.capabilities }

end

def dependencyCycleMessage (recipeId : String) (cycle : List String) : PlannerMessage :=
  { code := "dependency_cycle"
    message := "Step dependency cycle detected in recipe '" ++ recipeId ++ "'."
    details := .object [("recipe_ref", .string recipeId), ("cycle", Json.strings cycle)] }

def selfStepDependencyMessage (recipeId stepId dependency : String) : PlannerMessage :=
  { code := "self_step_dependency"
    message := "Step '" ++ stepId ++ "' may not depend on itself via dependency '" ++ dependency ++
      "'."
    details := .object [("recipe_ref", .string recipeId), ("step_id", .string stepId),
      ("dependency", .string dependency)] }

def unknownStepDependencyMessage (recipeId stepId dependency : String) : PlannerMessage :=
  { code := "unknown_step_dependency"
    message := "Step '" ++ stepId ++ "' depends on unknown authored step '" ++ dependency ++ "'."
    details := .object [("recipe_ref", .string recipeId), ("step_id", .string stepId),
      ("dependency", .string dependency)] }

def firstOccurrences (items : List String) : List String := items.reverse.dedup.reverse

@[simp] theorem mem_firstOccurrences {item : String} {items : List String} :
    item ∈ firstOccurrences items ↔ item ∈ items := by
  simp [firstOccurrences]

def uniqueDependencyIds (dependencies : List String) : List String := firstOccurrences dependencies

/-- Visit a step and what it depends on. The ids in `stack` are those whose visit is open:
the source also keeps them in its set `temporary`. An error is the cycle that was found. -/
def visitStepDependencyCycle (stepById : OrderedMap String Step) (fuel : Nat) (stepId : String)
    (permanent : Finset String) (stack : List String) : Except (List String) (Finset String) :=
  match fuel with
  | 0 => .ok permanent
  | fuel + 1 =>
      if stepId ∈ permanent then .ok permanent
      else if stepId ∈ stack then .error (stack.drop (stack.idxOf stepId) ++ [stepId])
      else
        match stepById.get? stepId with
        | none => .ok permanent
        | some step => do
            let visited ← (uniqueDependencyIds step.dependencies).foldlM (fun permanent dependency =>
              visitStepDependencyCycle stepById fuel dependency permanent (stack ++ [stepId])) permanent
            return insert stepId visited

def validateStepDependencyCycles (recipeId : String) (steps : List (String × Step)) :
    List PlannerMessage :=
  let stepById := OrderedMap.ofList steps
  let visited := steps.foldlM (fun permanent entry =>
    visitStepDependencyCycle stepById (steps.length + 1) entry.1 permanent []) ∅
  match visited with
  | .error cycle => [dependencyCycleMessage recipeId cycle]
  | .ok _ => []

def availableStepDependencyErrors (recipe : Recipe) (byId : OrderedMap String Step)
    (stepId : String) : List PlannerMessage :=
  match byId.get? stepId with
  | none => []
  | some step =>
      (uniqueDependencyIds step.dependencies).flatMap fun dependency =>
        if dependency = stepId then [selfStepDependencyMessage recipe.id step.id dependency]
        else if byId.contains dependency then []
        else [unknownStepDependencyMessage recipe.id step.id dependency]

def validateAvailableStepDependencies (recipe : Recipe) (availableStepIds : List String)
    (byId : OrderedMap String Step) : List PlannerMessage :=
  let errors := availableStepIds.flatMap (availableStepDependencyErrors recipe byId)
  if errors.isEmpty then
    let requestedSteps := availableStepIds.filterMap fun stepId =>
      (byId.get? stepId).map fun step => (stepId, step)
    validateStepDependencyCycles recipe.id requestedSteps
  else errors

def stepsById (recipe : Recipe) : OrderedMap String Step :=
  .ofList (recipe.steps.map fun step => (step.id, step))

structure SelectCache where
  answers : OrderedMap String Bool
  errors : List PlannerMessage

def selectionCycleMessage (recipe : Recipe) (stepId : String) : PlannerMessage :=
  { code := "dependency_cycle"
    message := "Step dependency cycle detected in recipe '" ++ recipe.id ++ "'."
    details := .object [("recipe_ref", .string recipe.id), ("step_id", .string stepId)] }

/-- Whether a step and all that it depends on are authored and available. Every return takes
back what it added to `temporary`, so callers keep their own set. -/
def canSelectLocalStep (recipe : Recipe) (byId : OrderedMap String Step)
    (availableByLocalStepId : OrderedMap String Bool) (fuel : Nat) (stepId : String)
    (temporary : Finset String) (cache : SelectCache) : Bool × SelectCache :=
  match fuel with
  | 0 => (false, cache)
  | fuel + 1 =>
      match cache.answers.get? stepId with
      | some cached => (cached, cache)
      | none =>
          if stepId ∈ temporary then
            (false, if cache.errors.isEmpty then
              { cache with errors := [selectionCycleMessage recipe stepId] } else cache)
          else
            match byId.get? stepId with
            | none => (false, { cache with answers := cache.answers.insert stepId false })
            | some step =>
                let available := (availableByLocalStepId.get? stepId).getD false
                -- `&&` and `all` stop at the first false answer
                let (allowed, after) := step.dependencies.foldl
                  (fun (allowed, cache) dependency =>
                    if allowed then
                      canSelectLocalStep recipe byId availableByLocalStepId fuel dependency
                        (insert stepId temporary) cache
                    else (false, cache))
                  (available, cache)
                (allowed, { after with answers := after.answers.insert stepId allowed })

def addLocalStepWithDependencies (byId : OrderedMap String Step) (fuel : Nat) (stepId : String)
    (selected : Finset String) : Finset String :=
  match fuel with
  | 0 => selected
  | fuel + 1 =>
      if stepId ∈ selected then selected
      else
        match byId.get? stepId with
        | none => selected
        | some step =>
            insert stepId (step.dependencies.foldl (fun selected dependency =>
              addLocalStepWithDependencies byId fuel dependency selected) selected)

def selectRequestedStep (recipe : Recipe) (byId : OrderedMap String Step)
    (availableByLocalStepId : OrderedMap String Bool) (found : Finset String × SelectCache)
    (requestedId : String) : Finset String × SelectCache :=
  let (allowed, cache) := canSelectLocalStep recipe byId availableByLocalStepId
    (recipe.steps.length + 1) requestedId ∅ found.2
  (if allowed then addLocalStepWithDependencies byId (recipe.steps.length + 1) requestedId found.1
    else found.1, cache)

def selectLocalStepIds (recipe : Recipe) (requestedLocalStepIds : List String)
    (availableByLocalStepId : OrderedMap String Bool) : Finset String × List PlannerMessage :=
  let byId := stepsById recipe
  let dependencyErrors := validateAvailableStepDependencies recipe requestedLocalStepIds byId
  if dependencyErrors.isEmpty then
    let (selected, cache) := requestedLocalStepIds.foldl
      (selectRequestedStep recipe byId availableByLocalStepId) (∅, ⟨.empty, []⟩)
    if cache.errors.isEmpty then (selected, []) else (∅, cache.errors)
  else (∅, dependencyErrors)

section

variable (recipes : OrderedMap String Recipe) (expandedRecipeRefs : List String)
  (inputBindings : OrderedMap String Json)

def referencedInputId (recipeId : String) (value : ParamValue) : Option String :=
  match value with
  | .ref reference =>
      match parseReference reference with
      | some (.input targetId) => some (makeExecutionInputId recipeId targetId)
      | _ => none
  | _ => none

def referencedInputIds (recipeId : String) (step : Step) : List String :=
  firstOccurrences (step.params.values.filterMap (referencedInputId recipeId))

/-- The Recipe and input that a qualified input id names: its parts around the first slash. -/
def splitQualifiedId (qualifiedId : String) : Option (String × String) :=
  (Split.splitOnce ['/'] qualifiedId.toList).map fun parts =>
    (String.ofList parts.1, String.ofList parts.2)

def inputDeclaration (inputId : String) : Option InputDeclaration :=
  (splitQualifiedId inputId).bind fun (recipeId, localInputId) =>
    (recipes.get? recipeId).bind fun recipe => recipe.inputs.get? localInputId

def optionalInputIsUnbound (inputId : String) : Bool :=
  match inputDeclaration recipes inputId with
  | none => false
  | some declaration =>
      !declaration.required && !inputBindings.contains inputId && declaration.default.isNull

def addDependent (dependencyId : String) (dependents : Finset String) (step : Step) :
    Finset String :=
  if step.id = dependencyId ∨ step.id ∈ dependents then dependents
  else if dependencyId ∈ step.dependencies ∨ ∃ item ∈ step.dependencies, item ∈ dependents then
    insert step.id dependents
  else dependents

def dependentRound (recipe : Recipe) (dependencyId : String) (dependents : Finset String) :
    Finset String :=
  recipe.steps.foldl (addDependent dependencyId) dependents

def dependentStepIds (recipe : Recipe) (dependencyId : String) : Finset String :=
  saturate (dependentRound recipe dependencyId) (recipe.steps.length + 1) ∅

def stepRemovals (selected : Finset String) (availabilityByStepId : OrderedMap String Bool)
    (recipeId : String) (recipe : Recipe) (step : Step) : Finset String :=
  let stepId := makeExecutionStepId recipeId step.id
  if stepId ∉ selected ∨ (availabilityByStepId.get? stepId).getD false = false then ∅
  else if ((referencedInputIds recipeId step).filter
      (optionalInputIsUnbound recipes inputBindings)).isEmpty then ∅
  else insert stepId ((dependentStepIds recipe step.id).image (makeExecutionStepId recipeId))

def recipeRemovals (selected : Finset String) (availabilityByStepId : OrderedMap String Bool)
    (recipeId : String) : Finset String :=
  match recipes.get? recipeId with
  | none => ∅
  | some recipe => recipe.steps.foldl (fun removed step =>
      removed ∪ stepRemovals recipes inputBindings selected availabilityByStepId recipeId recipe step) ∅

def removedStepIds (availabilityByStepId : OrderedMap String Bool) (selected : Finset String) :
    Finset String :=
  expandedRecipeRefs.foldl (fun removed recipeId =>
    removed ∪ recipeRemovals recipes inputBindings selected availabilityByStepId recipeId) ∅

def pruneRounds (availabilityByStepId : OrderedMap String Bool) (fuel : Nat)
    (selected : Finset String) : Finset String :=
  match fuel with
  | 0 => selected
  | fuel + 1 =>
      let removed := removedStepIds recipes expandedRecipeRefs inputBindings availabilityByStepId
        selected
      if removed = ∅ then selected
      else pruneRounds availabilityByStepId fuel (selected \ removed)

def pruneOptionalInputSteps (selectedStepIds : Finset String)
    (availabilityByStepId : OrderedMap String Bool) : Finset String :=
  pruneRounds recipes expandedRecipeRefs inputBindings availabilityByStepId
    (selectedStepIds.card + 1) selectedStepIds

end

section

variable (recipes : OrderedMap String Recipe) (expandedRecipeRefs : List String)
  (inputBindings : OrderedMap String Json) (runtimeCapabilities : RuntimeCapabilities)
  (targetUsage : OrderedMap String ResolvedStepUsage)
  (assumeUnrecognizedCapabilitiesAvailable reportUnrecognizedCapabilityWarnings : Bool)

structure Selection where
  selected : Finset String
  availabilityByStepId : OrderedMap String Bool
  errors : List PlannerMessage
  warnings : List PlannerMessage

def selectRecipe (found : Selection) (recipeId : String) : Except PlannerPanic Selection :=
  match recipes.get? recipeId with
  | none => .ok found
  | some recipe => do
      let steps ← recipe.steps.foldlM
        (stepAvailability runtimeCapabilities targetUsage assumeUnrecognizedCapabilitiesAvailable
          reportUnrecognizedCapabilityWarnings recipeId)
        ⟨found.availabilityByStepId, .empty, [], found.warnings⟩
      let localSelection :=
        selectLocalStepIds recipe steps.requestedLocalStepIds steps.availableByLocalStepId
      return {
        selected := found.selected ∪ localSelection.1.image (makeExecutionStepId recipeId)
        availabilityByStepId := steps.availabilityByStepId
        errors := found.errors ++ localSelection.2
        warnings := steps.warnings }

def selectedStepIds : Except PlannerPanic
    (Finset String × List PlannerMessage × List PlannerMessage) := do
  let found ← expandedRecipeRefs.foldlM
    (selectRecipe recipes runtimeCapabilities targetUsage assumeUnrecognizedCapabilitiesAvailable
      reportUnrecognizedCapabilityWarnings) ⟨∅, .empty, [], []⟩
  return if found.errors.isEmpty then
    (pruneOptionalInputSteps recipes expandedRecipeRefs inputBindings found.selected
      found.availabilityByStepId, [], found.warnings)
  else (∅, found.errors, found.warnings)

end

end EmuChef.Planner
