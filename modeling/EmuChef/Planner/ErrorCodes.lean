import EmuChef.Planner.Admissible
import EmuChef.Planner.PlanLaw

/-! The passes of a planning name what is wrong: only a plan without steps is reported as empty. -/

namespace EmuChef.Planner

open Authored (AppDefinition)

def NamesCause (errors : List PlannerMessage) : Prop :=
  ∀ error ∈ errors, error.code ≠ "empty_execution_plan"

section

variable {α : Type} {errors others : List PlannerMessage}

@[simp] theorem namesCause_nil : NamesCause [] := fun _ member => absurd member List.not_mem_nil

@[simp] theorem namesCause_cons {error : PlannerMessage} :
    NamesCause (error :: errors) ↔ error.code ≠ "empty_execution_plan" ∧ NamesCause errors :=
  List.forall_mem_cons

@[simp] theorem namesCause_append :
    NamesCause (errors ++ others) ↔ NamesCause errors ∧ NamesCause others :=
  List.forall_mem_append

theorem namesCause_flatMap {items : List α} {report : α → List PlannerMessage}
    (each : ∀ item ∈ items, NamesCause (report item)) : NamesCause (items.flatMap report) := by
  intro error member
  obtain ⟨item, listed, found⟩ := List.mem_flatMap.mp member
  exact each item listed error found

theorem namesCause_map {items : List α} {report : α → PlannerMessage}
    (each : ∀ item ∈ items, (report item).code ≠ "empty_execution_plan") :
    NamesCause (items.map report) := by
  intro error member
  obtain ⟨item, listed, rfl⟩ := List.mem_map.mp member
  exact each item listed

theorem namesCause_ite {condition : Prop} [Decidable condition] (yes : NamesCause errors)
    (no : NamesCause others) : NamesCause (if condition then errors else others) := by
  split
  · exact yes
  · exact no

end

section

attribute [local simp] paramContractMessage permissionParamMessage unknownArtifactMessage
  unknownStepRefMessage noPrimaryOutputMessage unknownStepOutputMessage invalidRefFormatMessage
  duplicateArtifactMessage unknownArtifactGroupMessage

variable {recipes : OrderedMap String Authored.Recipe} {recipeId : String} {step : Authored.Step}
  {normalized : OrderedMap String ParamValue}

theorem namesCause_requireParam {paramName : String} {expected : Json} :
    NamesCause (requireParam recipeId step normalized paramName expected) := by
  unfold requireParam
  exact namesCause_ite namesCause_nil (by simp)

theorem namesCause_validateGivenParam {lenient : Bool} {accepts : ParamValue → Bool}
    {code text paramName : String} {expected : Json} (other : code ≠ "empty_execution_plan") :
    NamesCause (validateGivenParam recipeId step normalized lenient accepts code text paramName
      expected) := by
  unfold validateGivenParam
  split
  next => exact namesCause_nil
  next => exact namesCause_ite namesCause_nil (by simp [other])

theorem namesCause_hostOnlyParamErrors {paramName : String} :
    NamesCause (hostOnlyParamErrors recipeId step paramName) := by
  unfold hostOnlyParamErrors
  split
  next => exact namesCause_nil
  next => simp

theorem namesCause_specParamContracts {spec : StepSpec} :
    NamesCause (validateSpecParamContracts recipes recipeId step normalized spec) := by
  refine namesCause_flatMap fun entry _ => ?_
  unfold validateSpecParamContract validateRefParamContract invalidParamSource
  split
  next => exact namesCause_nil
  next =>
    split
    next => exact namesCause_nil
    next =>
      refine namesCause_ite (by simp) ?_
      split
      next => exact namesCause_nil
      next => exact namesCause_ite namesCause_nil (by simp)
  next => exact namesCause_ite namesCause_nil (by simp)
  next => exact namesCause_ite namesCause_nil (by simp)

theorem namesCause_extractArtifacts :
    NamesCause (validateExtractArtifactsParamValues recipes recipeId step normalized) := by
  unfold validateExtractArtifactsParamValues
  refine namesCause_ite (by simp) ?_
  simp only [namesCause_append]
  exact ⟨namesCause_validateGivenParam (by decide), namesCause_validateGivenParam (by decide),
    namesCause_validateGivenParam (by decide)⟩

theorem namesCause_extractArchive :
    NamesCause (validateExtractArchiveParamValues recipeId step normalized) := by
  unfold validateExtractArchiveParamValues
  simp only [namesCause_append]
  refine ⟨namesCause_requireParam, namesCause_validateGivenParam (by decide),
    namesCause_validateGivenParam (by decide), ?_⟩
  split
  next =>
    simp only [namesCause_append]
    exact ⟨namesCause_requireParam, namesCause_validateGivenParam (by decide),
      namesCause_validateGivenParam (by decide)⟩
  next => exact namesCause_flatMap fun _ _ => namesCause_hostOnlyParamErrors
  next => exact namesCause_nil

theorem namesCause_appPermission :
    NamesCause (validateAppPermissionParamValues recipeId step normalized) := by
  unfold validateAppPermissionParamValues
  simp only [namesCause_append]
  constructor
  · unfold validatePermissionSetParam
    split
    next => exact namesCause_ite namesCause_nil (by simp)
    next => simp
    next => simp
  · split
    next => simp
    next =>
      simp only [namesCause_append]
      refine ⟨namesCause_map fun _ _ => by simp, ?_⟩
      unfold validateFailurePolicy
      split
      next => exact namesCause_ite namesCause_nil (by
        simp)
      next => simp
    next => simp

theorem namesCause_focused :
    NamesCause (validateFocusedParamValues recipes recipeId step normalized) := by
  unfold validateFocusedParamValues
  split
  next =>
    unfold validateCopyFilesParamValues
    simp only [namesCause_append]
    exact ⟨namesCause_requireParam, namesCause_requireParam,
      namesCause_validateGivenParam (by decide)⟩
  next => exact namesCause_extractArtifacts
  next => exact namesCause_extractArchive
  next =>
    unfold validateInstallApkParamValues
    simp only [namesCause_append]
    exact ⟨namesCause_requireParam, namesCause_validateGivenParam (by decide)⟩
  next => exact namesCause_appPermission
  next =>
    unfold validateWaitParamValues
    simp only [namesCause_append]
    exact ⟨namesCause_requireParam, namesCause_validateGivenParam (by decide)⟩
  next => exact namesCause_nil

variable {steps : List PlannedStep}

theorem namesCause_stepParamContracts :
    NamesCause (validateStepParamContracts recipes steps) := by
  refine namesCause_flatMap fun planned _ => namesCause_ite ?_ namesCause_nil
  unfold validateParamContract
  split
  next => exact namesCause_nil
  next =>
    simp only [namesCause_append]
    exact ⟨namesCause_map fun _ _ => by simp, namesCause_specParamContracts,
      namesCause_focused⟩

theorem namesCause_artifactSelections :
    NamesCause (validateArtifactSelections recipes steps) := by
  refine namesCause_flatMap fun planned _ => namesCause_ite ?_ namesCause_nil
  refine namesCause_flatMap fun recipe _ => ?_
  unfold validateArtifactSelection
  simp only [namesCause_append]
  refine ⟨namesCause_map fun _ _ => by simp, ?_,
    namesCause_map fun _ _ => by simp⟩
  refine namesCause_flatMap fun groupId _ => ?_
  unfold validateArtifactGroup
  split
  next => simp
  next => exact namesCause_map fun _ _ => by simp

theorem namesCause_stepRefs : NamesCause (validateStepRefs steps) := by
  refine namesCause_flatMap fun planned _ => namesCause_flatMap fun entry _ => ?_
  split
  next =>
    refine namesCause_ite ?_ namesCause_nil
    unfold validateStepRef
    split
    next =>
      split
      next => simp
      next => exact namesCause_ite (by simp) namesCause_nil
    next =>
      split
      next => simp
      next => exact namesCause_ite namesCause_nil (by simp)
    next => simp
    next => exact namesCause_nil
    next => exact namesCause_nil
  next => exact namesCause_nil

end

theorem namesCause_dependencyCycles {recipeId : String} {steps : List (String × Step)} :
    NamesCause (validateStepDependencyCycles recipeId steps) := by
  unfold validateStepDependencyCycles
  dsimp only
  split
  next => simp [dependencyCycleMessage]
  next => exact namesCause_nil

theorem namesCause_emittedDependencies {steps : List PlannedStep} :
    NamesCause (validateEmittedStepDependencies steps) := by
  refine namesCause_flatMap fun recipeId _ => ?_
  unfold validateLocalStepDependencies
  refine namesCause_ite namesCause_dependencyCycles ?_
  refine namesCause_flatMap fun step _ => namesCause_flatMap fun dependency _ => ?_
  refine namesCause_ite (by simp [selfStepDependencyMessage]) ?_
  exact namesCause_ite namesCause_nil (by simp [nonEmittedStepDependencyMessage])

theorem namesCause_availableDependencies {recipe : Recipe} {requested : List String}
    {byId : OrderedMap String Step} :
    NamesCause (validateAvailableStepDependencies recipe requested byId) := by
  unfold validateAvailableStepDependencies
  refine namesCause_ite namesCause_dependencyCycles ?_
  refine namesCause_flatMap fun stepId _ => ?_
  unfold availableStepDependencyErrors
  split
  next => exact namesCause_nil
  next =>
    refine namesCause_flatMap fun dependency _ => ?_
    refine namesCause_ite (by simp [selfStepDependencyMessage]) ?_
    exact namesCause_ite namesCause_nil (by simp [unknownStepDependencyMessage])

section

variable {checks : AuthorityChecks} {apps : OrderedMap String AppDefinition} {host : Host}
  {recipes : OrderedMap String Authored.Recipe} {recipeId : String} {step : Authored.Step}

attribute [local simp] appAuthorityError stepError artifactError installProvenanceError

theorem namesCause_artifactAuthority {artifactId : String} {reference : Authored.AppArtifactReference} :
    NamesCause (artifactAuthorityErrors checks apps recipeId artifactId reference) := by
  unfold artifactAuthorityErrors
  refine namesCause_ite (by simp) ?_
  split
  next => simp
  next =>
    refine namesCause_ite namesCause_nil ?_
    split
    next => simp
    next =>
      simp only [namesCause_append]
      exact ⟨namesCause_ite (by simp) namesCause_nil,
        namesCause_ite (by simp) namesCause_nil⟩

variable {steps : List PlannedStep}

theorem namesCause_installBinding {recipe : Authored.Recipe} {app : AppDefinition} :
    NamesCause (validateAppInstallBinding recipe step app steps) := by
  unfold validateAppInstallBinding
  refine namesCause_ite (by simp) ?_
  split
  next => simp
  next =>
    split
    next =>
      refine namesCause_ite (by simp) ?_
      exact namesCause_ite (by simp) namesCause_nil
    next => simp

theorem namesCause_stepContext {appRef : String} {app : AppDefinition} :
    NamesCause (stepContextErrors recipes steps recipeId step appRef app) := by
  unfold stepContextErrors
  refine namesCause_ite (by simp) ?_
  simp only [namesCause_append]
  refine ⟨?_, namesCause_map fun _ _ => by simp,
    namesCause_ite (namesCause_flatMap fun _ _ => namesCause_installBinding) namesCause_nil⟩
  unfold lifecycleErrors
  refine namesCause_ite ?_ namesCause_nil
  simp only [namesCause_append]
  exact ⟨namesCause_ite (by simp) namesCause_nil,
    namesCause_ite (by simp) namesCause_nil⟩

theorem namesCause_stepAuthority {planned : PlannedStep} :
    NamesCause (stepAuthorityErrors checks apps recipes steps planned) := by
  unfold stepAuthorityErrors
  split
  next =>
    unfold noContextErrors
    simp only [namesCause_append]
    exact ⟨namesCause_ite (by simp) namesCause_nil,
      namesCause_ite (by simp) namesCause_nil⟩
  next =>
    refine namesCause_ite (by simp) ?_
    split
    next => simp
    next => exact namesCause_ite namesCause_nil namesCause_stepContext

theorem namesCause_appAuthority {expandedRecipeRefs : List String} :
    NamesCause (validateAppAuthority checks apps recipes expandedRecipeRefs steps) := by
  unfold validateAppAuthority
  simp only [namesCause_append]
  refine ⟨namesCause_flatMap fun appId _ => ?_,
    namesCause_flatMap fun _ _ => namesCause_flatMap fun _ _ => namesCause_artifactAuthority,
    namesCause_flatMap fun _ _ => namesCause_stepAuthority⟩
  unfold appDefinitionErrors
  split
  next => exact namesCause_nil
  next => exact namesCause_ite namesCause_nil (by simp)

theorem namesCause_inputBinding {recipe : Authored.Recipe} {artifactId : String}
    {reference : Authored.AppArtifactReference} {artifact : Authored.AppArtifact} :
    NamesCause (staticArtifactInputBindingErrors recipeId recipe artifactId reference artifact) := by
  unfold staticArtifactInputBindingErrors
  refine namesCause_ite ?_ (namesCause_ite (by simp)
    namesCause_nil)
  split
  next => simp
  next =>
    split
    next => simp
    next => exact namesCause_ite (by simp) namesCause_nil

theorem namesCause_userProvidedInputs {inputBindings : OrderedMap String Json} {allow : Bool}
    {artifactIds : List String} : NamesCause (validateSelectedUserProvidedInputs apps host recipes
      inputBindings allow artifactIds) := by
  refine namesCause_flatMap fun selectedId _ => ?_
  unfold selectedArtifactInputErrors
  split
  next => exact namesCause_nil
  next =>
    split
    next => exact namesCause_nil
    next =>
      split
      next =>
        refine namesCause_flatMap fun artifact _ => ?_
        refine namesCause_ite namesCause_inputBinding ?_
        unfold missingValueErrors
        refine namesCause_ite namesCause_nil ?_
        split
        next => exact namesCause_nil
        next => exact namesCause_ite namesCause_nil (by simp)
      next => exact namesCause_nil

end

theorem namesCause_localSelection {recipe : Recipe} {available : OrderedMap String Bool}
    {requested : List String}
    (authored : ∀ id, Available available id → ∃ step ∈ recipe.steps, step.id = id)
    (asks : ∀ id, id ∈ requested ↔ Available available id) :
    NamesCause (selectLocalStepIds recipe requested available).2 := by
  unfold selectLocalStepIds
  by_cases valid : validateAvailableStepDependencies recipe requested (stepsById recipe) = []
  · have collected := collected_foldl (selecting_of_validated authored asks valid) requested
    simp [valid, collected.silent]
  · simpa [valid] using namesCause_availableDependencies

theorem namesCause_selectRecipe {recipes : OrderedMap String Recipe}
    {capabilities : RuntimeCapabilities} {usage : OrderedMap String ResolvedStepUsage}
    {assume report : Bool} {found next : Selection} {recipeId : String}
    (silent : NamesCause found.errors)
    (stepped : selectRecipe recipes capabilities usage assume report found recipeId = .ok next) :
    NamesCause next.errors := by
  rw [selectRecipe] at stepped
  split at stepped
  next missing =>
    cases Except.ok.inj stepped
    exact silent
  next recipe known =>
    obtain ⟨steps, folded, built⟩ := Checks.bind_eq_ok.mp stepped
    have scanned := stepsScanned_foldlM folded
    cases Except.ok.inj built
    refine namesCause_append.mpr ⟨silent, namesCause_localSelection
      (fun id usable => ((scanned.available_iff id).mp usable).1) fun id => ?_⟩
    rw [scanned.available_iff, scanned.requested, List.mem_filter, List.mem_map]

/-- Each error of the selection names its cause. -/
theorem namesCause_selection {recipes : OrderedMap String Recipe} {expandedRecipeRefs : List String}
    {bindings : OrderedMap String Json} {capabilities : RuntimeCapabilities}
    {usage : OrderedMap String ResolvedStepUsage} {assume report : Bool} {selected : Finset String}
    {errors warnings : List PlannerMessage}
    (selects : selectedStepIds recipes expandedRecipeRefs bindings capabilities usage assume report =
      .ok (selected, errors, warnings)) : NamesCause errors := by
  obtain ⟨found, folded, built⟩ := Checks.bind_eq_ok.mp selects
  have whole : NamesCause found.errors :=
    Checks.foldlM_invariant (fun _ (found : Selection) => NamesCause found.errors) namesCause_nil
      (fun _ _ _ _ _ _ silent stepped => namesCause_selectRecipe silent stepped) folded
  split at built
  next =>
    cases Except.ok.inj built
    exact namesCause_nil
  next =>
    cases Except.ok.inj built
    exact whole

end EmuChef.Planner
