import EmuChef.Planner.DataFlow
import EmuChef.Planner.ErrorCodes

/-! What a planning that succeeds says of the same planning with other capabilities. -/

namespace EmuChef.Planner

open Authored (AppDefinition)
open Dependency Relation

variable {host : Host} {checks : AuthorityChecks} {input : PlannerInput}
  {appDefinitions : List AppDefinition} {mode : PlanningMode} {prepared : Prepared} {chosen : Chosen}
  {ordered : List PlannedStep} {plan : ExecutionPlan} {warnings : List PlannerMessage}
  {selected : Finset String}

theorem prepare_capabilities (capabilities : RuntimeCapabilities) {other : PlanningMode}
    (same : mode.ignoreBindingDiagnostics = other.ignoreBindingDiagnostics) :
    prepare host checks { input with runtimeCapabilities := capabilities } appDefinitions mode =
      prepare host checks input appDefinitions other := by
  simp only [prepare, same]
  rfl

theorem prepares_of_success
    (success : planExecutionWithAppDefinitionsInner host checks input appDefinitions mode =
      .ok (.success plan warnings)) : ∃ prepared selected chosen ordered,
        prepare host checks input appDefinitions mode = .ok prepared ∧
          choose input mode prepared = .ok chosen ∧
          Succeeds host checks input appDefinitions mode prepared selected chosen ordered plan := by
  simp only [planExecutionWithAppDefinitionsInner] at success
  split at success
  next found emitted done =>
    cases Except.ok.inj success
    simp only [planning, Checks.bind_eq_ok, running_eq_ok] at done
    obtain ⟨prepared, prepares, chosen, chooses, _, validated, ordered, sorts, _, emits, built⟩ := done
    cases Except.ok.inj built
    obtain ⟨selected, chosenBy⟩ := chosenBy_of_choose chooses
    exact ⟨prepared, selected, chosen, ordered, prepares, chooses, preparedBy_of_prepare prepares,
      chosenBy, validateChosen_eq_ok.mp validated, orderSteps_eq_ok sorts, emits⟩
  next =>
    have other := Except.ok.inj success
    cases other
  next => cases success

section

variable {errors : List PlannerMessage}

theorem bind_eq_error {ε α β : Type} {first : Except ε α} {next : α → Except ε β} {error : ε} :
    (first >>= next) = .error error ↔
      first = .error error ∨ ∃ value, first = .ok value ∧ next value = .error error := by
  cases first with
  | error found =>
      change Except.error found = .error error ↔ _
      simp
  | ok value =>
      change next value = .error error ↔ _
      simp

theorem refuse_eq_error {found foundWarnings : List PlannerMessage}
    (stopped : refuse found foundWarnings = .error (.refused errors warnings)) : errors = found := by
  unfold refuse at stopped
  split at stopped
  next => cases stopped
  next =>
    cases Except.error.inj stopped
    rfl

theorem running_ne_refused {α : Type} {result : Except PlannerPanic α} :
    running result ≠ .error (.refused errors warnings) := by
  intro stopped
  cases result with
  | ok value => cases stopped
  | error panic =>
      have other := Except.error.inj stopped
      cases other

theorem namesCause_choose (stopped : choose input mode prepared = .error (.refused errors warnings)) :
    NamesCause errors := by
  simp only [choose, bind_eq_error, running_eq_ok] at stopped
  rcases stopped with failed | ⟨⟨selected, found, reported⟩, selects, failed | ⟨_, _, failed⟩⟩
  · exact absurd failed running_ne_refused
  · rw [refuse_eq_error failed]
    exact namesCause_selection selects
  · cases failed

theorem namesCause_validateChosen
    (stopped : validateChosen host checks mode prepared chosen = .error (.refused errors warnings)) :
    NamesCause errors := by
  simp only [validateChosen, bind_eq_error] at stopped
  rcases stopped with failed | ⟨_, _, failed | ⟨_, _, failed | ⟨_, _, failed | ⟨_, _, failed |
    ⟨_, _, failed⟩⟩⟩⟩⟩
  · rw [refuse_eq_error failed]
    exact namesCause_appAuthority
  · rw [refuse_eq_error failed]
    exact namesCause_userProvidedInputs
  · rw [refuse_eq_error failed]
    exact namesCause_stepParamContracts
  · rw [refuse_eq_error failed]
    exact namesCause_emittedDependencies
  · rw [refuse_eq_error failed]
    exact namesCause_artifactSelections
  · rw [refuse_eq_error failed]
    exact namesCause_stepRefs

theorem namesCause_sort {steps : List PlannedStep}
    (sorts : topologicallySortSteps steps = .ok (ordered, errors)) : NamesCause errors := by
  unfold topologicallySortSteps at sorts
  split at sorts
  next => cases sorts
  next =>
    dsimp only at sorts
    split at sorts
    next =>
      cases Except.ok.inj sorts
      simp [stepCycleMessage]
    next =>
      cases Except.ok.inj sorts
      exact namesCause_nil

theorem orderSteps_refuses
    (stopped : orderSteps input chosen = .error (.refused errors warnings)) :
    NamesCause errors ∨ chosen.steps = [] := by
  simp only [orderSteps, bind_eq_error, running_eq_ok] at stopped
  rcases stopped with failed | ⟨⟨ordered, found⟩, sorts, failed | ⟨_, silent, failed | ⟨_, _, failed⟩⟩⟩
  · exact absurd failed running_ne_refused
  · rw [refuse_eq_error failed]
    exact .inl (namesCause_sort sorts)
  · right
    obtain rfl : found = [] := refuse_eq_ok.mp silent
    obtain ⟨_, _, _, _, perm⟩ := topologicallySortSteps_eq_ok sorts
    by_cases none : ordered = []
    · rw [none] at perm
      exact perm.nil_eq.symm
    · rw [if_neg none] at failed
      cases failed
  · cases failed

theorem chosen_empty (prepares : prepare host checks input appDefinitions mode = .ok prepared)
    (refused : planExecutionWithAppDefinitionsInner host checks input appDefinitions mode =
      .ok (.error errors warnings)) (occupied : errors ≠ [])
    (empty : ∀ error ∈ errors, error.code = "empty_execution_plan") :
    ∃ chosen, choose input mode prepared = .ok chosen ∧ chosen.steps = [] := by
  have silent : ¬ NamesCause errors := by
    intro cause
    obtain ⟨error, member⟩ := List.exists_mem_of_ne_nil errors occupied
    exact cause error member (empty error member)
  have stopped : planning host checks input appDefinitions mode =
      .error (.refused errors warnings) := by
    unfold planExecutionWithAppDefinitionsInner at refused
    split at refused
    next =>
      have other := Except.ok.inj refused
      cases other
    next found reported stopped =>
      have same := Except.ok.inj refused
      cases same
      exact stopped
    next => cases refused
  simp only [planning, bind_eq_error, prepares] at stopped
  rcases stopped with failed | ⟨_, same, failed | ⟨chosen, chooses, failed | ⟨_, _, failed |
    ⟨_, _, failed | ⟨_, _, failed⟩⟩⟩⟩⟩
  · cases failed
  · cases Except.ok.inj same
    exact absurd (namesCause_choose failed) silent
  · exact absurd (namesCause_validateChosen failed) silent
  · cases Except.ok.inj same
    exact ⟨chosen, chooses, (orderSteps_refuses failed).resolve_left silent⟩
  · exact absurd failed running_ne_refused
  · cases failed

end

section

def Prepared.selectable (prepared : Prepared) : OrderedMap String Recipe :=
  prepared.recipes.mapValues fun _ recipe => plannerRecipe recipe

/-- Steps that stand on their own: each is the one authored step of its id, they contain what they
depend on, and none lacks an input. -/
structure Standing (prepared : Prepared) (steps : List PlannedStep) : Prop where
  authored : ∀ planned ∈ steps, ∃ recipe, planned.recipeId ∈ prepared.expandedRecipeRefs ∧
    prepared.recipes.get? planned.recipeId = some recipe ∧ planned.step ∈ recipe.steps ∧
    planned.id = makeExecutionStepId planned.recipeId planned.step.id
  only : ∀ planned ∈ steps, ∀ recipeId ∈ prepared.expandedRecipeRefs, ∀ recipe,
    prepared.recipes.get? recipeId = some recipe → ∀ step ∈ recipe.steps,
    makeExecutionStepId recipeId step.id = planned.id →
    recipeId = planned.recipeId ∧ step = planned.step
  closed : ∀ planned ∈ steps, ∀ dependency ∈ planned.step.dependencies,
    ∃ next ∈ steps, next.recipeId = planned.recipeId ∧ next.step.id = dependency
  whole : ∀ planned ∈ steps, ¬ LacksInput prepared.selectable prepared.inputBindings planned.recipeId
    (plannerStep planned.step)

variable {steps : List PlannedStep} {planned : PlannedStep} {recipe : Authored.Recipe}

theorem dependsOn_plannerRecipe {stepId dependency : String} :
    DependsOn (plannerRecipe recipe) stepId dependency ↔
      ∃ step ∈ recipe.steps, step.id = stepId ∧ dependency ∈ step.dependencies := by
  constructor
  · rintro ⟨_, member, same, listed⟩
    obtain ⟨step, authored, rfl⟩ := List.mem_map.mp member
    exact ⟨step, authored, same, listed⟩
  · rintro ⟨step, authored, same, listed⟩
    exact ⟨plannerStep step, List.mem_map_of_mem authored, same, listed⟩

theorem Standing.reached (standing : Standing prepared steps) (listed : planned ∈ steps)
    (found : prepared.recipes.get? planned.recipeId = some recipe) {reached : String}
    (path : ReflTransGen (DependsOn (plannerRecipe recipe)) planned.step.id reached) :
    ∃ next ∈ steps, next.recipeId = planned.recipeId ∧ next.step.id = reached := by
  induction path with
  | refl => exact ⟨planned, listed, rfl, rfl⟩
  | tail _ edge ih =>
      obtain ⟨current, currentListed, home, rfl⟩ := ih
      obtain ⟨step, authored, same, named⟩ := dependsOn_plannerRecipe.mp edge
      obtain ⟨_, inRefs, _, _, qualified⟩ := standing.authored current currentListed
      have own : step = current.step := by
        refine (standing.only current currentListed current.recipeId inRefs recipe ?_ step authored
          ?_).2
        · rw [home]
          exact found
        · rw [same]
          exact qualified.symm
      subst own
      obtain ⟨next, nextListed, nextHome, nextNamed⟩ :=
        standing.closed current currentListed _ named
      exact ⟨next, nextListed, nextHome.trans home, nextNamed⟩

theorem dependsOn_of_authoredOnce {recipe : Recipe} {stepId dependency : String}
    (edge : DependsOn (authoredOnce recipe) stepId dependency) :
    DependsOn recipe stepId dependency := by
  obtain ⟨step, member, same, listed⟩ := edge
  obtain ⟨entry, held, rfl⟩ := List.mem_map.mp member
  exact ⟨entry.2, (mem_of_stepsById (OrderedMap.get?_eq_some.mpr held)).1, same, listed⟩

variable {capabilities : RuntimeCapabilities}

theorem Standing.selectable (standing : Standing prepared steps) {assume : Bool}
    (available : ∀ planned ∈ steps,
      StepAvailable capabilities prepared.targetUsage assume planned.id = true)
    (listed : planned ∈ steps) (found : prepared.recipes.get? planned.recipeId = some recipe) :
    SelectableIn capabilities prepared.targetUsage assume planned.recipeId
      (authoredOnce (plannerRecipe recipe)) planned.step.id := by
  intro reached path
  have wider := ReflTransGen.mono (fun _ _ => dependsOn_of_authoredOnce) _ _ path
  obtain ⟨next, nextListed, home, rfl⟩ := standing.reached listed found wider
  obtain ⟨nextRecipe, _, nextFound, authored, qualified⟩ := standing.authored next nextListed
  rw [home, found] at nextFound
  cases Option.some.inj nextFound
  refine ⟨authoredOnce_ids.mpr ⟨plannerStep next.step, List.mem_map_of_mem authored, rfl⟩, ?_⟩
  rw [← home, ← qualified]
  exact available next nextListed

theorem Standing.isChosen (standing : Standing prepared steps)
    (chooses : ChosenBy input mode prepared selected chosen)
    (available : ∀ planned ∈ steps, StepAvailable input.runtimeCapabilities prepared.targetUsage
      mode.assumeUnrecognizedCapabilitiesAvailable planned.id = true)
    (listed : planned ∈ steps) : planned ∈ chosen.steps := by
  obtain ⟨recipe, inRefs, found, authored, qualified⟩ := standing.authored planned listed
  obtain ⟨scan, folded, built⟩ := Checks.bind_eq_ok.mp chooses.selects
  have scanned := scanned_foldlM folded
  split at built
  next silent =>
    have selectedIs := (Prod.mk.inj (Except.ok.inj built)).1
    rw [pruneOptionalInputSteps_eq] at selectedIs
    rw [chooses.steps, mem_authoredSteps, ← selectedIs]
    refine ⟨recipe, inRefs, found, authored, qualified, Finset.mem_sdiff.mpr ⟨?_, ?_⟩⟩
    · rw [scanned.members (List.isEmpty_iff.mp silent)]
      refine ⟨planned.recipeId, inRefs, plannerRecipe recipe, ?_, planned.step.id,
        standing.selectable available listed found, qualified⟩
      rw [OrderedMap.get?_mapValues, found, Option.map_some]
    · intro removed
      obtain ⟨otherId, otherRefs, otherRecipe, known, lacking, member, removal⟩ :=
        mem_removedStepIds.mp removed
      obtain ⟨_, _, lacks, dependent, path, same⟩ := mem_stepRemovals.mp removal
      rw [OrderedMap.get?_mapValues, Option.map_eq_some_iff] at known
      obtain ⟨other, otherFound, rfl⟩ := known
      obtain ⟨blocked, blockedIn, rfl⟩ := List.mem_map.mp member
      have owned : ∃ owner ∈ other.steps, owner.id = dependent := by
        rcases path.cases_head with rfl | ⟨_, edge, _⟩
        · exact ⟨blocked, blockedIn, rfl⟩
        · obtain ⟨owner, owns, named, _⟩ := dependsOn_plannerRecipe.mp edge
          exact ⟨owner, owns, named⟩
      obtain ⟨owner, owns, rfl⟩ := owned
      obtain ⟨rfl, rfl⟩ := standing.only planned listed otherId otherRefs other otherFound owner owns
        same.symm
      -- the step that lacks an input is reached from the standing one, so it stands too
      obtain ⟨next, nextListed, home, named⟩ := standing.reached listed otherFound path
      obtain ⟨_, _, _, _, nextQualified⟩ := standing.authored next nextListed
      obtain ⟨_, rfl⟩ := standing.only next nextListed planned.recipeId inRefs other otherFound blocked
        blockedIn (by rw [nextQualified, home, named]; rfl)
      refine standing.whole next nextListed ?_
      rw [home]
      exact lacks
  next reported =>
    have none := (Prod.mk.inj (Prod.mk.inj (Except.ok.inj built)).2).1
    exact absurd (List.isEmpty_iff.mpr none) reported

theorem ChosenBy.selectedStep (chooses : ChosenBy input mode prepared selected chosen)
    (listed : planned ∈ chosen.steps) :
    StepAvailable input.runtimeCapabilities prepared.targetUsage
        mode.assumeUnrecognizedCapabilitiesAvailable planned.id = true ∧
      ¬ LacksInput prepared.selectable prepared.inputBindings planned.recipeId
        (plannerStep planned.step) := by
  rw [chooses.steps, mem_authoredSteps] at listed
  obtain ⟨recipe, authored⟩ := listed
  obtain ⟨scan, folded, built⟩ := Checks.bind_eq_ok.mp chooses.selects
  have scanned := scanned_foldlM folded
  split at built
  next silent =>
    have selectedIs := (Prod.mk.inj (Except.ok.inj built)).1
    rw [pruneOptionalInputSteps_eq] at selectedIs
    obtain ⟨member, kept⟩ := Finset.mem_sdiff.mp (selectedIs ▸ authored.selects)
    obtain ⟨recipeId, _, _, _, stepId, selectable, same⟩ :=
      (scanned.members (List.isEmpty_iff.mp silent) _).mp member
    have available := (selectable stepId .refl).2
    rw [← same] at available
    refine ⟨available, fun lacks => kept ?_⟩
    have known : prepared.selectable.get? planned.recipeId = some (plannerRecipe recipe) := by
      rw [Prepared.selectable, OrderedMap.get?_mapValues, authored.found, Option.map_some]
    have inside : plannerStep planned.step ∈ (plannerRecipe recipe).steps :=
      List.mem_map_of_mem authored.authored
    refine mem_removedStepIds.mpr ⟨planned.recipeId, authored.listed, plannerRecipe recipe, known,
      plannerStep planned.step, inside, mem_stepRemovals.mpr ⟨?_, ?_, lacks, planned.step.id, .refl,
        authored.qualified⟩⟩
    · change makeExecutionStepId planned.recipeId planned.step.id ∈ scan.selected
      rw [← authored.qualified]
      exact member
    · obtain ⟨answer, stored⟩ := Option.isSome_iff_exists.mp
        (scanned.present planned.recipeId authored.listed _ known _ inside)
      rw [stored, scanned.sound _ _ stored]
      change some (StepAvailable _ _ _ (makeExecutionStepId planned.recipeId planned.step.id)) = _
      rw [← authored.qualified, available]
  next reported =>
    have none := (Prod.mk.inj (Prod.mk.inj (Except.ok.inj built)).2).1
    exact absurd (List.isEmpty_iff.mpr none) reported

theorem Succeeds.standing
    (done : Succeeds host checks input appDefinitions mode prepared selected chosen ordered plan) :
    Standing prepared chosen.steps where
  authored planned listed := by
    obtain ⟨recipe, authored⟩ := done.authored.mp listed
    exact ⟨recipe, authored.listed, authored.found, authored.authored, authored.qualified⟩
  only planned listed recipeId inRefs recipe found step inside same := by
    obtain ⟨_, authored⟩ := done.authored.mp listed
    have again : (⟨planned.id, recipeId, step⟩ : PlannedStep) = planned :=
      done.same_planned (done.authored.mpr
        ⟨recipe, inRefs, found, inside, same.symm, authored.selects⟩) listed rfl
    rw [← again]
    exact ⟨rfl, rfl⟩
  closed planned listed dependency named := done.dependency_planned listed named
  whole planned listed := (done.chooses.selectedStep listed).2

end

end EmuChef.Planner
