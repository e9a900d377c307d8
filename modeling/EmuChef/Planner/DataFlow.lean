import EmuChef.Executor.RunLaw
import EmuChef.Planner.Resolution

/-! The order of the steps of a plan, and which of its values come from steps it depends on. -/

namespace EmuChef.Planner

open Authored (AppDefinition)
open Executor (DependenciesEarlier)
open Relation

variable {host : Host} {checks : AuthorityChecks} {input : PlannerInput}
  {appDefinitions : List AppDefinition} {mode : PlanningMode} {prepared : Prepared}
  {selected : Finset String} {chosen : Chosen} {ordered : List PlannedStep} {plan : ExecutionPlan}
  {warnings : List PlannerMessage}

section

theorem index_of_id {first second : Nat} {step other : ExecutionStep}
    (distinct : (plan.steps.map ExecutionStep.id).Nodup) (firstAt : plan.steps[first]? = some step)
    (secondAt : plan.steps[second]? = some other) (same : step.id = other.id) : first = second := by
  have inside := (List.getElem?_eq_some_iff.mp firstAt).1
  refine (List.getElem?_inj (by simpa using inside) distinct).mp ?_
  rw [List.getElem?_map, List.getElem?_map, firstAt, secondAt, Option.map_some, Option.map_some, same]

theorem dependsOn_iff_named (distinct : (plan.steps.map ExecutionStep.id).Nodup)
    (earlier : DependenciesEarlier plan) {later position : Nat} {step other : ExecutionStep}
    (here : plan.steps[later]? = some step) (there : plan.steps[position]? = some other) :
    Executor.DependsOn plan later position ↔ other.id ∈ step.dependencies := by
  constructor
  · rintro ⟨found, dependency, foundAt, dependencyAt, _, listed, _⟩
    obtain rfl := Option.some.inj (foundAt.symm.trans here)
    obtain rfl := Option.some.inj (dependencyAt.symm.trans there)
    exact listed
  · intro listed
    obtain ⟨place, found, before, foundAt, same⟩ := earlier later step here other.id listed
    obtain rfl := index_of_id distinct foundAt there same
    refine ⟨step, other, here, there, before, listed, ?_⟩
    intro between third after _ thirdAt equal
    have := index_of_id distinct thirdAt there equal
    omega

theorem local_of_silent {steps : List PlannedStep} (silent : validateEmittedStepDependencies steps = [])
    {planned : PlannedStep} (listed : planned ∈ steps) :
    (stepsOf steps planned.recipeId).flatMap (localStepDependencyErrors planned.recipeId
      ((stepsOf steps planned.recipeId).map Authored.Step.id)) = [] ∧
    validateStepDependencyCycles planned.recipeId
      ((stepsOf steps planned.recipeId).map fun step => (step.id, plannerStep step)) = [] := by
  have quiet := List.flatMap_eq_nil_iff.mp silent planned.recipeId
    (mem_firstOccurrences.mpr (List.mem_map_of_mem listed))
  simp only [validateLocalStepDependencies] at quiet
  split at quiet
  next clean => exact ⟨clean, quiet⟩
  next reported => exact absurd quiet reported

theorem planned_of_silent {steps : List PlannedStep} (silent : validateEmittedStepDependencies steps = [])
    {planned : PlannedStep} (listed : planned ∈ steps) {dependency : String}
    (named : dependency ∈ planned.step.dependencies) :
    ∃ next ∈ steps, next.recipeId = planned.recipeId ∧ next.step.id = dependency := by
  have inside : planned.step ∈ stepsOf steps planned.recipeId :=
    List.mem_map.mpr ⟨planned, List.mem_filter.mpr ⟨listed, by simp⟩, rfl⟩
  have errors := List.flatMap_eq_nil_iff.mp
    (List.flatMap_eq_nil_iff.mp (local_of_silent silent listed).1 planned.step inside) dependency
    (by simpa [uniqueDependencyIds] using named)
  split at errors
  next => cases errors
  next =>
    split at errors
    next known =>
      obtain ⟨step, stepIn, same⟩ := List.mem_map.mp known
      obtain ⟨next, nextIn, rfl⟩ := List.mem_map.mp stepIn
      obtain ⟨nextListed, home⟩ := List.mem_filter.mp nextIn
      exact ⟨next, nextListed, by simpa using home, same⟩
    next => cases errors

variable (done : Succeeds host checks input appDefinitions mode prepared selected chosen ordered plan)

include done

theorem Succeeds.dependenciesEarlier : DependenciesEarlier plan := by
  obtain ⟨order, found, long, same, perm⟩ := topologicallySortSteps_eq_ok done.sorts
  have ids : plan.steps.map ExecutionStep.id = order := done.step_ids.trans same
  intro later step here dependency listed
  obtain ⟨inside, rfl⟩ := List.getElem?_eq_some_iff.mp here
  obtain ⟨planned, planning, recipe, usage, emitted⟩ := done.emitted (List.getElem_mem inside)
  have bound : later < order.length := by rw [← ids, List.length_map]; exact inside
  have point : order[later] = planned.id := by
    rw [← emitted.id]
    simp only [← ids, List.getElem_map]
  have split : order = order.take later ++ planned.id :: order.drop (later + 1) := by
    rw [← point, ← List.drop_eq_getElem_cons bound, List.take_append_drop]
  have before := Kahn.dependency_before found (by simpa using long) split
    (List.mem_map.mpr ⟨planned, planning, rfl⟩) dependency (by
      rw [emitted.dependencies] at listed
      simpa [plannedDependencies, uniqueDependencyIds] using listed)
  obtain ⟨earlier, short, named⟩ := List.mem_take_iff_getElem.mp before
  have earlierIn : earlier < plan.steps.length := by
    rw [← List.length_map (f := ExecutionStep.id), ids]
    omega
  refine ⟨earlier, plan.steps[earlier], by omega, List.getElem?_eq_getElem earlierIn, ?_⟩
  rw [← named]
  simp only [← ids, List.getElem_map]

theorem Succeeds.dependency_planned {planned : PlannedStep} (listed : planned ∈ chosen.steps)
    {dependency : String} (named : dependency ∈ planned.step.dependencies) :
    ∃ next ∈ chosen.steps, next.recipeId = planned.recipeId ∧ next.step.id = dependency :=
  planned_of_silent done.validated.dependencies listed named

end

section

def AuthoredDependsOn (recipe : Authored.Recipe) (stepId dependency : String) : Prop :=
  ∃ step ∈ recipe.steps, step.id = stepId ∧ dependency ∈ step.dependencies

variable (done : Succeeds host checks input appDefinitions mode prepared selected chosen ordered plan)

include done

structure PlacedAt (prepared : Prepared) (selected : Finset String) (plan : ExecutionPlan)
    (recipe : Authored.Recipe) (recipeId : String) (position : Nat) (planned : PlannedStep) : Prop where
  authored : AuthoredIn prepared.recipes prepared.expandedRecipeRefs selected recipe planned
  home : planned.recipeId = recipeId
  emitted : ∃ step, plan.steps[position]? = some step ∧ step.id = planned.id

variable {recipe : Authored.Recipe} {recipeId : String} {later earlier : Nat} {planned : PlannedStep}

section

variable (authored : AuthoredIn prepared.recipes prepared.expandedRecipeRefs selected recipe planned)

include authored

theorem Succeeds.dependencies_eq {step : ExecutionStep}
    (here : plan.steps[later]? = some step) (same : step.id = planned.id) :
    step.dependencies = planned.step.dependencies.map (makeExecutionStepId planned.recipeId) := by
  obtain ⟨inside, rfl⟩ := List.getElem?_eq_some_iff.mp here
  obtain ⟨other, otherIn, _, _, emitted⟩ := done.emitted (List.getElem_mem inside)
  obtain rfl := done.same_planned otherIn (done.authored.mpr ⟨recipe, authored⟩)
    (emitted.id.symm.trans same)
  exact emitted.dependencies

theorem Succeeds.place {dependency : String} (named : dependency ∈ planned.step.dependencies) :
    ∃ position next, PlacedAt prepared selected plan recipe planned.recipeId position next ∧
      next.step.id = dependency := by
  obtain ⟨next, listed, home, same⟩ :=
    done.dependency_planned (done.authored.mpr ⟨recipe, authored⟩) named
  obtain ⟨nextRecipe, nextAuthored⟩ := done.authored.mp listed
  have found := nextAuthored.found
  rw [home, authored.found] at found
  obtain rfl := Option.some.inj found
  obtain ⟨step, member, _, _, emitted⟩ := done.emits_all listed
  obtain ⟨position, here⟩ := List.getElem?_of_mem member
  exact ⟨position, next, ⟨nextAuthored, home, step, here, emitted.id⟩, same⟩

theorem Succeeds.only_step {step : Authored.Step}
    (inside : step ∈ recipe.steps) (same : step.id = planned.step.id) : planned.step = step := by
  have only : (⟨planned.id, planned.recipeId, step⟩ : PlannedStep) = planned := by
    refine done.same_planned (done.authored.mpr ⟨recipe, ?_⟩)
      (done.authored.mpr ⟨recipe, authored⟩) rfl
    exact ⟨authored.listed, authored.found, inside, by rw [same]; exact authored.qualified,
      authored.selects⟩
  rw [← only]

end

variable (placed : PlacedAt prepared selected plan recipe recipeId later planned)

include placed

theorem Succeeds.edge_authored (edge : Executor.DependsOn plan later earlier) :
    ∃ next, PlacedAt prepared selected plan recipe recipeId earlier next ∧
      AuthoredDependsOn recipe planned.step.id next.step.id := by
  obtain ⟨authored, rfl, step, here, same⟩ := placed
  obtain ⟨found, other, foundAt, there, before, listed, latest⟩ := edge
  obtain rfl := Option.some.inj (foundAt.symm.trans here)
  rw [done.dependencies_eq authored here same] at listed
  obtain ⟨dependency, named, qualified⟩ := List.mem_map.mp listed
  obtain ⟨position, next, ⟨nextAuthored, home, target, targetAt, targetId⟩, rfl⟩ :=
    done.place authored named
  have equal : target.id = other.id := by
    rw [targetId, nextAuthored.qualified, home, qualified]
  obtain rfl := index_of_id done.step_ids_nodup targetAt there equal
  exact ⟨next, ⟨nextAuthored, home, target, targetAt, targetId⟩, planned.step, authored.authored, rfl,
    named⟩

theorem Succeeds.edge_emitted {dependency : String}
    (edge : AuthoredDependsOn recipe planned.step.id dependency) :
    ∃ position next, PlacedAt prepared selected plan recipe recipeId position next ∧
      next.step.id = dependency ∧ Executor.DependsOn plan later position := by
  obtain ⟨authored, rfl, step, here, same⟩ := placed
  obtain ⟨other, inside, equal, named⟩ := edge
  obtain rfl := done.only_step authored inside equal
  obtain ⟨position, next, nextPlaced, sameId⟩ := done.place authored named
  refine ⟨position, next, nextPlaced, sameId, ?_⟩
  obtain ⟨nextAuthored, home, target, targetAt, targetId⟩ := nextPlaced
  refine (dependsOn_iff_named done.step_ids_nodup done.dependenciesEarlier here targetAt).mpr ?_
  rw [done.dependencies_eq authored here same, targetId, nextAuthored.qualified, home, sameId]
  exact List.mem_map_of_mem named

theorem Succeeds.chain_authored (chain : TransGen (Executor.DependsOn plan) later earlier) :
    ∃ next, PlacedAt prepared selected plan recipe recipeId earlier next ∧
      TransGen (AuthoredDependsOn recipe) planned.step.id next.step.id := by
  induction chain with
  | single edge =>
      obtain ⟨next, nextPlaced, authored⟩ := done.edge_authored placed edge
      exact ⟨next, nextPlaced, .single authored⟩
  | tail _ edge ih =>
      obtain ⟨middle, middlePlaced, authoredChain⟩ := ih
      obtain ⟨next, nextPlaced, authored⟩ := done.edge_authored middlePlaced edge
      exact ⟨next, nextPlaced, authoredChain.tail authored⟩

theorem Succeeds.chain_emitted {dependency : String}
    (chain : TransGen (AuthoredDependsOn recipe) planned.step.id dependency) :
    ∃ position next, PlacedAt prepared selected plan recipe recipeId position next ∧
      next.step.id = dependency ∧ TransGen (Executor.DependsOn plan) later position := by
  induction chain with
  | single edge =>
      obtain ⟨position, next, nextPlaced, same, emitted⟩ := done.edge_emitted placed edge
      exact ⟨position, next, nextPlaced, same, .single emitted⟩
  | tail _ edge ih =>
      obtain ⟨middle, between, middlePlaced, rfl, emittedChain⟩ := ih
      obtain ⟨position, next, nextPlaced, same, emitted⟩ := done.edge_emitted middlePlaced edge
      exact ⟨position, next, nextPlaced, same, emittedChain.tail emitted⟩

end

section

def producerIds (refValues : List String) : List String :=
  refValues.filterMap fun refValue =>
    match executionReference refValue with
    | some (.stepOutput stepId _) => some stepId
    | _ => none

def referencedArtifacts (refValues : List String) : List String :=
  refValues.filterMap fun refValue =>
    match executionReference refValue with
    | some (.artifactField artifactId _) => some artifactId
    | _ => none

def ExecutionStep.selectedArtifacts (step : ExecutionStep) : List String :=
  match step.params.get? "artifacts" with
  | some (.literal (.array items)) => items.filterMap Json.asStr
  | _ => []

def ExecutionStep.consumedArtifacts (step : ExecutionStep) : List String :=
  referencedArtifacts (step.refs.map Prod.snd) ++
    if step.typeName = "extract_artifacts" then step.selectedArtifacts else []

def keptRefs (recipe : Authored.Recipe) (step : Authored.Step) : List String :=
  (keptParams step).filterMap fun entry => entry.2.reference?.map (normalizeRefForExecution recipe)

def selectedArtifactsOf (recipe : Authored.Recipe) (step : Authored.Step) : List String :=
  (selectedArtifacts recipe step).map (makeExecutionArtifactId recipe.id)

def consumedArtifactsOf (recipe : Authored.Recipe) (step : Authored.Step) : List String :=
  referencedArtifacts (keptRefs recipe step) ++
    if step.typeName = "extract_artifacts" then selectedArtifactsOf recipe step else []

variable {recipe : Authored.Recipe} {planned : PlannedStep} {usage : ResolvedStepUsage}
  {step : ExecutionStep}
  (emitted : EmittedFrom host input prepared selected recipe planned usage step)

include emitted

theorem EmittedFrom.mem_refs {refValue : String} :
    refValue ∈ step.refs.map Prod.snd ↔ refValue ∈ keptRefs recipe planned.step := by
  simp only [List.mem_map, Prod.exists, exists_eq_right, keptRefs, List.mem_filterMap,
    Option.map_eq_some_iff]
  constructor
  · rintro ⟨name, listed⟩
    obtain ⟨authored, kept, rfl⟩ :=
      (ref_mem_params emitted.params).mp (ExecutionStep.mem_refs.mp listed)
    exact ⟨name, .ref authored, kept, authored, rfl, rfl⟩
  · rintro ⟨name, value, kept, reference, held, rfl⟩
    cases value with
    | ref other =>
        obtain rfl : other = reference := by simpa [ParamValue.reference?] using held
        exact ⟨name, ExecutionStep.mem_refs.mpr
          ((ref_mem_params emitted.params).mpr ⟨other, kept, rfl⟩)⟩
    | literal content => exact nomatch held
    | appTarget targetId => exact nomatch held

theorem EmittedFrom.mem_producerIds {stepId : String} :
    stepId ∈ producerIds (step.refs.map Prod.snd) ↔
      stepId ∈ producerIds (keptRefs recipe planned.step) := by
  simp only [producerIds, List.mem_filterMap, emitted.mem_refs]

theorem EmittedFrom.selectedArtifacts_eq (selects : isArtifactStep planned.step.typeName = true) :
    step.selectedArtifacts = selectedArtifactsOf recipe planned.step := by
  have typed : planned.step.typeName = "resolve_artifacts" ∨
      planned.step.typeName = "extract_artifacts" := by simpa [isArtifactStep] using selects
  have spec : ∃ spec, stepSpecFor planned.step.typeName = some spec ∧
      "artifacts" ∉ spec.defaults.map Prod.fst ∧ "artifact_groups" ∉ spec.defaults.map Prod.fst := by
    rcases typed with same | same <;> rw [same] <;> decide
  obtain ⟨spec, found, artifacts, groups⟩ := spec
  have normal : step.params =
      normalizeArtifactSelection recipe (paramsWithDefaults planned.step) := by
    have params := emitted.params
    have permission : isAppPermissionStep planned.step = false := by
      rcases typed with same | same <;> simp [isAppPermissionStep, same]
    have lifecycle : lifecycleApp planned.step = none := by
      rcases typed with same | same <;> simp [lifecycleApp, isLifecycleStep, same]
    simp only [normalizeStepParamsForExecution, permission, lifecycle, selects, Bool.false_eq_true,
      if_false, if_true, Except.ok.injEq] at params
    exact params.symm
  have chosen : step.params.get? "artifacts" = some (.literal (Json.strings
      (selectedArtifactsOf recipe planned.step))) := by
    rw [normal, normalizeArtifactSelection, defaultParam_other found artifacts,
      defaultParam_other found groups]
    refine (OrderedMap.get?_ofList ?_).mpr (List.mem_append_left _ (List.mem_singleton.mpr rfl))
    split <;> simp
  simp only [ExecutionStep.selectedArtifacts, chosen, Json.strings, List.filterMap_map]
  exact List.filterMap_some

theorem EmittedFrom.mem_consumedArtifacts {artifactId : String} :
    artifactId ∈ step.consumedArtifacts ↔ artifactId ∈ consumedArtifactsOf recipe planned.step := by
  rw [ExecutionStep.consumedArtifacts, consumedArtifactsOf, List.mem_append, List.mem_append,
    emitted.typeName]
  refine or_congr ?_ ?_
  · simp only [referencedArtifacts, List.mem_filterMap, emitted.mem_refs]
  · by_cases extracts : planned.step.typeName = "extract_artifacts"
    · rw [if_pos extracts, if_pos extracts,
        emitted.selectedArtifacts_eq (by simp [isArtifactStep, extracts])]
    · rw [if_neg extracts, if_neg extracts]

end

section

open Executor (Done entered runWithProgressAndCancel)

/-- The step at one position depends on the other one: it stands later, and no run makes a call for
it before the other one is done. -/
structure Follows (plan : ExecutionPlan) (later earlier : Nat) : Prop where
  depends : TransGen (Executor.DependsOn plan) later earlier
  ordered : earlier < later
  blocks : ∀ events result, Program.Runs (runWithProgressAndCancel plan) events result →
    ∀ event ∈ events, ∀ stepCall, entered event = some (later, stepCall) → Done result.steps earlier

/-- Every value that a step of the plan takes from others comes from steps that it depends on. -/
structure DataFlowBacked (plan : ExecutionPlan) : Prop where
  outputs : ∀ position step, plan.steps[position]? = some step →
    ∀ producerId ∈ producerIds (step.refs.map Prod.snd), ∃ earlier producer,
      plan.steps[earlier]? = some producer ∧ producer.id = producerId ∧
      Follows plan position earlier
  artifacts : ∀ position step, plan.steps[position]? = some step →
    ∀ artifactId ∈ step.consumedArtifacts, ∃ earlier resolver,
      plan.steps[earlier]? = some resolver ∧ resolver.typeName = "resolve_artifacts" ∧
      artifactId ∈ resolver.selectedArtifacts ∧ Follows plan position earlier

/-- The values that a step takes from others come from steps that its Recipe makes it depend on. -/
structure AuthoredFlowBacked (recipe : Authored.Recipe) (step : Authored.Step) : Prop where
  outputs : ∀ producerId ∈ producerIds (keptRefs recipe step), ∃ dependency,
    TransGen (AuthoredDependsOn recipe) step.id dependency ∧
      producerId = makeExecutionStepId recipe.id dependency
  artifacts : ∀ artifactId ∈ consumedArtifactsOf recipe step, ∃ resolver ∈ recipe.steps,
    resolver.typeName = "resolve_artifacts" ∧ artifactId ∈ selectedArtifactsOf recipe resolver ∧
      TransGen (AuthoredDependsOn recipe) step.id resolver.id

theorem earlier_of_dependsOn {later earlier : Nat}
    (chain : TransGen (Executor.DependsOn plan) later earlier) : earlier < later := by
  induction chain with
  | single edge =>
      obtain ⟨_, _, _, _, before, _⟩ := edge
      exact before
  | tail _ edge ih =>
      obtain ⟨_, _, _, _, before, _⟩ := edge
      exact before.trans ih

theorem follows_of_dependsOn (ordered : DependenciesEarlier plan) {later earlier : Nat}
    (chain : TransGen (Executor.DependsOn plan) later earlier) : Follows plan later earlier where
  depends := chain
  ordered := earlier_of_dependsOn chain
  blocks := by
    intro events result ran event member stepCall called
    obtain ⟨holds, _⟩ := Executor.runWithProgressAndCancel_invariant ordered ran
    exact (holds.allowed event member later stepCall called).done earlier chain

theorem Succeeds.placed {position : Nat} {step : ExecutionStep}
    (done : Succeeds host checks input appDefinitions mode prepared selected chosen ordered plan)
    (here : plan.steps[position]? = some step) :
    ∃ planned recipe usage, EmittedFrom host input prepared selected recipe planned usage step ∧
      Origin input step recipe planned.step ∧
      PlacedAt prepared selected plan recipe planned.recipeId position planned := by
  obtain ⟨inside, rfl⟩ := List.getElem?_eq_some_iff.mp here
  obtain ⟨planned, _, recipe, usage, emitted, origin⟩ := done.origin (List.getElem_mem inside)
  exact ⟨planned, recipe, usage, emitted, origin, emitted.authored, rfl, _, here, emitted.id⟩

theorem Succeeds.emitted_at {recipe : Authored.Recipe} {recipeId : String} {position : Nat}
    {planned : PlannedStep} {step : ExecutionStep}
    (done : Succeeds host checks input appDefinitions mode prepared selected chosen ordered plan)
    (placed : PlacedAt prepared selected plan recipe recipeId position planned)
    (here : plan.steps[position]? = some step) :
    ∃ usage, EmittedFrom host input prepared selected recipe planned usage step := by
  obtain ⟨authored, _, found, foundAt, same⟩ := placed
  obtain rfl := Option.some.inj (foundAt.symm.trans here)
  obtain ⟨inside, rfl⟩ := List.getElem?_eq_some_iff.mp here
  obtain ⟨other, listed, otherRecipe, usage, emitted⟩ := done.emitted (List.getElem_mem inside)
  obtain rfl := done.same_planned listed (done.authored.mpr ⟨recipe, authored⟩)
    (emitted.id.symm.trans same)
  obtain rfl := Option.some.inj (emitted.authored.found.symm.trans authored.found)
  exact ⟨usage, emitted⟩

/-- Every data flow of a plan is backed by a dependency exactly where those of its authored steps
are. -/
theorem dataFlowBacked_iff
    (success : planExecutionWithAppDefinitions host checks input appDefinitions =
      .ok (.success plan warnings)) :
    DataFlowBacked plan ↔ ∀ step ∈ plan.steps, ∀ recipe authored,
      Origin input step recipe authored → AuthoredFlowBacked recipe authored := by
  obtain ⟨prepared, selected, chosen, ordered, done⟩ := succeeds_of_success success
  have earlier := done.dependenciesEarlier
  constructor
  · intro backed step member recipe authored origin
    obtain ⟨position, here⟩ := List.getElem?_of_mem member
    obtain ⟨planned, found, usage, emitted, _, placed⟩ := done.placed here
    obtain ⟨rfl, rfl⟩ := done.origin_unique emitted origin
    constructor
    · intro producerId listed
      obtain ⟨place, producer, there, rfl, follows⟩ :=
        backed.outputs position step here producerId (emitted.mem_producerIds.mpr listed)
      obtain ⟨next, ⟨nextAuthored, home, target, targetAt, same⟩, chain⟩ :=
        done.chain_authored placed follows.depends
      obtain rfl := Option.some.inj (targetAt.symm.trans there)
      refine ⟨next.step.id, chain, ?_⟩
      rw [same, nextAuthored.qualified, done.recipe_id nextAuthored.found]
    · intro artifactId listed
      obtain ⟨place, resolver, there, typed, selects, follows⟩ :=
        backed.artifacts position step here artifactId (emitted.mem_consumedArtifacts.mpr listed)
      obtain ⟨next, nextPlaced, chain⟩ := done.chain_authored placed follows.depends
      obtain ⟨_, made⟩ := done.emitted_at nextPlaced there
      have resolves := made.typeName.symm.trans typed
      refine ⟨next.step, nextPlaced.authored.authored, resolves, ?_, chain⟩
      rwa [← made.selectedArtifacts_eq (by simp [isArtifactStep, resolves])]
  · intro backed
    constructor
    · intro position step here producerId listed
      obtain ⟨planned, recipe, usage, emitted, origin, placed⟩ := done.placed here
      obtain ⟨dependency, chain, rfl⟩ := (backed step (List.mem_of_getElem? here) recipe planned.step
        origin).outputs producerId (emitted.mem_producerIds.mp listed)
      obtain ⟨place, next, ⟨nextAuthored, home, producer, there, same⟩, rfl, emittedChain⟩ :=
        done.chain_emitted placed chain
      refine ⟨place, producer, there, ?_, follows_of_dependsOn earlier emittedChain⟩
      rw [same, nextAuthored.qualified, done.recipe_id nextAuthored.found]
    · intro position step here artifactId listed
      obtain ⟨planned, recipe, usage, emitted, origin, placed⟩ := done.placed here
      obtain ⟨resolver, inside, typed, selects, chain⟩ := (backed step (List.mem_of_getElem? here)
        recipe planned.step origin).artifacts artifactId (emitted.mem_consumedArtifacts.mp listed)
      obtain ⟨place, next, nextPlaced, sameId, emittedChain⟩ := done.chain_emitted placed chain
      obtain ⟨found, there, same⟩ := nextPlaced.emitted
      obtain ⟨_, made⟩ := done.emitted_at nextPlaced there
      have only : next.step = resolver := done.only_step nextPlaced.authored inside sameId.symm
      subst only
      refine ⟨place, found, there, made.typeName.trans typed, ?_,
        follows_of_dependsOn earlier emittedChain⟩
      rwa [made.selectedArtifacts_eq (by simp [isArtifactStep, typed])]

def unresolvedArtifact : PlannerInput :=
  plainInput (plainRecipe "games" [] [("pack", .remoteFile "https://example.org/pack.zip" "default")]
    [plainStep "copy" "copy_files" []
      [("source", .ref "artifacts.pack.local_path"), ("dest", .literal (.string "/sdcard/games"))]])
    []

theorem dataFlowBacked_iff_sample : ∃ plan ∈ plannedPlan
    (planExecutionWithAppDefinitions bareHost lenientChecks unresolvedArtifact []),
    (DataFlowBacked plan ↔ ∀ step ∈ plan.steps, ∀ recipe authored,
      Origin unresolvedArtifact step recipe authored → AuthoredFlowBacked recipe authored) := by
  have planned : (plannedPlan (planExecutionWithAppDefinitions bareHost lenientChecks
      unresolvedArtifact [])).isSome = true := by decide +kernel
  obtain ⟨plan, planned⟩ := Option.isSome_iff_exists.mp planned
  obtain ⟨warnings, success⟩ := plannedPlan_eq_some.mp planned
  exact ⟨plan, planned, dataFlowBacked_iff success⟩

theorem unresolvedArtifact_unbacked : ∃ plan ∈ plannedPlan
    (planExecutionWithAppDefinitions bareHost lenientChecks unresolvedArtifact []),
      ¬ DataFlowBacked plan := by
  have unresolved : ∃ plan ∈ plannedPlan
      (planExecutionWithAppDefinitions bareHost lenientChecks unresolvedArtifact []),
      ∃ step ∈ plan.steps, ∃ artifactId ∈ step.consumedArtifacts,
        ∀ resolver ∈ plan.steps, resolver.typeName ≠ "resolve_artifacts" := by
    decide +kernel
  obtain ⟨plan, planned, step, member, artifactId, consumed, none⟩ := unresolved
  refine ⟨plan, planned, fun backed => ?_⟩
  obtain ⟨position, here⟩ := List.getElem?_of_mem member
  obtain ⟨_, resolver, there, typed, _⟩ := backed.artifacts position step here artifactId consumed
  exact none resolver (List.mem_of_getElem? there) typed

end

end EmuChef.Planner
