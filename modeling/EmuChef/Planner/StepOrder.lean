import EmuChef.Lib.KahnDemand
import EmuChef.Planner.DataFlow
import EmuChef.Planner.DependencyOrder

/-! When the steps of a plan are sorted. A step id that is listed again is counted from its last
step and released for all of them. -/

namespace EmuChef.Planner

open Authored (AppDefinition)
open Kahn
open Relation (TransGen)

def dependencyRows (steps : List PlannedStep) : List (String × List String) :=
  steps.map fun planned => (planned.id, plannedDependencies planned)

def StepDependsOn (steps : List PlannedStep) (dependency stepId : String) : Prop :=
  ∃ planned ∈ steps, planned.id = stepId ∧ dependency ∈ plannedDependencies planned

def DistinctSteps (steps : List PlannedStep) : Prop := (steps.map PlannedStep.id).Nodup

def ClosedSteps (steps : List PlannedStep) : Prop :=
  ∀ planned ∈ steps, ∀ dependency ∈ plannedDependencies planned,
    dependency ∈ steps.map PlannedStep.id

/-- The steps in an order in which dependencies come first and steps with the same dependencies
keep their authored order. -/
structure Topological (steps sorted : List PlannedStep) : Prop where
  perm : sorted.Perm steps
  earlier : ∀ before planned after, sorted = before ++ planned :: after →
    ∀ dependency ∈ plannedDependencies planned, dependency ∈ before.map PlannedStep.id
  stable : ∀ first second, [first, second].Sublist steps →
    (∀ dependency, dependency ∈ plannedDependencies first ↔
      dependency ∈ plannedDependencies second) → [first, second].Sublist sorted

/-- Sorting looks up only ids that are listed and takes no count below zero. Distinct steps with all
that they depend on are sorted unless they depend on each other in a cycle. -/
structure SortsCorrectly (steps : List PlannedStep) : Prop where
  indexed : ∀ stepId, Kahn.LooksUp (dependencyRows steps) stepId →
    ((Kahn.places (dependencyRows steps)).get? stepId).isSome = true
  counted : ∃ sorted, topologicallySortSteps steps = .ok sorted
  cyclic : DistinctSteps steps → ClosedSteps steps → ∀ sorted errors,
    topologicallySortSteps steps = .ok (sorted, errors) →
      (errors ≠ [] ↔ ∃ stepId, TransGen (StepDependsOn steps) stepId stepId)
  topological : DistinctSteps steps → ClosedSteps steps → ∀ sorted,
    topologicallySortSteps steps = .ok (sorted, []) → Topological steps sorted

def RepeatsFree (steps : List PlannedStep) : Prop :=
  ∀ before planned after, steps = before ++ planned :: after →
    planned.id ∈ after.map PlannedStep.id → planned.step.dependencies = []

variable {steps : List PlannedStep}

@[simp] theorem dependencyRows_ids : (dependencyRows steps).map Prod.fst = steps.map PlannedStep.id := by
  simp [dependencyRows, Function.comp_def]

theorem makeExecutionStepId_inj {recipeId first second : String} :
    makeExecutionStepId recipeId first = makeExecutionStepId recipeId second ↔ first = second := by
  refine ⟨fun same => ?_, fun same => same ▸ rfl⟩
  exact String.toList_injective (by simpa [makeExecutionStepId] using congrArg String.toList same)

variable {planned : PlannedStep}

@[simp] theorem mem_plannedDependencies {stepId : String} :
    stepId ∈ plannedDependencies planned ↔ ∃ dependency ∈ planned.step.dependencies,
      makeExecutionStepId planned.recipeId dependency = stepId := by
  simp [plannedDependencies, uniqueDependencyIds]

theorem plannedDependencies_nodup (planned : PlannedStep) : (plannedDependencies planned).Nodup :=
  (List.nodup_reverse.mpr (List.nodup_dedup _)).map fun _ _ => makeExecutionStepId_inj.mp

theorem plannedDependencies_eq_nil :
    plannedDependencies planned = [] ↔ planned.step.dependencies = [] := by
  simp [List.eq_nil_iff_forall_not_mem]

theorem closed_dependencyRows : Closed (dependencyRows steps) ↔ ClosedSteps steps := by
  rw [Closed, dependencyRows_ids, ClosedSteps]
  simp only [dependencyRows, List.forall_mem_map]

theorem topologicallySortSteps_eq {order : List String} (ordered : Kahn.order (dependencyRows steps) = .ok order) :
    topologicallySortSteps steps = if order.length ≠ steps.length then .ok ([], [stepCycleMessage steps])
      else .ok (order.filterMap
        (OrderedMap.ofList (steps.map fun planned => (planned.id, planned))).get?, []) := by
  have inside := Kahn.subset_of_order ordered
  rw [dependencyRows_ids] at inside
  have found : ∀ stepId ∈ order,
      ((OrderedMap.ofList (steps.map fun planned => (planned.id, planned))).get? stepId).isSome := by
    intro stepId member
    rw [OrderedMap.get?_isSome, OrderedMap.mem_keys_ofList]
    simpa [Function.comp_def] using inside member
  rw [dependencyRows] at ordered
  rw [topologicallySortSteps, ordered]
  dsimp only
  rw [List.length_filterMap_eq_countP, List.countP_eq_length.mpr found]

theorem exists_sort_iff : (∃ sorted, topologicallySortSteps steps = .ok sorted) ↔
    ∃ order, Kahn.order (dependencyRows steps) = .ok order := by
  constructor
  · rintro ⟨sorted, sorts⟩
    cases ordered : Kahn.order (dependencyRows steps) with
    | ok order => exact ⟨order, rfl⟩
    | error stepId =>
        rw [dependencyRows] at ordered
        rw [topologicallySortSteps, ordered] at sorts
        cases sorts
  · rintro ⟨order, ordered⟩
    rw [topologicallySortSteps_eq ordered]
    split
    next => exact ⟨_, rfl⟩
    next => exact ⟨_, rfl⟩

section

variable (distinct : DistinctSteps steps)

include distinct

theorem lastDepends_eq : LastDepends (dependencyRows steps) = StepDependsOn steps := by
  funext dependency stepId
  refine propext ?_
  have rows : ((dependencyRows steps).map Prod.fst).Nodup := by
    rw [dependencyRows_ids]
    exact distinct
  constructor
  · rintro ⟨last, row, depends⟩
    obtain ⟨planned, member, built⟩ := List.mem_map.mp ((Kahn.lastRow_eq_some rows).mp row)
    obtain ⟨rfl, rfl⟩ := Prod.mk.inj built
    exact ⟨planned, member, rfl, depends⟩
  · rintro ⟨planned, member, rfl, depends⟩
    exact ⟨_, (Kahn.lastRow_eq_some rows).mpr (List.mem_map.mpr ⟨planned, member, rfl⟩), depends⟩

theorem exists_order_of_distinct : ∃ order, Kahn.order (dependencyRows steps) = .ok order :=
  Kahn.exists_order (Kahn.thrifty_of_nodup (by rwa [dependencyRows_ids]))

theorem errors_iff_cycle (closed : ClosedSteps steps) {sorted : List PlannedStep}
    {errors : List PlannerMessage} (sorts : topologicallySortSteps steps = .ok (sorted, errors)) :
    errors ≠ [] ↔ ∃ stepId, TransGen (StepDependsOn steps) stepId stepId := by
  obtain ⟨order, ordered⟩ := exists_order_of_distinct distinct
  have whole := Kahn.length_eq_iff_acyclic (by rwa [dependencyRows_ids])
    (closed_dependencyRows.mpr closed) ordered
  rw [dependencyRows, List.length_map, ← dependencyRows, lastDepends_eq distinct] at whole
  rw [topologicallySortSteps_eq ordered] at sorts
  split at sorts
  next short =>
    obtain ⟨_, rfl⟩ := Prod.mk.inj (Except.ok.inj sorts)
    rw [ne_eq, whole, not_not] at short
    simpa using short
  next long =>
    obtain ⟨_, rfl⟩ := Prod.mk.inj (Except.ok.inj sorts)
    rw [ne_eq, not_not, whole] at long
    simpa using long

theorem topological_of_distinct {sorted : List PlannedStep}
    (sorts : topologicallySortSteps steps = .ok (sorted, [])) : Topological steps sorted := by
  obtain ⟨order, ordered, long, ids, perm⟩ := topologicallySortSteps_eq_ok sorts
  refine ⟨perm, fun before planned after split dependency depends => ?_, fun first second earlier same => ?_⟩
  · have named : order = before.map PlannedStep.id ++ planned.id :: after.map PlannedStep.id := by
      rw [← ids, split, List.map_append, List.map_cons]
    have member : planned ∈ steps := perm.subset (by simp [split])
    exact Kahn.dependency_before ordered (by simpa using long) named
      (List.mem_map.mpr ⟨planned, member, rfl⟩) dependency depends
  · have pair : Kahn.Pair (dependencyRows steps) first.id second.id (plannedDependencies first)
        (plannedDependencies second) := by
      refine ⟨by rwa [dependencyRows_ids], fun row listed => ?_, ?_, same⟩
      · obtain ⟨planned, _, rfl⟩ := List.mem_map.mp listed
        exact plannedDependencies_nodup planned
      · exact earlier.map fun planned => (planned.id, plannedDependencies planned)
    have member : first ∈ sorted := perm.symm.subset (earlier.subset List.mem_cons_self)
    have placed := Kahn.pair_sublist_order pair ordered (ids ▸ List.mem_map_of_mem member)
    rw [← ids] at placed
    obtain ⟨found, within, names⟩ := List.sublist_map_iff.mp placed
    have unique : ∀ planned ∈ steps, ∀ other ∈ found, planned.id = other.id → planned = other :=
      fun planned listed other among named =>
        List.inj_on_of_nodup_map distinct listed (perm.subset (within.subset among)) named
    obtain ⟨one, rest, rfl, firstName, names⟩ := List.map_eq_cons_iff.mp names.symm
    obtain ⟨two, none, rfl, secondName, names⟩ := List.map_eq_cons_iff.mp names
    obtain rfl := List.map_eq_nil_iff.mp names
    obtain rfl := unique first (earlier.subset List.mem_cons_self) one List.mem_cons_self firstName.symm
    obtain rfl := unique second (earlier.subset (by simp)) two (by simp) secondName.symm
    exact within

end

theorem sortsCorrectly_of_order (counted : ∃ order, Kahn.order (dependencyRows steps) = .ok order) :
    SortsCorrectly steps where
  indexed := fun _ => Kahn.place_of_looksUp
  counted := exists_sort_iff.mpr counted
  cyclic := fun distinct closed _ _ => errors_iff_cycle distinct closed
  topological := fun distinct _ _ => topological_of_distinct distinct

theorem sortsCorrectly_iff_order : SortsCorrectly steps ↔
    ∃ order, Kahn.order (dependencyRows steps) = .ok order :=
  ⟨fun correct => exists_sort_iff.mp correct.counted, sortsCorrectly_of_order⟩

theorem thrifty_dependencyRows : Thrifty (dependencyRows steps) ↔ RepeatsFree steps := by
  rw [Kahn.thrifty_iff]
  constructor
  · rintro free before planned after rfl again
    have empty := free (dependencyRows before) (planned.id, plannedDependencies planned)
      (dependencyRows after) (by simp [dependencyRows]) (by rwa [dependencyRows_ids])
    exact plannedDependencies_eq_nil.mp empty
  · rintro free before row after split again
    obtain ⟨early, late, rfl, rfl, rest⟩ := List.map_eq_append_iff.mp split
    obtain ⟨planned, after, rfl, rfl, rfl⟩ := List.map_eq_cons_iff.mp rest
    rw [← dependencyRows, dependencyRows_ids] at again
    exact plannedDependencies_eq_nil.mpr (free early planned after rfl again)

def LastOf (steps : List PlannedStep) (planned : PlannedStep) : Prop :=
  ∃ before after, steps = before ++ planned :: after ∧ planned.id ∉ after.map PlannedStep.id

theorem LastOf.mem (last : LastOf steps planned) : planned ∈ steps := by
  obtain ⟨before, after, rfl, _⟩ := last
  exact List.mem_append_right _ List.mem_cons_self

theorem LastOf.row (last : LastOf steps planned) :
    lastRow (dependencyRows steps) planned.id = some (plannedDependencies planned) := by
  obtain ⟨before, after, rfl, absent⟩ := last
  rw [dependencyRows, List.map_append, List.map_cons]
  exact OrderedMap.get?_ofList_last (by rwa [← dependencyRows, dependencyRows_ids])

theorem exists_lastOf {stepId : String} (listed : stepId ∈ steps.map PlannedStep.id) :
    ∃ planned, LastOf steps planned ∧ planned.id = stepId := by
  rw [← dependencyRows_ids, ← Kahn.lastRow_isSome] at listed
  obtain ⟨last, row⟩ := Option.isSome_iff_exists.mp listed
  obtain ⟨before, rest, split, absent, _⟩ := Kahn.demand_eq row
  obtain ⟨early, late, rfl, rfl, rest⟩ := List.map_eq_append_iff.mp split
  obtain ⟨planned, after, rfl, named, rfl⟩ := List.map_eq_cons_iff.mp rest
  obtain ⟨rfl, rfl⟩ := Prod.mk.inj named
  exact ⟨planned, ⟨early, after, rfl, by rwa [← dependencyRows_ids]⟩, rfl⟩

/-- A list as planning selects it: ids are qualified, the Recipes follow one another, and each names
its own steps without a cycle. -/
structure Selected (rank : String → Nat) (limit : Nat) (steps : List PlannedStep) : Prop where
  qualified : ∀ planned ∈ steps, planned.id = makeExecutionStepId planned.recipeId planned.step.id
  ascending : steps.Pairwise fun earlier later => rank earlier.recipeId ≤ rank later.recipeId
  separates : ∀ first ∈ steps, ∀ second ∈ steps, rank first.recipeId = rank second.recipeId →
    first.recipeId = second.recipeId
  bounded : ∀ planned ∈ steps, rank planned.recipeId < limit
  silent : validateEmittedStepDependencies steps = []

namespace Selected

variable {rank : String → Nat} {limit : Nat} (reached : Selected rank limit steps)

include reached

theorem closed : ClosedSteps steps := by
  intro planned listed stepId depends
  obtain ⟨dependency, named, rfl⟩ := mem_plannedDependencies.mp depends
  obtain ⟨next, nextListed, home, rfl⟩ := planned_of_silent reached.silent listed named
  exact List.mem_map.mpr ⟨next, nextListed, by rw [reached.qualified next nextListed, home]⟩

theorem rank_le {planned last : PlannedStep} (listed : planned ∈ steps) (final : LastOf steps last)
    (same : planned.id = last.id) : rank planned.recipeId ≤ rank last.recipeId := by
  obtain ⟨before, after, rfl, absent⟩ := final
  rcases List.mem_append.mp listed with early | late
  · exact (List.pairwise_append.mp reached.ascending).2.2 planned early last List.mem_cons_self
  · rcases List.mem_cons.mp late with rfl | late
    · exact Nat.le_refl _
    · exact absurd (same ▸ List.mem_map_of_mem late) absent

theorem local_row {planned : PlannedStep} (last : LastOf steps planned) :
    (OrderedMap.ofList ((stepsOf steps planned.recipeId).map
      fun step => (step.id, plannerStep step))).get? planned.step.id =
        some (plannerStep planned.step) := by
  have qualified := reached.qualified
  obtain ⟨before, after, rfl, absent⟩ := last
  have split : stepsOf (before ++ planned :: after) planned.recipeId =
      stepsOf before planned.recipeId ++ planned.step :: stepsOf after planned.recipeId := by
    simp [stepsOf]
  rw [split, List.map_append, List.map_cons]
  refine OrderedMap.get?_ofList_last fun again => absent ?_
  obtain ⟨row, rowIn, same⟩ := List.mem_map.mp again
  obtain ⟨step, stepIn, rfl⟩ := List.mem_map.mp rowIn
  obtain ⟨other, kept, rfl⟩ := List.mem_map.mp stepIn
  obtain ⟨otherIn, home⟩ := List.mem_filter.mp kept
  refine List.mem_map.mpr ⟨other, otherIn, ?_⟩
  rw [qualified other (by simp [otherIn]), qualified planned (by simp), of_decide_eq_true home,
    makeExecutionStepId_inj]
  exact same

theorem grounded_lastOf (size : Nat) : ∀ planned, LastOf steps planned →
    limit - rank planned.recipeId = size → Acc (LastDepends (dependencyRows steps)) planned.id := by
  induction size using Nat.strong_induction_on with
  | h size ih =>
      intro first firstLast measured
      have acyclic := (local_of_silent reached.silent firstLast.mem).2
      have member : (first.step.id, plannerStep first.step) ∈
          (stepsOf steps first.recipeId).map fun step => (step.id, plannerStep step) :=
        List.mem_map.mpr ⟨first.step, List.mem_map.mpr ⟨first,
          List.mem_filter.mpr ⟨firstLast.mem, by simp⟩, rfl⟩, rfl⟩
      have below := acc_of_validateStepDependencyCycles acyclic _ member
      suffices inner : ∀ stepId, Acc (Below (.ofList ((stepsOf steps first.recipeId).map
          fun step => (step.id, plannerStep step)))) stepId → ∀ planned, LastOf steps planned →
          planned.recipeId = first.recipeId → planned.step.id = stepId →
          Acc (LastDepends (dependencyRows steps)) planned.id from
        inner _ below first firstLast rfl rfl
      intro stepId grounded
      induction grounded with
      | intro stepId _ deeper =>
          rintro planned last home rfl
          refine Acc.intro _ ?_
          rintro dependencyId ⟨row, held, depends⟩
          obtain rfl := Option.some.inj (held.symm.trans last.row)
          have listed := reached.closed planned last.mem dependencyId depends
          obtain ⟨dependency, named, rfl⟩ := mem_plannedDependencies.mp depends
          obtain ⟨next, nextListed, nextHome, rfl⟩ := planned_of_silent reached.silent last.mem named
          obtain ⟨final, finalLast, same⟩ := exists_lastOf listed
          have nextId : next.id = final.id := by
            rw [same, reached.qualified next nextListed, nextHome]
          have higher := reached.rank_le nextListed finalLast nextId
          rw [nextHome, home] at higher
          rw [← same]
          rcases Nat.lt_or_eq_of_le higher with later | level
          · have inside := reached.bounded final finalLast.mem
            exact ih (limit - rank final.recipeId) (by omega) final finalLast rfl
          · have again := reached.separates first firstLast.mem final finalLast.mem level
            have stepName : final.step.id = next.step.id := by
              rw [reached.qualified final finalLast.mem, home, again] at same
              exact makeExecutionStepId_inj.mp same
            refine deeper next.step.id ⟨plannerStep planned.step, ?_, named, ?_⟩ final finalLast
              again.symm stepName
            · rw [← home]
              exact reached.local_row last
            · rw [← stepName, again, reached.local_row finalLast, Option.isSome_some]

theorem grounded (stepId : String) : Acc (LastDepends (dependencyRows steps)) stepId := by
  refine Acc.intro _ fun dependency edge => ?_
  obtain ⟨row, held, depends⟩ := edge
  obtain ⟨planned, last, rfl⟩ := exists_lastOf
    (by rw [← dependencyRows_ids, ← Kahn.lastRow_isSome, held, Option.isSome_some])
  exact (reached.grounded_lastOf _ planned last rfl).inv ⟨row, held, depends⟩

theorem sortsCorrectly_iff : SortsCorrectly steps ↔ RepeatsFree steps := by
  rw [sortsCorrectly_iff_order, Kahn.exists_order_iff (closed_dependencyRows.mpr reached.closed)
    reached.grounded, thrifty_dependencyRows]

end Selected

section

theorem recipeId_of_kept {selected : Finset String} {entry : String × Authored.Recipe × Authored.Step}
    {planned : PlannedStep} (kept : (if makeExecutionStepId entry.1 entry.2.2.id ∈ selected then
      some (⟨makeExecutionStepId entry.1 entry.2.2.id, entry.1, entry.2.2⟩ : PlannedStep) else none) =
        some planned) : planned.recipeId = entry.1 := by
  split at kept
  next => exact congrArg PlannedStep.recipeId (Option.some.inj kept).symm
  next => cases kept

theorem authoredSteps_ascending {recipes : OrderedMap String Authored.Recipe} {refs : List String}
    {selected : Finset String} (distinct : refs.Nodup) :
    (authoredSteps recipes refs selected).Pairwise fun earlier later =>
      refs.idxOf earlier.recipeId ≤ refs.idxOf later.recipeId := by
  have refsAscend : refs.Pairwise fun earlier later => refs.idxOf earlier < refs.idxOf later := by
    rw [List.pairwise_iff_getElem]
    intro first second firstIn secondIn before
    rwa [distinct.idxOf_getElem first firstIn, distinct.idxOf_getElem second secondIn]
  have origin : ∀ recipeId entry, entry ∈ ((recipes.get? recipeId).toList.flatMap fun recipe =>
      recipe.steps.map fun step => (recipeId, recipe, step)) → entry.1 = recipeId := by
    intro recipeId entry member
    simp only [List.mem_flatMap, List.mem_map] at member
    obtain ⟨_, _, _, _, rfl⟩ := member
    rfl
  have expanded : (expandedSteps recipes refs).Pairwise fun earlier later =>
      refs.idxOf earlier.1 ≤ refs.idxOf later.1 := by
    refine List.pairwise_flatMap.mpr ⟨fun recipeId _ => ?_, refsAscend.imp fun before => ?_⟩
    · refine List.pairwise_of_forall_mem_list fun first firstIn second secondIn => ?_
      rw [origin recipeId first firstIn, origin recipeId second secondIn]
    · intro first firstIn second secondIn
      rw [origin _ first firstIn, origin _ second secondIn]
      exact Nat.le_of_lt before
  refine expanded.filterMap _ fun first second ordered one oneMade other otherMade => ?_
  rwa [recipeId_of_kept oneMade, recipeId_of_kept otherMade]

variable {host : Host} {checks : AuthorityChecks} {input : PlannerInput}
  {appDefinitions : List AppDefinition} {mode : PlanningMode} {prepared : Prepared} {chosen : Chosen}

theorem selected_of_planning (prepares : prepare host checks input appDefinitions mode = .ok prepared)
    (chooses : choose input mode prepared = .ok chosen)
    (validates : validateChosen host checks mode prepared chosen = .ok ()) :
    Selected prepared.expandedRecipeRefs.idxOf prepared.expandedRecipeRefs.length chosen.steps := by
  have distinct : prepared.expandedRecipeRefs.Nodup := by
    rw [(preparedBy_of_prepare prepares).expandedRefs]
    exact expandRecipeDependencies_nodup _
  obtain ⟨selected, chosenBy⟩ := chosenBy_of_choose chooses
  have authored : ∀ planned ∈ chosen.steps, ∃ recipe,
      AuthoredIn prepared.recipes prepared.expandedRecipeRefs selected recipe planned := by
    intro planned listed
    rw [chosenBy.steps] at listed
    exact mem_authoredSteps.mp listed
  refine ⟨fun planned listed => ?_, ?_, fun first firstIn second _ level => ?_, fun planned listed => ?_,
    (validateChosen_eq_ok.mp validates).dependencies⟩
  · obtain ⟨_, made⟩ := authored planned listed
    exact made.qualified
  · rw [chosenBy.steps]
    exact authoredSteps_ascending distinct
  · obtain ⟨_, made⟩ := authored first firstIn
    exact (List.idxOf_inj made.listed).mp level
  · obtain ⟨_, made⟩ := authored planned listed
    exact List.idxOf_lt_length_of_mem made.listed

/-- The steps that planning comes to sort are sorted correctly exactly if of several steps with one
id only the last has dependencies. -/
theorem sortsCorrectly_iff_repeatsFree
    (prepares : prepare host checks input appDefinitions mode = .ok prepared)
    (chooses : choose input mode prepared = .ok chosen)
    (validates : validateChosen host checks mode prepared chosen = .ok ()) :
    SortsCorrectly chosen.steps ↔ RepeatsFree chosen.steps :=
  (selected_of_planning prepares chooses validates).sortsCorrectly_iff

def reachesSort (host : Host) (checks : AuthorityChecks) (input : PlannerInput)
    (appDefinitions : List AppDefinition) (mode : PlanningMode) :
    Except PlanningStop (Prepared × Chosen) := do
  let prepared ← prepare host checks input appDefinitions mode
  let chosen ← choose input mode prepared
  validateChosen host checks mode prepared chosen
  return (prepared, chosen)

theorem reachesSort_eq_ok : reachesSort host checks input appDefinitions mode = .ok (prepared, chosen) ↔
    prepare host checks input appDefinitions mode = .ok prepared ∧
      choose input mode prepared = .ok chosen ∧
      validateChosen host checks mode prepared chosen = .ok () := by
  simp only [reachesSort, Checks.bind_eq_ok]
  constructor
  · rintro ⟨_, prepares, _, chooses, _, validates, built⟩
    obtain ⟨rfl, rfl⟩ := Prod.mk.inj (Except.ok.inj built)
    exact ⟨prepares, chooses, validates⟩
  · rintro ⟨prepares, chooses, validates⟩
    exact ⟨prepared, prepares, chosen, chooses, (), validates, rfl⟩

def copyStep (id folder : String) (dependencies : List String) : Authored.Step :=
  plainStep id "copy_files" dependencies
    [("source", .ref "inputs.folder"), ("dest", .literal (.string ("/sdcard/" ++ folder)))]

def repeatedSteps : PlannerInput :=
  plainInput (plainRecipe "games" [] []
    [copyStep "saves" "saves" ["games"], copyStep "games" "games" [], copyStep "saves" "states" []]) []

theorem repeatedSteps_reached : ∃ prepared chosen,
    reachesSort bareHost lenientChecks repeatedSteps [] ⟨false, false, false⟩ = .ok (prepared, chosen) ∧
      ∀ sorted, topologicallySortSteps chosen.steps ≠ .ok sorted := by
  have ran : ((reachesSort bareHost lenientChecks repeatedSteps [] ⟨false, false, false⟩).toOption.any
      fun found => !(topologicallySortSteps found.2.steps).isOk) = true := by decide +kernel
  obtain ⟨⟨prepared, chosen⟩, found, fails⟩ := (Option.any_eq_true _ _).mp ran
  refine ⟨prepared, chosen, Checks.toOption_eq_some.mp found, fun sorted sorts => ?_⟩
  rw [sorts] at fails
  cases fails

theorem sortsCorrectly_iff_repeatsFree_sample : ∃ prepared chosen,
    reachesSort bareHost lenientChecks repeatedSteps [] ⟨false, false, false⟩ = .ok (prepared, chosen) ∧
      (SortsCorrectly chosen.steps ↔ RepeatsFree chosen.steps) := by
  obtain ⟨prepared, chosen, reached, _⟩ := repeatedSteps_reached
  obtain ⟨prepares, chooses, validates⟩ := reachesSort_eq_ok.mp reached
  exact ⟨prepared, chosen, reached, sortsCorrectly_iff_repeatsFree prepares chooses validates⟩

/-- Sorting takes a count below zero. -/
theorem repeatedSteps_underflow : ∃ prepared chosen,
    reachesSort bareHost lenientChecks repeatedSteps [] ⟨false, false, false⟩ = .ok (prepared, chosen) ∧
      ¬ SortsCorrectly chosen.steps := by
  obtain ⟨prepared, chosen, reached, fails⟩ := repeatedSteps_reached
  refine ⟨prepared, chosen, reached, fun correct => ?_⟩
  obtain ⟨sorted, sorts⟩ := correct.counted
  exact fails sorted sorts

end

end EmuChef.Planner
