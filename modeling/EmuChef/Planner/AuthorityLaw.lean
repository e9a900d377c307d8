import EmuChef.Planner.Resolution

/-! What the checks of one Recipe against its Apps say about planning that Recipe. -/

namespace EmuChef.Planner

open Authored (AppDefinition)
open Relation Worklist

section

variable {validate : AppDefinition → List AppDiagnostic} {recipe : Authored.Recipe}
  {recipeId : String} {step : Authored.Step} {app : Option AppDefinition}
  {bindings : OrderedMap String Json}

def PolicyOpen (step : Authored.Step) : Prop :=
  (∃ reference, step.params.get? "copy_policy" = some (.ref reference)) ∨
    ∃ value, step.params.get? "copy_policy" = some (.literal value) ∧ value.asStr = none

def PolicyReport (recipe : Authored.Recipe) (message : PlannerMessage) : Prop :=
  ∃ step ∈ recipe.steps, PolicyOpen step ∧
    (message = usageMessage "app_target_sync_requires_directory" recipe.id step.id ∨
      message = usageMessage "app_target_copy_policy_unresolved" recipe.id step.id)

theorem knownCopyPolicy_eq (closed : ¬ PolicyOpen step) :
    knownCopyPolicy recipeId step (some bindings) = knownCopyPolicy recipeId step none ∧
      knownCopyPolicy recipeId step none ≠ none := by
  unfold knownCopyPolicy
  obtain ⟨noRef, noOther⟩ := not_or.mp closed
  cases held : step.params.get? "copy_policy" with
  | none => simp
  | some value =>
      cases value with
      | ref reference => exact absurd ⟨reference, held⟩ noRef
      | appTarget targetId => simp
      | literal content =>
          refine ⟨rfl, fun unknown => noOther ⟨content, held, unknown⟩⟩

variable {message : PlannerMessage}

theorem policy_of_copyPolicyErrors (silent : copyPolicyErrors recipeId step none = [])
    (reported : message ∈ copyPolicyErrors recipeId step (some bindings)) :
    PolicyOpen step ∧ (message = usageMessage "app_target_sync_requires_directory" recipeId step.id ∨
      message = usageMessage "app_target_copy_policy_unresolved" recipeId step.id) := by
  constructor
  · by_contra closed
    obtain ⟨same, known⟩ : knownCopyPolicy recipeId step (some bindings) =
        knownCopyPolicy recipeId step none ∧ _ := knownCopyPolicy_eq closed
    simp only [copyPolicyErrors, same, known, false_and, if_false] at silent reported
    rw [silent] at reported
    exact absurd reported List.not_mem_nil
  · simp only [copyPolicyErrors] at reported
    split at reported
    next => exact .inl (List.mem_singleton.mp reported)
    next =>
      split at reported
      next => exact .inr (List.mem_singleton.mp reported)
      next => exact absurd reported List.not_mem_nil

theorem paramTargetUse_bindings (bound : Option (OrderedMap String Json)) (name : String)
    (value : ParamValue) :
    (paramTargetUse validate recipe recipeId step app bound name value).target =
        (paramTargetUse validate recipe recipeId step app none name value).target ∧
      (paramTargetUse validate recipe recipeId step app bound name value).consumed =
        (paramTargetUse validate recipe recipeId step app none name value).consumed := by
  cases value with
  | ref reference => exact ⟨rfl, rfl⟩
  | literal content => exact ⟨rfl, rfl⟩
  | appTarget targetId =>
      simp only [paramTargetUse]
      split
      next => exact ⟨rfl, rfl⟩
      next =>
        cases resolveStepTarget validate recipeId step app targetId with
        | ok target => exact ⟨rfl, rfl⟩
        | error failure => exact ⟨rfl, rfl⟩

theorem policy_of_paramTargetUse {name : String} {value : ParamValue}
    (silent : (paramTargetUse validate recipe recipeId step app none name value).errors = [])
    (reported : message ∈
      (paramTargetUse validate recipe recipeId step app (some bindings) name value).errors) :
    PolicyOpen step ∧ (message = usageMessage "app_target_sync_requires_directory" recipeId step.id ∨
      message = usageMessage "app_target_copy_policy_unresolved" recipeId step.id) := by
  have quiet (same : (paramTargetUse validate recipe recipeId step app (some bindings) name
      value).errors = (paramTargetUse validate recipe recipeId step app none name value).errors) :
      False := by
    rw [same, silent] at reported
    exact List.not_mem_nil reported
  cases value with
  | ref reference => exact (quiet rfl).elim
  | literal content => exact (quiet rfl).elim
  | appTarget targetId =>
      simp only [paramTargetUse] at silent reported
      split at reported
      next misplaced => simp [misplaced] at silent
      next fits =>
        rw [if_neg fits] at silent
        cases resolved : resolveStepTarget validate recipeId step app targetId with
        | error failure => simp [resolved] at silent
        | ok target =>
            simp only [resolved, checkCopyKind] at silent reported
            split at reported
            next => exact absurd reported List.not_mem_nil
            next single =>
              rw [if_neg single] at silent
              obtain ⟨kind, policy⟩ := List.append_eq_nil_iff.mp silent
              rw [kind, List.nil_append] at reported
              exact policy_of_copyPolicyErrors policy reported

theorem policy_of_stepUsageErrors
    (silent : stepUsageErrors validate recipe recipeId step app none = [])
    (reported : message ∈ stepUsageErrors validate recipe recipeId step app (some bindings)) :
    PolicyOpen step ∧ (message = usageMessage "app_target_sync_requires_directory" recipeId step.id ∨
      message = usageMessage "app_target_copy_policy_unresolved" recipeId step.id) := by
  simp only [stepUsageErrors, List.append_eq_nil_iff] at silent
  obtain ⟨context, source, params, conditions, unused⟩ := silent
  have consumption : (stepUses validate recipe recipeId step app (some bindings)).any
      TargetUse.consumed = (stepUses validate recipe recipeId step app none).any
      TargetUse.consumed := by
    simp only [stepUses, paramUses, List.any_append, List.any_map]
    congr 2
    funext entry
    exact (paramTargetUse_bindings (some bindings) entry.1 entry.2).2
  have sameUnused : unusedContextErrors validate recipe recipeId step app (some bindings) = [] := by
    rw [← unused, unusedContextErrors, unusedContextErrors, consumption]
  simp only [stepUsageErrors, context, source, conditions, sameUnused, List.nil_append,
    List.append_nil, List.mem_flatMap] at reported
  obtain ⟨use, listed, inside⟩ := reported
  obtain ⟨entry, member, rfl⟩ := List.mem_map.mp listed
  refine policy_of_paramTargetUse ?_ inside
  exact List.flatMap_eq_nil_iff.mp params _ (List.mem_map_of_mem member)

theorem stepDestinations_bindings (bound : Option (OrderedMap String Json)) :
    stepDestinations validate recipe recipeId step app bound =
      stepDestinations validate recipe recipeId step app none := by
  have same : (paramUses validate recipe recipeId step app bound).filterMap TargetUse.target =
      (paramUses validate recipe recipeId step app none).filterMap TargetUse.target := by
    simp only [paramUses, List.filterMap_map]
    refine List.filterMap_congr fun entry _ => ?_
    exact (paramTargetUse_bindings bound entry.1 entry.2).1
  rw [stepDestinations, stepDestinations, same]

end

section

variable {recipe : Authored.Recipe}

theorem recipeTable_alone : recipeTable [recipe] = OrderedMap.ofList [(recipe.id, recipe)] := rfl

theorem get?_alone {recipeId : String} : (recipeTable [recipe]).get? recipeId =
    if recipeId = recipe.id then some recipe else none := by
  rw [recipeTable_alone]
  simp [OrderedMap.ofList]

theorem visit_dependencies_alone (recipe : Authored.Recipe) (fuel : Nat)
    (dependencies : List String) (found : Expansion)
    (unvisited : found.permanent = ∅) :
    let after := dependencies.foldl (fun found dependencyRef =>
      visitRecipeDependency (recipeTable [recipe]) fuel dependencyRef [recipe.id] found) found
    after.ordered = found.ordered ∧ after.permanent = ∅ := by
  induction dependencies generalizing found with
  | nil => exact ⟨rfl, unvisited⟩
  | cons dependencyRef rest ih =>
      have one : (visitRecipeDependency (recipeTable [recipe]) fuel dependencyRef [recipe.id]
          found).ordered = found.ordered ∧ (visitRecipeDependency (recipeTable [recipe]) fuel
          dependencyRef [recipe.id] found).permanent = ∅ := by
        cases fuel with
        | zero => exact ⟨rfl, unvisited⟩
        | succ fuel =>
            rw [visitRecipeDependency]
            by_cases own : dependencyRef = recipe.id
            · simp [unvisited, own]
            · simp [unvisited, own, get?_alone]
      obtain ⟨ordered, permanent⟩ := ih _ one.2
      exact ⟨ordered.trans one.1, permanent⟩

theorem expandedRefs_alone {input : PlannerInput} (alone : input.recipes = [recipe])
    (selects : input.selectedRecipeRefs = [recipe.id]) : input.expandedRefs = [recipe.id] := by
  rw [PlannerInput.expandedRefs, PlannerInput.recipeMap, alone, selects, expandRecipeDependencies,
    List.foldl_cons, List.foldl_nil, visitRecipeDependency]
  obtain ⟨ordered, _⟩ := visit_dependencies_alone recipe (recipeTable [recipe]).entries.length
    recipe.recipeDependencies ⟨[], ∅, []⟩ rfl
  simp [get?_alone, ordered]

theorem expandedSteps_alone : expandedSteps (recipeTable [recipe]) [recipe.id] =
    recipe.steps.map fun step => (recipe.id, recipe, step) := by
  simp [expandedSteps, get?_alone]

def usageReport (validate : AppDefinition → List AppDiagnostic) (recipe : Authored.Recipe)
    (apps : OrderedMap String AppDefinition) (bound : Option (OrderedMap String Json)) :
    List PlannerMessage :=
  (recipe.steps.flatMap fun step =>
      stepUsageErrors validate recipe recipe.id step (stepApp apps step) bound) ++
    destinationOverlapErrors (recipe.steps.flatMap fun step =>
      stepDestinations validate recipe recipe.id step (stepApp apps step) bound)

theorem resolveUsage_alone {validate : AppDefinition → List AppDiagnostic}
    {apps : OrderedMap String AppDefinition} {bound : Option (OrderedMap String Json)} :
    (match resolveUsage validate (recipeTable [recipe]) [recipe.id] apps bound with
      | .ok _ => []
      | .error errors => errors) = usageReport validate recipe apps bound := by
  simp only [resolveUsage, expandedSteps_alone, List.flatMap_map]
  by_cases silent : usageReport validate recipe apps bound = []
  · rw [silent]
    simp only [usageReport] at silent
    rw [if_pos silent]
  · rw [usageReport] at silent ⊢
    rw [if_neg silent]

theorem policyReport_of_usageReport {validate : AppDefinition → List AppDiagnostic}
    {apps : OrderedMap String AppDefinition} {bindings : OrderedMap String Json}
    (silent : usageReport validate recipe apps none = []) {message : PlannerMessage}
    (reported : message ∈ usageReport validate recipe apps (some bindings)) :
    PolicyReport recipe message := by
  obtain ⟨steps, overlaps⟩ := List.append_eq_nil_iff.mp silent
  rcases List.mem_append.mp reported with inside | inside
  · obtain ⟨step, authored, reports⟩ := List.mem_flatMap.mp inside
    obtain ⟨isOpen, report⟩ :=
      policy_of_stepUsageErrors (List.flatMap_eq_nil_iff.mp steps step authored) reports
    exact ⟨step, authored, isOpen, report⟩
  · simp only [stepDestinations_bindings (some bindings)] at inside
    rw [overlaps] at inside
    exact absurd inside List.not_mem_nil

end

section

variable {recipe : Authored.Recipe} {all kept : List Authored.Step}

structure DependencyClosedIn (all kept : List Authored.Step) : Prop where
  distinct : (all.map Authored.Step.id).Nodup
  keptDistinct : (kept.map Authored.Step.id).Nodup
  inside : ∀ step ∈ kept, step ∈ all
  closed : ∀ step ∈ kept, ∀ other ∈ all, other.id ∈ step.dependencies → other ∈ kept

def stepTable (steps : List Authored.Step) : OrderedMap String Authored.Step :=
  .ofList (steps.map fun step => (step.id, step))

theorem get?_stepTable (distinct : (all.map Authored.Step.id).Nodup) {stepId : String}
    {step : Authored.Step} :
    (stepTable all).get? stepId = some step ↔ step ∈ all ∧ step.id = stepId := by
  have keys : ((all.map fun step => (step.id, step)).map Prod.fst).Nodup := by
    simpa [Function.comp_def] using distinct
  rw [stepTable, OrderedMap.get?_ofList keys]
  simp only [List.mem_map, Prod.mk.injEq]
  constructor
  · rintro ⟨found, member, rfl, rfl⟩
    exact ⟨member, rfl⟩
  · rintro ⟨member, rfl⟩
    exact ⟨step, member, rfl, rfl⟩

def stepSuccessors (steps : List Authored.Step) (stepId : String) : Option (List String) :=
  ((stepTable steps).get? stepId).map Authored.Step.dependencies

theorem hasDependencyAncestor_iff {step : Authored.Step} {ancestorId : String} :
    hasDependencyAncestor step ancestorId (stepTable all) = true ↔
      ∃ dependency ∈ step.dependencies,
        ReflTransGen (Successor (stepSuccessors all)) dependency ancestorId := by
  have bounded : ∀ point, (stepSuccessors all point).isSome →
      point ∈ (stepTable all).keys.toFinset := by
    intro point known
    rw [List.mem_toFinset, ← OrderedMap.get?_isSome]
    simpa [stepSuccessors] using known
  have room : (stepTable all).keys.toFinset.card < (stepTable all).entries.length + 1 := by
    have bound := List.toFinset_card_le (stepTable all).keys
    rw [OrderedMap.keys, List.length_map] at bound
    exact Nat.lt_succ_of_le bound
  exact visitEach_reachVisit_iff bounded room

theorem DependencyClosedIn.reaches (part : DependencyClosedIn all kept) {candidate : Authored.Step}
    (authored : candidate ∈ all) {point : String}
    (path : ReflTransGen (Successor (stepSuccessors all)) point candidate.id)
    (named : ∃ step ∈ kept, point ∈ step.dependencies) :
    candidate ∈ kept ∧ ReflTransGen (Successor (stepSuccessors kept)) point candidate.id := by
  induction path using ReflTransGen.head_induction_on with
  | refl =>
      obtain ⟨step, member, listed⟩ := named
      exact ⟨part.closed step member candidate authored listed, .refl⟩
  | @head point next edge _ ih =>
      obtain ⟨others, found, listed⟩ := edge
      obtain ⟨other, known, rfl⟩ := Option.map_eq_some_iff.mp found
      obtain ⟨otherIn, rfl⟩ := (get?_stepTable part.distinct).mp known
      obtain ⟨step, member, names⟩ := named
      have otherKept := part.closed step member other otherIn names
      obtain ⟨candidateKept, rest⟩ := ih ⟨other, otherKept, listed⟩
      refine ⟨candidateKept, .head ⟨other.dependencies, ?_, listed⟩ rest⟩
      rw [stepSuccessors, (get?_stepTable part.keptDistinct).mpr ⟨otherKept, rfl⟩, Option.map_some]

theorem DependencyClosedIn.hasResolverAncestor (part : DependencyClosedIn all kept)
    {step : Authored.Step} (member : step ∈ kept) {artifactId : String}
    (resolved : hasResolverAncestor recipe step artifactId all = true) :
    hasResolverAncestor recipe step artifactId kept = true := by
  simp only [Planner.hasResolverAncestor, List.any_eq_true, Bool.and_eq_true] at resolved ⊢
  obtain ⟨candidate, authored, ⟨typed, selects⟩, ancestor⟩ := resolved
  obtain ⟨dependency, listed, path⟩ := hasDependencyAncestor_iff.mp ancestor
  obtain ⟨keptCandidate, keptPath⟩ := part.reaches authored path ⟨step, member, listed⟩
  exact ⟨candidate, keptCandidate, ⟨typed, selects⟩,
    hasDependencyAncestor_iff.mpr ⟨dependency, listed, keptPath⟩⟩

end

section

variable {checks : AuthorityChecks} {apps : OrderedMap String AppDefinition}
  {recipe : Authored.Recipe} {chosen : List PlannedStep}

def catalogSteps (recipe : Authored.Recipe) : List PlannedStep :=
  recipe.steps.map fun step => ⟨recipe.id, recipe.id, step⟩

theorem stepsOf_catalogSteps : stepsOf (catalogSteps recipe) recipe.id = recipe.steps := by
  have whole : (catalogSteps recipe).filter (fun planned => planned.recipeId = recipe.id) =
      catalogSteps recipe := by
    rw [List.filter_eq_self]
    intro planned member
    obtain ⟨step, _, rfl⟩ := List.mem_map.mp member
    simp
  rw [stepsOf, whole, catalogSteps, List.map_map]
  exact List.map_id _

theorem install_silent (part : DependencyClosedIn recipe.steps (stepsOf chosen recipe.id))
    {step : Authored.Step} (member : step ∈ stepsOf chosen recipe.id) {app : AppDefinition}
    (silent : validateAppInstallBinding recipe step app (catalogSteps recipe) = []) :
    validateAppInstallBinding recipe step app chosen = [] := by
  simp only [validateAppInstallBinding, stepsOf_catalogSteps] at silent ⊢
  split at silent
  next => exact nomatch silent
  next fields =>
    rw [if_neg fields]
    split at silent
    next => exact nomatch silent
    next artifactId named =>
      split at silent
      next reference found =>
        split at silent
        next => exact nomatch silent
        next owns =>
          split at silent
          next => exact nomatch silent
          next resolved =>
            have kept := part.hasResolverAncestor member (by simpa using resolved)
            simp [owns, kept]
      next => exact nomatch silent

structure ChosenFrom (recipe : Authored.Recipe) (chosen : List PlannedStep) : Prop where
  home : ∀ planned ∈ chosen, planned.recipeId = recipe.id ∧ planned.step ∈ recipe.steps
  part : DependencyClosedIn recipe.steps (stepsOf chosen recipe.id)

theorem stepAuthority_silent (from_ : ChosenFrom recipe chosen) {planned : PlannedStep}
    (listed : planned ∈ chosen)
    (silent : stepAuthorityErrors checks apps (recipeTable [recipe]) (catalogSteps recipe)
      ⟨recipe.id, recipe.id, planned.step⟩ = []) :
    stepAuthorityErrors checks apps (recipeTable [recipe]) chosen planned = [] := by
  obtain ⟨home, _⟩ := from_.home planned listed
  have member : planned.step ∈ stepsOf chosen recipe.id :=
    List.mem_map.mpr ⟨planned, List.mem_filter.mpr ⟨listed, by simp [home]⟩, rfl⟩
  simp only [stepAuthorityErrors, home] at silent ⊢
  cases held : planned.step.appRef with
  | none => simpa [held] using silent
  | some appRef =>
      simp only [held] at silent ⊢
      split at silent
      next => exact nomatch silent
      next valid =>
        rw [if_neg valid]
        cases known : apps.get? appRef with
        | none => simp [known] at silent
        | some app =>
            simp only [known] at silent ⊢
            split at silent
            next invalid => rw [if_pos invalid]
            next defined =>
              rw [if_neg defined]
              simp only [stepContextErrors] at silent ⊢
              split at silent
              next => exact nomatch silent
              next context =>
                rw [if_neg context]
                obtain ⟨lifecycle, rest⟩ := List.append_eq_nil_iff.mp silent
                obtain ⟨packages, install⟩ := List.append_eq_nil_iff.mp rest
                rw [lifecycle, packages, List.nil_append, List.nil_append]
                by_cases installs : planned.step.typeName = "install_apk"
                · rw [if_pos installs] at install ⊢
                  simp only [get?_alone, if_true, Option.toList_some, List.flatMap_cons,
                    List.flatMap_nil, List.append_nil] at install ⊢
                  exact install_silent from_.part member install
                · rw [if_neg installs]

theorem validateAppAuthority_silent (from_ : ChosenFrom recipe chosen)
    (silent : validateAppAuthority checks apps (recipeTable [recipe]) [recipe.id]
      (catalogSteps recipe) = []) :
    validateAppAuthority checks apps (recipeTable [recipe]) [recipe.id] chosen = [] := by
  simp only [validateAppAuthority, List.append_eq_nil_iff, List.flatMap_eq_nil_iff] at silent ⊢
  obtain ⟨definitions, artifacts, steps⟩ := silent
  refine ⟨?_, artifacts, ?_⟩
  · intro appId referenced
    refine definitions appId ?_
    rw [referencedAppIds, mem_firstOccurrences, List.mem_append] at referenced ⊢
    refine referenced.imp_right fun used => ?_
    obtain ⟨planned, listed, named⟩ := List.mem_filterMap.mp used
    exact List.mem_filterMap.mpr ⟨⟨recipe.id, recipe.id, planned.step⟩,
      List.mem_map_of_mem (from_.home planned listed).2, named⟩
  · intro planned listed
    exact stepAuthority_silent from_ listed
      (steps _ (List.mem_map_of_mem (from_.home planned listed).2))

end

section

variable {host : Host} {checks : AuthorityChecks} {recipe : Authored.Recipe} {input : PlannerInput}
  {appDefinitions : List AppDefinition} {mode : PlanningMode} {prepared : Prepared} {chosen : Chosen}

theorem stepsOf_authoredSteps {selected : Finset String} :
    stepsOf (authoredSteps (recipeTable [recipe]) [recipe.id] selected) recipe.id =
      recipe.steps.filter fun step => makeExecutionStepId recipe.id step.id ∈ selected := by
  rw [authoredSteps, expandedSteps_alone, stepsOf, List.filterMap_map]
  simp only [Function.comp_def]
  induction recipe.steps with
  | nil => rfl
  | cons step rest ih =>
      by_cases selects : makeExecutionStepId recipe.id step.id ∈ selected
      · simpa [selects] using ih
      · simpa [selects] using ih

theorem uniqueStepIds_alone (distinct : (recipe.steps.map Authored.Step.id).Nodup) :
    UniqueStepIds ((recipeTable [recipe]).mapValues fun _ recipe => plannerRecipe recipe)
      [recipe.id] := by
  have known : ∀ recipeId ∈ [recipe.id], ∀ found,
      ((recipeTable [recipe]).mapValues fun _ recipe => plannerRecipe recipe).get? recipeId =
        some found → recipeId = recipe.id ∧ found = plannerRecipe recipe := by
    intro recipeId listed found held
    obtain rfl := List.mem_singleton.mp listed
    rw [OrderedMap.get?_mapValues, get?_alone, if_pos rfl, Option.map_some] at held
    exact ⟨rfl, (Option.some.inj held).symm⟩
  constructor
  · intro recipeId listed found held
    obtain ⟨_, rfl⟩ := known recipeId listed found held
    simpa [plannerRecipe, plannerStep, Function.comp_def] using distinct
  · intro first firstListed second secondListed firstRecipe secondRecipe firstHeld secondHeld
      firstStep _ secondStep _ same
    obtain ⟨rfl, _⟩ := known first firstListed firstRecipe firstHeld
    obtain ⟨rfl, _⟩ := known second secondListed secondRecipe secondHeld
    refine ⟨rfl, ?_⟩
    have texts := congrArg String.toList same
    exact String.toList_injective (by simpa [makeExecutionStepId] using texts)

theorem chosenFrom_alone (alone : input.recipes = [recipe]) (selects : input.selectedRecipeRefs = [recipe.id])
    (distinct : (recipe.steps.map Authored.Step.id).Nodup)
    (prepares : PreparedBy host checks input appDefinitions mode prepared) {selected : Finset String}
    (chooses : ChosenBy input mode prepared selected chosen) : ChosenFrom recipe chosen.steps := by
  have recipes : prepared.recipes = recipeTable [recipe] := prepares.recipes.trans (alone ▸ rfl)
  have expanded : prepared.expandedRecipeRefs = [recipe.id] :=
    prepares.expandedRefs.trans (expandedRefs_alone alone selects)
  have steps : chosen.steps = authoredSteps (recipeTable [recipe]) [recipe.id] selected := by
    rw [chooses.steps, recipes, expanded]
  have kept : stepsOf chosen.steps recipe.id =
      recipe.steps.filter fun step => makeExecutionStepId recipe.id step.id ∈ selected := by
    rw [steps, stepsOf_authoredSteps]
  have known : (prepared.recipes.mapValues fun _ recipe => plannerRecipe recipe).get? recipe.id =
      some (plannerRecipe recipe) := by
    rw [recipes, OrderedMap.get?_mapValues, get?_alone, if_pos rfl, Option.map_some]
  have unique : UniqueStepIds (prepared.recipes.mapValues fun _ recipe => plannerRecipe recipe)
      prepared.expandedRecipeRefs := by
    rw [recipes, expanded]
    exact uniqueStepIds_alone distinct
  have admits : ∀ step ∈ recipe.steps, makeExecutionStepId recipe.id step.id ∈ selected ↔ _ :=
    fun step member => mem_selectedStepIds unique chooses.selects
      (by rw [expanded]; exact List.mem_singleton.mpr rfl) known
      (List.mem_map.mpr ⟨step, member, rfl⟩ : plannerStep step ∈ (plannerRecipe recipe).steps)
  constructor
  · intro planned listed
    rw [steps] at listed
    obtain ⟨found, authored⟩ := mem_authoredSteps.mp listed
    have home := List.mem_singleton.mp authored.listed
    have same := authored.found
    rw [home, get?_alone, if_pos rfl] at same
    obtain rfl := Option.some.inj same
    exact ⟨home, authored.authored⟩
  · rw [kept]
    refine ⟨distinct, distinct.sublist (List.filter_sublist.map _), ?_, ?_⟩
    · exact fun step member => (List.mem_filter.mp member).1
    · intro step member other authored named
      obtain ⟨stepIn, stepSelected⟩ := List.mem_filter.mp member
      have admissible := (admits step stepIn).mp (by simpa using stepSelected)
      refine List.mem_filter.mpr ⟨authored, ?_⟩
      have edge : DependsOn (plannerRecipe recipe) step.id other.id :=
        ⟨plannerStep step, List.mem_map_of_mem stepIn, rfl, named⟩
      exact decide_eq_true ((admits other authored).mpr (admissible.closed (.single edge)))

/-- The messages that the two passes over the Apps of a plan report are of the allowed kind: those
of `resolve_usage` over the expanded steps, and those of `validate_app_authority` over the chosen
ones. -/
structure KeepsAuthority (host : Host) (checks : AuthorityChecks) (input : PlannerInput)
    (appDefinitions : List AppDefinition) (mode : PlanningMode) (allowed : PlannerMessage → Prop) :
    Prop where
  usage : ∀ errors, resolveUsage checks.validateAppDefinition input.recipeMap input.expandedRefs
    (appTable appDefinitions) (some (input.effectiveBindings host)) = .error errors →
      ∀ message ∈ errors, allowed message
  authority : ∀ prepared chosen, prepare host checks input appDefinitions mode = .ok prepared →
    choose input mode prepared = .ok chosen → ∀ message ∈ validateAppAuthority checks prepared.apps
      prepared.recipes prepared.expandedRecipeRefs chosen.steps, allowed message

/-- Where a Recipe with unique step ids passes its own checks against the Apps, planning it alone
reports nothing about Apps but copy policies that the Recipe leaves open. -/
theorem keepsAuthority_of_accepted
    (accepted : validateRecipeAppAuthority checks recipe appDefinitions = [])
    (distinct : (recipe.steps.map Authored.Step.id).Nodup) (alone : input.recipes = [recipe])
    (selects : input.selectedRecipeRefs = [recipe.id]) :
    KeepsAuthority host checks input appDefinitions mode (PolicyReport recipe) := by
  simp only [validateRecipeAppAuthority, List.append_eq_nil_iff] at accepted
  obtain ⟨authority, _, usage⟩ := accepted
  have table : input.recipeMap = recipeTable [recipe] := by rw [PlannerInput.recipeMap, alone]
  constructor
  · intro errors reported message listed
    have silent : usageReport checks.validateAppDefinition recipe (appTable appDefinitions) none = [] :=
      resolveUsage_alone.symm.trans usage
    rw [table, expandedRefs_alone alone selects] at reported
    have reports := @resolveUsage_alone recipe checks.validateAppDefinition (appTable appDefinitions)
      (some (input.effectiveBindings host))
    simp only [reported] at reports
    exact policyReport_of_usageReport silent (reports ▸ listed)
  · intro prepared chosen prepares chooses message listed
    have prepares := preparedBy_of_prepare prepares
    obtain ⟨selected, chooses⟩ := chosenBy_of_choose chooses
    have from_ := chosenFrom_alone alone selects distinct prepares chooses
    have silent := validateAppAuthority_silent from_ authority
    rw [prepares.recipes, alone, prepares.expandedRefs, expandedRefs_alone alone selects,
      prepares.apps, appTable, silent] at listed
    exact absurd listed List.not_mem_nil

def BoundPolicyReport (recipe : Authored.Recipe) (message : PlannerMessage) : Prop :=
  ∃ step ∈ recipe.steps, (∃ reference targetId,
      step.params.get? "copy_policy" = some (.ref reference) ∧
        parseReference reference = some (.input targetId)) ∧
    (message = usageMessage "app_target_sync_requires_directory" recipe.id step.id ∨
      message = usageMessage "app_target_copy_policy_unresolved" recipe.id step.id)

def emulatorApp : AppDefinition :=
  ⟨1, "app_definition", "emulator", "Emulator", "org.emulator", .empty, none,
    .ofList [("config", ⟨.file, .externalAppData, "config.ini"⟩)], .empty, none⟩

def numericCopy : Authored.Step :=
  { plainStep "copy" "copy_files" [] [("source", .ref "inputs.config"),
      ("dest", .appTarget "config"), ("copy_policy", .literal (.integer 5))] with
    appRef := some "emulator" }

def numericPolicy : Authored.Recipe :=
  plainRecipe "games" [("config", ⟨"file", true, false, .null, ⟨false, [], none, []⟩, []⟩)] []
    [numericCopy]

def numericPolicyInput : PlannerInput := plainInput numericPolicy [("games/config", .string "/config.ini")]

def installerApp : AppDefinition :=
  { emulatorApp with artifacts := .ofList [("apk", ⟨.apk, .directUrl "https://example.org/a.apk" none⟩)] }

def installStep : Authored.Step :=
  { plainStep "install" "install_apk" ["resolve"] [("app", .ref "artifacts.apk.local_path")] with
    appRef := some "emulator" }

def resolveStep : Authored.Step :=
  plainStep "resolve" "resolve_artifacts" [] [("artifacts", .literal (Json.strings ["apk"]))]

def installRecipe (steps : List Authored.Step) : Authored.Recipe :=
  plainRecipe "games" [("folder", ⟨"directory", false, false, .null, ⟨false, [], none, []⟩, []⟩)]
    [("apk", .appArtifact ⟨"emulator", "apk", none, "default"⟩)] steps

def acceptedInstall : Authored.Recipe :=
  installRecipe [installStep, resolveStep, plainStep "copy" "copy_files" ["install"]
    [("source", .ref "inputs.folder"), ("dest", .literal (.string "/sdcard/games"))]]

/-- The install keeps its resolver where the copy is pruned. -/
theorem keepsAuthority_of_accepted_sample :
    KeepsAuthority bareHost lenientChecks (plainInput acceptedInstall []) [installerApp]
        ⟨false, false, false⟩ (PolicyReport acceptedInstall) ∧
      (plannedPlan (planExecutionWithAppDefinitions bareHost lenientChecks
        (plainInput acceptedInstall []) [installerApp])).map (fun plan => plan.steps.map (·.id)) =
          some ["games/resolve", "games/install"] :=
  ⟨keepsAuthority_of_accepted
    (List.isEmpty_iff.mp (by decide +kernel :
      (validateRecipeAppAuthority lenientChecks acceptedInstall [installerApp]).isEmpty = true))
    (by decide) rfl rfl, by decide +kernel⟩

def sharedStepId : Authored.Recipe :=
  installRecipe [installStep, { resolveStep with constraints := ⟨["root_shell"], []⟩ },
    plainStep "install" "wait" [] [("duration_ms", .literal (.integer 5))]]

def sharedStepIdInput : PlannerInput :=
  { plainInput sharedStepId [] with
    runtimeCapabilities := { fullCapabilities with rootShell := false } }

/-- The checks of the Recipe pass over a numeric policy, which planning reports; and where two
steps share an id, they accept an install whose resolution planning leaves out. -/
theorem accepted_reported :
    (validateRecipeAppAuthority lenientChecks numericPolicy [emulatorApp] = [] ∧
      ¬ KeepsAuthority bareHost lenientChecks numericPolicyInput [emulatorApp] ⟨false, false, false⟩
        (BoundPolicyReport numericPolicy)) ∧
    validateRecipeAppAuthority lenientChecks sharedStepId [installerApp] = [] ∧
      ¬ KeepsAuthority bareHost lenientChecks sharedStepIdInput [installerApp] ⟨false, false, false⟩
        (PolicyReport sharedStepId) := by
  refine ⟨⟨List.isEmpty_iff.mp (by decide +kernel), fun keeps => ?_⟩,
    List.isEmpty_iff.mp (by decide +kernel), fun keeps => ?_⟩
  · have reported : (match resolveUsage lenientChecks.validateAppDefinition
        numericPolicyInput.recipeMap numericPolicyInput.expandedRefs (appTable [emulatorApp])
        (some (numericPolicyInput.effectiveBindings bareHost)) with
      | .ok _ => false
      | .error errors => !errors.isEmpty) = true := by decide +kernel
    split at reported
    next => exact nomatch reported
    next errors refused =>
      obtain ⟨message, listed⟩ : ∃ message, message ∈ errors :=
        List.exists_mem_of_ne_nil errors (by simpa using reported)
      obtain ⟨step, authored, ⟨reference, targetId, held, _⟩, _⟩ :=
        keeps.usage errors refused message listed
      obtain rfl := List.mem_singleton.mp authored
      have numeric : (numericCopy.params.get? "copy_policy").bind ParamValue.reference? = none := by
        decide +kernel
      rw [held] at numeric
      exact nomatch numeric
  · have reported : (match prepare bareHost lenientChecks sharedStepIdInput [installerApp]
        ⟨false, false, false⟩ with
      | .error _ => false
      | .ok prepared =>
          match choose sharedStepIdInput ⟨false, false, false⟩ prepared with
          | .error _ => false
          | .ok chosen => (validateAppAuthority lenientChecks prepared.apps prepared.recipes
              prepared.expandedRecipeRefs chosen.steps).any fun message =>
                message.code = "app_install_resolution_dependency_missing") = true := by
      decide +kernel
    split at reported
    next => exact nomatch reported
    next prepared prepares =>
      split at reported
      next => exact nomatch reported
      next chosen chooses =>
        obtain ⟨message, listed, code⟩ := List.any_eq_true.mp reported
        obtain ⟨step, _, _, rfl | rfl⟩ := keeps.authority prepared chosen prepares chooses message listed
        · simp [usageMessage] at code
        · simp [usageMessage] at code

end

end EmuChef.Planner
