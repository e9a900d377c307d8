import EmuChef.Planner.SelectionLaw

/-! The selected steps of all expanded Recipes are the admissible ones. -/

namespace EmuChef.Planner

open Dependency Relation

section

variable (recipes : OrderedMap String Recipe) (inputBindings : OrderedMap String Json)
  (runtimeCapabilities : RuntimeCapabilities)
  (targetUsage : OrderedMap String ResolvedStepUsage)
  (assumeUnrecognizedCapabilitiesAvailable : Bool)

def CapabilitiesAvailable (stepId : String) : Prop :=
  ∃ usage, targetUsage.get? stepId = some usage ∧ ∀ name ∈ usage.capabilities,
    capabilityAvailable runtimeCapabilities assumeUnrecognizedCapabilitiesAvailable name = true

def ReferencesInput (step : Step) (targetId : String) : Prop :=
  ∃ reference, ParamValue.ref reference ∈ step.params.values ∧
    parseReference reference = some (.input targetId)

def UnboundOptional (inputId : String) (declaration : InputDeclaration) : Prop :=
  declaration.required = false ∧ inputBindings.get? inputId = none ∧ declaration.default.isNull = true

def ownInput (recipeId targetId : String) : Option InputDeclaration :=
  (recipes.get? recipeId).bind fun recipe => recipe.inputs.get? targetId

def qualifiedInput (recipeId targetId : String) : Option InputDeclaration :=
  inputDeclaration recipes (makeExecutionInputId recipeId targetId)

/-- An authored step whose capabilities are available and that references no unbound optional
input, where `declared` finds the declaration of a referenced input. -/
def Runnable (declared : String → String → Option InputDeclaration) (recipeId : String)
    (recipe : Recipe) (stepId : String) : Prop :=
  ∃ step ∈ recipe.steps, step.id = stepId ∧
    CapabilitiesAvailable runtimeCapabilities targetUsage assumeUnrecognizedCapabilitiesAvailable
      (makeExecutionStepId recipeId stepId) ∧
    ∀ targetId declaration, ReferencesInput step targetId →
      declared recipeId targetId = some declaration →
      ¬ UnboundOptional inputBindings (makeExecutionInputId recipeId targetId) declaration

def Admissible (declared : String → String → Option InputDeclaration) (recipeId : String)
    (recipe : Recipe) (stepId : String) : Prop :=
  Throughout (DependsOn recipe) (Runnable inputBindings runtimeCapabilities targetUsage
    assumeUnrecognizedCapabilitiesAvailable declared recipeId recipe) stepId

end

/-- Step ids are unique in their Recipe and, as qualified ids, among the expanded Recipes. -/
structure UniqueStepIds (recipes : OrderedMap String Recipe) (expandedRecipeRefs : List String) :
    Prop where
  distinct : ∀ recipeId ∈ expandedRecipeRefs, ∀ recipe, recipes.get? recipeId = some recipe →
    (recipe.steps.map Step.id).Nodup
  qualified : ∀ first ∈ expandedRecipeRefs, ∀ second ∈ expandedRecipeRefs,
    ∀ firstRecipe secondRecipe, recipes.get? first = some firstRecipe →
    recipes.get? second = some secondRecipe →
    ∀ firstStep ∈ firstRecipe.steps, ∀ secondStep ∈ secondRecipe.steps,
    makeExecutionStepId first firstStep.id = makeExecutionStepId second secondStep.id →
    first = second ∧ firstStep.id = secondStep.id

theorem toList_qualified (recipeId localId : String) :
    (recipeId ++ "/" ++ localId).toList = recipeId.toList ++ '/' :: localId.toList := by
  simp

theorem splitQualifiedId_eq_some {qualifiedId recipeId localId : String} :
    splitQualifiedId qualifiedId = some (recipeId, localId) ↔
      qualifiedId = recipeId ++ "/" ++ localId ∧ '/' ∉ recipeId.toList := by
  simp only [splitQualifiedId, Option.map_eq_some_iff, Prod.exists, Prod.mk.injEq,
    Split.splitOnce_letter]
  constructor
  · rintro ⟨before, after, ⟨occurs, clean⟩, rfl, rfl⟩
    refine ⟨String.toList_injective ?_, by simpa using clean⟩
    simpa using occurs
  · rintro ⟨rfl, clean⟩
    exact ⟨recipeId.toList, localId.toList, ⟨by simp, clean⟩, by simp, by simp⟩

theorem qualifiedInput_eq_ownInput {recipes : OrderedMap String Recipe} {recipeId : String}
    (clean : '/' ∉ recipeId.toList) (targetId : String) :
    qualifiedInput recipes recipeId targetId = ownInput recipes recipeId targetId := by
  have split := splitQualifiedId_eq_some.mpr
    ⟨(rfl : makeExecutionInputId recipeId targetId = recipeId ++ "/" ++ targetId), clean⟩
  simp only [qualifiedInput, inputDeclaration, split, Option.bind_some, ownInput]

section

variable {recipes : OrderedMap String Recipe} {expandedRecipeRefs : List String}
  {inputBindings : OrderedMap String Json} {availability : OrderedMap String Bool}

def LacksInput (recipes : OrderedMap String Recipe) (inputBindings : OrderedMap String Json)
    (recipeId : String) (step : Step) : Prop :=
  ∃ targetId declaration, ReferencesInput step targetId ∧
    qualifiedInput recipes recipeId targetId = some declaration ∧
    UnboundOptional inputBindings (makeExecutionInputId recipeId targetId) declaration

theorem mem_referencedInputIds {recipeId inputId : String} {step : Step} :
    inputId ∈ referencedInputIds recipeId step ↔
      ∃ targetId, ReferencesInput step targetId ∧ inputId = makeExecutionInputId recipeId targetId := by
  simp only [referencedInputIds, mem_firstOccurrences, List.mem_filterMap, ReferencesInput]
  constructor
  · rintro ⟨value, member, named⟩
    cases value with
    | ref reference =>
        simp only [referencedInputId] at named
        split at named
        next targetId parsed =>
          exact ⟨targetId, ⟨reference, member, parsed⟩, (Option.some.inj named).symm⟩
        next => cases named
    | appTarget targetId => cases named
    | literal value => cases named
  · rintro ⟨targetId, ⟨reference, member, parsed⟩, rfl⟩
    exact ⟨.ref reference, member, by simp [referencedInputId, parsed]⟩

theorem optionalInputIsUnbound_iff {inputId : String} :
    optionalInputIsUnbound recipes inputBindings inputId = true ↔
      ∃ declaration, inputDeclaration recipes inputId = some declaration ∧
        UnboundOptional inputBindings inputId declaration := by
  simp only [optionalInputIsUnbound, UnboundOptional]
  split
  next missing => simp [missing]
  next declaration found =>
    simp only [found, Option.some.injEq, exists_eq_left', Bool.and_eq_true, Bool.not_eq_true',
      Bool.eq_false_iff, ne_eq, OrderedMap.contains_iff, Option.not_isSome_iff_eq_none, and_assoc]

theorem filter_unbound_isEmpty_iff {recipeId : String} {step : Step} :
    ((referencedInputIds recipeId step).filter
      (optionalInputIsUnbound recipes inputBindings)).isEmpty = true ↔
      ¬ LacksInput recipes inputBindings recipeId step := by
  rw [List.isEmpty_iff, List.filter_eq_nil_iff]
  constructor
  · rintro none ⟨targetId, declaration, references, found, unbound⟩
    exact none _ (mem_referencedInputIds.mpr ⟨targetId, references, rfl⟩)
      (optionalInputIsUnbound_iff.mpr ⟨declaration, found, unbound⟩)
  · rintro whole inputId member flagged
    obtain ⟨targetId, references, rfl⟩ := mem_referencedInputIds.mp member
    obtain ⟨declaration, found, unbound⟩ := optionalInputIsUnbound_iff.mp flagged
    exact whole ⟨targetId, declaration, references, found, unbound⟩

theorem mem_stepRemovals {selected : Finset String} {recipeId id : String} {recipe : Recipe}
    {step : Step} : id ∈ stepRemovals recipes inputBindings selected availability recipeId recipe step ↔
      makeExecutionStepId recipeId step.id ∈ selected ∧
      availability.get? (makeExecutionStepId recipeId step.id) = some true ∧
      LacksInput recipes inputBindings recipeId step ∧
      ∃ dependent, ReflTransGen (DependsOn recipe) dependent step.id ∧
        id = makeExecutionStepId recipeId dependent := by
  have usable : (availability.get? (makeExecutionStepId recipeId step.id)).getD false = false ↔
      ¬ availability.get? (makeExecutionStepId recipeId step.id) = some true := by
    cases availability.get? (makeExecutionStepId recipeId step.id) with
    | none => simp
    | some answer => cases answer <;> simp
  simp only [stepRemovals, usable]
  split
  next skipped => simp; tauto
  next taken =>
    have held : makeExecutionStepId recipeId step.id ∈ selected ∧
        availability.get? (makeExecutionStepId recipeId step.id) = some true := by tauto
    split
    next whole =>
      have complete := filter_unbound_isEmpty_iff.mp whole
      simp [complete]
    next lacking =>
      have lacks : LacksInput recipes inputBindings recipeId step := by
        by_contra complete
        exact lacking (filter_unbound_isEmpty_iff.mpr complete)
      simp only [held, lacks, true_and, Finset.mem_insert, Finset.mem_image, mem_dependentStepIds]
      constructor
      · rintro (rfl | ⟨dependent, ⟨_, path⟩, rfl⟩)
        · exact ⟨step.id, .refl, rfl⟩
        · exact ⟨dependent, path.to_reflTransGen, rfl⟩
      · rintro ⟨dependent, path, rfl⟩
        by_cases same : dependent = step.id
        · exact .inl (by rw [same])
        · rcases reflTransGen_iff_eq_or_transGen.mp path with equal | longer
          · exact absurd equal.symm same
          · exact .inr ⟨dependent, ⟨same, longer⟩, rfl⟩

theorem mem_removedStepIds {selected : Finset String} {id : String} :
    id ∈ removedStepIds recipes expandedRecipeRefs inputBindings availability selected ↔
      ∃ recipeId ∈ expandedRecipeRefs, ∃ recipe, recipes.get? recipeId = some recipe ∧
        ∃ step ∈ recipe.steps,
          id ∈ stepRemovals recipes inputBindings selected availability recipeId recipe step := by
  rw [removedStepIds, mem_foldl_union]
  simp only [Finset.notMem_empty, false_or]
  refine exists_congr fun recipeId => and_congr_right fun _ => ?_
  unfold recipeRemovals
  split
  next missing => simp [missing]
  next recipe found =>
    rw [mem_foldl_union]
    simp [found]

theorem pruneOptionalInputSteps_eq {selected : Finset String} :
    pruneOptionalInputSteps recipes expandedRecipeRefs inputBindings selected availability =
      selected \ removedStepIds recipes expandedRecipeRefs inputBindings availability selected := by
  have settled : removedStepIds recipes expandedRecipeRefs inputBindings availability
      (selected \ removedStepIds recipes expandedRecipeRefs inputBindings availability selected) =
        ∅ := by
    rw [Finset.eq_empty_iff_forall_notMem]
    intro id member
    obtain ⟨recipeId, listed, recipe, found, step, authored, removed⟩ := mem_removedStepIds.mp member
    obtain ⟨kept, usable, lacks, _⟩ := mem_stepRemovals.mp removed
    obtain ⟨held, notRemoved⟩ := Finset.mem_sdiff.mp kept
    refine notRemoved (mem_removedStepIds.mpr
      ⟨recipeId, listed, recipe, found, step, authored, mem_stepRemovals.mpr ?_⟩)
    exact ⟨held, usable, lacks, step.id, .refl, rfl⟩
  rw [pruneOptionalInputSteps, pruneRounds]
  split
  next nothing => simp [nothing]
  next something =>
    obtain ⟨id, member⟩ := Finset.nonempty_iff_ne_empty.mpr something
    obtain ⟨_, _, _, _, step, _, removed⟩ := mem_removedStepIds.mp member
    have occupied := Finset.card_pos.mpr ⟨_, (mem_stepRemovals.mp removed).1⟩
    obtain ⟨fuel, size⟩ : ∃ fuel, selected.card = fuel + 1 := ⟨selected.card - 1, by omega⟩
    rw [size, pruneRounds, if_pos settled]

end

section

variable {recipes : OrderedMap String Recipe} {runtimeCapabilities : RuntimeCapabilities}
  {targetUsage : OrderedMap String ResolvedStepUsage} {assume report : Bool}

def StepAvailable (runtimeCapabilities : RuntimeCapabilities)
    (targetUsage : OrderedMap String ResolvedStepUsage) (assume : Bool) (stepId : String) : Bool :=
  match targetUsage.get? stepId with
  | some usage => usage.capabilities.all (capabilityAvailable runtimeCapabilities assume)
  | none => false

theorem stepAvailable_iff {stepId : String} :
    StepAvailable runtimeCapabilities targetUsage assume stepId = true ↔
      CapabilitiesAvailable runtimeCapabilities targetUsage assume stepId := by
  simp only [StepAvailable, CapabilitiesAvailable]
  split
  next usage found => simp [found]
  next missing => simp [missing]

structure StepsScanned (runtimeCapabilities : RuntimeCapabilities)
    (targetUsage : OrderedMap String ResolvedStepUsage) (assume : Bool) (recipeId : String)
    (before : OrderedMap String Bool) (passed : List Step) (found : StepAvailability) : Prop where
  sound : ∀ id answer, found.availabilityByStepId.get? id = some answer →
    before.get? id = some answer ∨
      answer = StepAvailable runtimeCapabilities targetUsage assume id
  keeps : ∀ id, (before.get? id).isSome → (found.availabilityByStepId.get? id).isSome
  present : ∀ step ∈ passed,
    (found.availabilityByStepId.get? (makeExecutionStepId recipeId step.id)).isSome
  locally : ∀ id, found.availableByLocalStepId.get? id =
    if id ∈ passed.map Step.id then
      some (StepAvailable runtimeCapabilities targetUsage assume (makeExecutionStepId recipeId id))
    else none
  requested : found.requestedLocalStepIds = (passed.map Step.id).filter fun id =>
    StepAvailable runtimeCapabilities targetUsage assume (makeExecutionStepId recipeId id)

variable {recipeId : String} {before : OrderedMap String Bool}

theorem StepsScanned.step {passed : List Step} {found next : StepAvailability} {step : Step}
    (scanned : StepsScanned runtimeCapabilities targetUsage assume recipeId before passed found)
    (stepped : stepAvailability runtimeCapabilities targetUsage assume report recipeId found step =
      .ok next) :
    StepsScanned runtimeCapabilities targetUsage assume recipeId before (passed ++ [step]) next := by
  obtain ⟨usage, looked, built⟩ := Checks.bind_eq_ok.mp stepped
  have answer : usage.capabilities.all (capabilityAvailable runtimeCapabilities assume) =
      StepAvailable runtimeCapabilities targetUsage assume (makeExecutionStepId recipeId step.id) := by
    simp only [stepUsage] at looked
    split at looked
    next stored known =>
      cases Except.ok.inj looked
      simp [StepAvailable, known]
    next => exact nomatch looked
  cases Except.ok.inj built
  simp only [answer]
  refine ⟨?_, ?_, ?_, ?_, ?_⟩
  · intro id value stored
    rw [OrderedMap.get?_insert] at stored
    split at stored
    next same => exact .inr (same ▸ (Option.some.inj stored).symm)
    next => exact scanned.sound id value stored
  · intro id known
    rw [OrderedMap.get?_insert]
    split
    · rfl
    · exact scanned.keeps id known
  · intro other member
    rw [OrderedMap.get?_insert]
    split
    · rfl
    next different =>
      rcases List.mem_append.mp member with earlier | last
      · exact scanned.present other earlier
      · exact absurd (by rw [List.mem_singleton.mp last]) different
  · intro id
    rw [OrderedMap.get?_insert, scanned.locally id]
    by_cases same : id = step.id
    · simp [same]
    · simp [same]
  · rw [scanned.requested, List.map_append, List.filter_append]
    by_cases available : StepAvailable runtimeCapabilities targetUsage assume
        (makeExecutionStepId recipeId step.id) = true
    · simp [available]
    · simp [available]

theorem stepsScanned_foldlM {warnings : List PlannerMessage} {steps : List Step}
    {found : StepAvailability}
    (folded : steps.foldlM (stepAvailability runtimeCapabilities targetUsage assume report recipeId)
      ⟨before, .empty, [], warnings⟩ = .ok found) :
    StepsScanned runtimeCapabilities targetUsage assume recipeId before steps found :=
  Checks.foldlM_invariant
    (StepsScanned runtimeCapabilities targetUsage assume recipeId before)
    ⟨fun _ _ stored => .inl stored, fun _ known => known, by simp, by simp, rfl⟩
    (fun _ _ _ _ _ _ scanned stepped => scanned.step stepped) folded

def SelectableIn (runtimeCapabilities : RuntimeCapabilities)
    (targetUsage : OrderedMap String ResolvedStepUsage) (assume : Bool) (recipeId : String)
    (recipe : Recipe) (stepId : String) : Prop :=
  Throughout (DependsOn recipe) (fun id => (∃ step ∈ recipe.steps, step.id = id) ∧
    StepAvailable runtimeCapabilities targetUsage assume (makeExecutionStepId recipeId id) = true)
    stepId

theorem StepsScanned.available_iff {steps : List Step} {found : StepAvailability}
    (scanned : StepsScanned runtimeCapabilities targetUsage assume recipeId before steps found)
    (id : String) : Available found.availableByLocalStepId id ↔
      (∃ step ∈ steps, step.id = id) ∧
        StepAvailable runtimeCapabilities targetUsage assume (makeExecutionStepId recipeId id) =
          true := by
  rw [Available, scanned.locally id]
  by_cases authored : id ∈ steps.map Step.id
  · rw [if_pos authored]
    simp [List.mem_map.mp authored]
  · rw [if_neg authored]
    simp only [List.mem_map] at authored
    simp [authored]

structure Scanned (recipes : OrderedMap String Recipe) (runtimeCapabilities : RuntimeCapabilities)
    (targetUsage : OrderedMap String ResolvedStepUsage) (assume : Bool) (passed : List String)
    (found : Selection) : Prop where
  sound : ∀ id answer, found.availabilityByStepId.get? id = some answer →
    answer = StepAvailable runtimeCapabilities targetUsage assume id
  present : ∀ recipeId ∈ passed, ∀ recipe, recipes.get? recipeId = some recipe →
    ∀ step ∈ recipe.steps,
      (found.availabilityByStepId.get? (makeExecutionStepId recipeId step.id)).isSome
  members : found.errors = [] → ∀ id, id ∈ found.selected ↔
    ∃ recipeId ∈ passed, ∃ recipe, recipes.get? recipeId = some recipe ∧ ∃ stepId,
      SelectableIn runtimeCapabilities targetUsage assume recipeId (authoredOnce recipe) stepId ∧
        id = makeExecutionStepId recipeId stepId

theorem Scanned.step {passed : List String} {found next : Selection}
    (scanned : Scanned recipes runtimeCapabilities targetUsage assume passed found)
    (stepped : selectRecipe recipes runtimeCapabilities targetUsage assume report found recipeId =
      .ok next) :
    Scanned recipes runtimeCapabilities targetUsage assume (passed ++ [recipeId]) next := by
  rw [selectRecipe] at stepped
  split at stepped
  next missing =>
    cases Except.ok.inj stepped
    refine ⟨scanned.sound, ?_, ?_⟩
    · intro other member recipe known
      rcases List.mem_append.mp member with earlier | last
      · exact scanned.present other earlier recipe known
      · rw [List.mem_singleton.mp last, missing] at known
        exact nomatch known
    · intro silent id
      rw [scanned.members silent id]
      simp [or_and_right, exists_or, missing]
  next recipe known =>
    obtain ⟨steps, folded, built⟩ := Checks.bind_eq_ok.mp stepped
    have inner := stepsScanned_foldlM folded
    cases Except.ok.inj built
    refine ⟨?_, ?_, ?_⟩
    · intro id answer stored
      exact (inner.sound id answer stored).elim (scanned.sound id answer) fun same => same
    · intro other member otherRecipe otherKnown step authored
      rcases List.mem_append.mp member with earlier | last
      · exact inner.keeps _ (scanned.present other earlier otherRecipe otherKnown step authored)
      · obtain rfl := List.mem_singleton.mp last
        obtain rfl : recipe = otherRecipe := Option.some.inj (known.symm.trans otherKnown)
        exact inner.present step authored
    · intro silent id
      obtain ⟨earlierSilent, localSilent⟩ := List.append_eq_nil_iff.mp silent
      have requested (stepId : String) : stepId ∈ steps.requestedLocalStepIds ↔
          Available steps.availableByLocalStepId stepId := by
        rw [inner.available_iff, inner.requested, List.mem_filter, List.mem_map]
      have selects := mem_selectLocalStepIds (fun stepId usable => ((inner.available_iff stepId).mp
        usable).1) requested (Prod.ext rfl localSilent)
      have available : Available steps.availableByLocalStepId = fun id =>
          (∃ step ∈ (authoredOnce recipe).steps, step.id = id) ∧
            StepAvailable runtimeCapabilities targetUsage assume (makeExecutionStepId recipeId id) =
              true := by
        funext id
        rw [inner.available_iff id, authoredOnce_ids]
      have same (stepId : String) : stepId ∈ (selectLocalStepIds recipe steps.requestedLocalStepIds
          steps.availableByLocalStepId).1 ↔ SelectableIn runtimeCapabilities targetUsage assume
            recipeId (authoredOnce recipe) stepId := by
        rw [selects stepId, Selectable, SelectableIn, available]
      simp only [Finset.mem_union, Finset.mem_image, scanned.members earlierSilent id, same]
      constructor
      · rintro (⟨other, member, rest⟩ | ⟨stepId, usable, rfl⟩)
        · exact ⟨other, by simp [member], rest⟩
        · exact ⟨recipeId, by simp, recipe, known, stepId, usable, rfl⟩
      · rintro ⟨other, member, otherRecipe, otherKnown, stepId, usable, rfl⟩
        rcases List.mem_append.mp member with earlier | last
        · exact .inl ⟨other, earlier, otherRecipe, otherKnown, stepId, usable, rfl⟩
        · obtain rfl := List.mem_singleton.mp last
          obtain rfl : recipe = otherRecipe := Option.some.inj (known.symm.trans otherKnown)
          exact .inr ⟨stepId, usable, rfl⟩

theorem scanned_foldlM {expandedRecipeRefs : List String} {found : Selection}
    (folded : expandedRecipeRefs.foldlM
      (selectRecipe recipes runtimeCapabilities targetUsage assume report) ⟨∅, .empty, [], []⟩ =
        .ok found) :
    Scanned recipes runtimeCapabilities targetUsage assume expandedRecipeRefs found := by
  refine Checks.foldlM_invariant
    (Scanned recipes runtimeCapabilities targetUsage assume)
    ⟨fun _ _ stored => absurd stored (by simp), by simp, by simp⟩ ?_ folded
  rintro passed recipeId rest state next split scanned stepped
  exact scanned.step stepped

theorem Scanned.members_distinct {expandedRecipeRefs : List String} {found : Selection}
    (scanned : Scanned recipes runtimeCapabilities targetUsage assume expandedRecipeRefs found)
    (unique : UniqueStepIds recipes expandedRecipeRefs) (silent : found.errors = []) (id : String) :
    id ∈ found.selected ↔ ∃ recipeId ∈ expandedRecipeRefs, ∃ recipe,
      recipes.get? recipeId = some recipe ∧ ∃ stepId,
        SelectableIn runtimeCapabilities targetUsage assume recipeId recipe stepId ∧
          id = makeExecutionStepId recipeId stepId := by
  rw [scanned.members silent id]
  refine exists_congr fun recipeId => and_congr_right fun listed => exists_congr fun recipe =>
    and_congr_right fun known => ?_
  rw [authoredOnce_eq (unique.distinct recipeId listed recipe known)]

end

section

variable {recipes : OrderedMap String Recipe} {expandedRecipeRefs : List String}
  {inputBindings : OrderedMap String Json} {runtimeCapabilities : RuntimeCapabilities}
  {targetUsage : OrderedMap String ResolvedStepUsage} {assume report : Bool}
  {selected : Finset String} {warnings : List PlannerMessage}

theorem admissible_iff {recipeId : String} {recipe : Recipe} {stepId : String}
    (distinct : (recipe.steps.map Step.id).Nodup) :
    Admissible inputBindings runtimeCapabilities targetUsage assume (qualifiedInput recipes) recipeId
        recipe stepId ↔
      SelectableIn runtimeCapabilities targetUsage assume recipeId recipe stepId ∧
        ∀ step ∈ recipe.steps, ReflTransGen (DependsOn recipe) stepId step.id →
          ¬ LacksInput recipes inputBindings recipeId step := by
  constructor
  · intro admissible
    refine ⟨fun reached path => ?_, fun step member path lacks => ?_⟩
    · obtain ⟨step, member, same, usable, _⟩ := admissible reached path
      exact ⟨⟨step, member, same⟩, stepAvailable_iff.mpr usable⟩
    · obtain ⟨other, otherMember, same, _, bound⟩ := admissible step.id path
      obtain rfl : other = step := List.inj_on_of_nodup_map distinct otherMember member same
      obtain ⟨targetId, declaration, references, found, unbound⟩ := lacks
      exact bound targetId declaration references found unbound
  · rintro ⟨selectable, whole⟩ reached path
    obtain ⟨⟨step, member, rfl⟩, usable⟩ := selectable reached path
    refine ⟨step, member, rfl, stepAvailable_iff.mp usable, ?_⟩
    intro targetId declaration references found unbound
    exact whole step member path ⟨targetId, declaration, references, found, unbound⟩

theorem mem_selectedStepIds (unique : UniqueStepIds recipes expandedRecipeRefs)
    (selects : selectedStepIds recipes expandedRecipeRefs inputBindings runtimeCapabilities
      targetUsage assume report = .ok (selected, [], warnings)) {recipeId : String}
    (listed : recipeId ∈ expandedRecipeRefs) {recipe : Recipe}
    (known : recipes.get? recipeId = some recipe) {step : Step} (authored : step ∈ recipe.steps) :
    makeExecutionStepId recipeId step.id ∈ selected ↔
      Admissible inputBindings runtimeCapabilities targetUsage assume (qualifiedInput recipes)
        recipeId recipe step.id := by
  obtain ⟨found, folded, built⟩ := Checks.bind_eq_ok.mp selects
  have scanned := scanned_foldlM folded
  split at built
  next silent =>
    have qualified : ∀ stepId, (∃ other ∈ recipe.steps, other.id = stepId) →
        (makeExecutionStepId recipeId stepId ∈ found.selected ↔
          SelectableIn runtimeCapabilities targetUsage assume recipeId recipe stepId) := by
      rintro _ ⟨other, member, rfl⟩
      rw [scanned.members_distinct unique (List.isEmpty_iff.mp silent)]
      constructor
      · rintro ⟨otherId, otherListed, otherRecipe, otherKnown, stepId, selectable, same⟩
        obtain ⟨⟨owner, owned, rfl⟩, _⟩ := selectable stepId .refl
        obtain ⟨rfl, equal⟩ := unique.qualified recipeId listed otherId otherListed recipe otherRecipe
          known otherKnown other member owner owned same
        obtain rfl : recipe = otherRecipe := Option.some.inj (known.symm.trans otherKnown)
        exact equal ▸ selectable
      · intro selectable
        exact ⟨recipeId, listed, recipe, known, other.id, selectable, rfl⟩
    obtain ⟨rfl, _⟩ := Prod.mk.inj (Except.ok.inj built)
    rw [pruneOptionalInputSteps_eq, Finset.mem_sdiff, admissible_iff (unique.distinct _ listed _ known),
      qualified _ ⟨step, authored, rfl⟩, mem_removedStepIds]
    refine and_congr_right fun selectable => ?_
    constructor
    · intro kept other member path lacks
      have otherSelectable := selectable.closed path
      refine kept ⟨recipeId, listed, recipe, known, other, member, mem_stepRemovals.mpr ?_⟩
      refine ⟨(qualified _ ⟨other, member, rfl⟩).mpr otherSelectable, ?_, lacks, step.id, path, rfl⟩
      obtain ⟨answer, stored⟩ := Option.isSome_iff_exists.mp
        (scanned.present recipeId listed recipe known other member)
      rw [stored, scanned.sound _ _ stored, (otherSelectable other.id .refl).2]
    · rintro whole ⟨otherId, otherListed, otherRecipe, otherKnown, other, member, removed⟩
      obtain ⟨_, _, lacks, dependent, path, same⟩ := mem_stepRemovals.mp removed
      have owned : ∃ owner ∈ otherRecipe.steps, owner.id = dependent := by
        rcases path.cases_head with rfl | ⟨_, ⟨owner, owns, named, _⟩, _⟩
        · exact ⟨other, member, rfl⟩
        · exact ⟨owner, owns, named⟩
      obtain ⟨owner, owns, rfl⟩ := owned
      obtain ⟨rfl, equal⟩ := unique.qualified recipeId listed otherId otherListed recipe otherRecipe
        known otherKnown step authored owner owns same
      obtain rfl : recipe = otherRecipe := Option.some.inj (known.symm.trans otherKnown)
      exact whole other member (equal ▸ path) lacks
  next reported =>
    have silent := (Prod.mk.inj (Prod.mk.inj (Except.ok.inj built)).2).1
    exact absurd (List.isEmpty_iff.mpr silent) reported

/-- A set holds the admissible steps of the expanded Recipes, by their qualified ids, and
nothing else. -/
structure SelectsExactly (recipes : OrderedMap String Recipe) (expandedRecipeRefs : List String)
    (admissible : String → Recipe → String → Prop) (selected : Finset String) : Prop where
  exactly : ∀ recipeId ∈ expandedRecipeRefs, ∀ recipe, recipes.get? recipeId = some recipe →
    ∀ step ∈ recipe.steps,
      (makeExecutionStepId recipeId step.id ∈ selected ↔ admissible recipeId recipe step.id)
  authored : ∀ id ∈ selected, ∃ recipeId ∈ expandedRecipeRefs, ∃ recipe,
    recipes.get? recipeId = some recipe ∧
      ∃ step ∈ recipe.steps, id = makeExecutionStepId recipeId step.id

theorem SelectsExactly.unique {admissible : String → Recipe → String → Prop}
    {other : Finset String}
    (first : SelectsExactly recipes expandedRecipeRefs admissible selected)
    (second : SelectsExactly recipes expandedRecipeRefs admissible other) : selected = other := by
  ext id
  constructor
  · intro member
    obtain ⟨recipeId, listed, recipe, known, step, authored, rfl⟩ := first.authored id member
    exact (second.exactly recipeId listed recipe known step authored).mpr
      ((first.exactly recipeId listed recipe known step authored).mp member)
  · intro member
    obtain ⟨recipeId, listed, recipe, known, step, authored, rfl⟩ := second.authored id member
    exact (first.exactly recipeId listed recipe known step authored).mpr
      ((second.exactly recipeId listed recipe known step authored).mp member)

theorem selectsExactly_qualified (unique : UniqueStepIds recipes expandedRecipeRefs)
    (selects : selectedStepIds recipes expandedRecipeRefs inputBindings runtimeCapabilities
      targetUsage assume report = .ok (selected, [], warnings)) :
    SelectsExactly recipes expandedRecipeRefs (Admissible inputBindings runtimeCapabilities
      targetUsage assume (qualifiedInput recipes)) selected := by
  refine ⟨fun recipeId listed recipe known step authored =>
    mem_selectedStepIds unique selects listed known authored, ?_⟩
  intro id member
  obtain ⟨found, folded, built⟩ := Checks.bind_eq_ok.mp selects
  have scanned := scanned_foldlM folded
  split at built
  next silent =>
    obtain ⟨rfl, _⟩ := Prod.mk.inj (Except.ok.inj built)
    rw [pruneOptionalInputSteps_eq, Finset.mem_sdiff,
      scanned.members_distinct unique (List.isEmpty_iff.mp silent)] at member
    obtain ⟨⟨recipeId, listed, recipe, known, stepId, selectable, rfl⟩, _⟩ := member
    obtain ⟨⟨step, authored, rfl⟩, _⟩ := selectable stepId .refl
    exact ⟨recipeId, listed, recipe, known, step, authored, rfl⟩
  next =>
    obtain ⟨rfl, _⟩ := Prod.mk.inj (Except.ok.inj built)
    simp at member

def Reordered (recipes other : OrderedMap String Recipe) : Prop :=
  ∀ id, Option.Rel (fun first second => first.steps.Perm second.steps ∧ first.inputs = second.inputs)
    (recipes.get? id) (other.get? id)

section

variable {other : OrderedMap String Recipe} (reordered : Reordered recipes other)
include reordered

theorem Reordered.get? {recipeId : String} {recipe : Recipe}
    (known : other.get? recipeId = some recipe) : ∃ before, recipes.get? recipeId = some before ∧
      before.steps.Perm recipe.steps ∧ before.inputs = recipe.inputs := by
  have related := reordered recipeId
  rw [known] at related
  cases found : recipes.get? recipeId with
  | none =>
      rw [found] at related
      exact nomatch related
  | some before =>
      rw [found] at related
      cases related with
      | some same => exact ⟨before, rfl, same⟩

theorem Reordered.unique (unique : UniqueStepIds recipes expandedRecipeRefs) :
    UniqueStepIds other expandedRecipeRefs := by
  refine ⟨?_, ?_⟩
  · intro recipeId listed recipe known
    obtain ⟨before, beforeKnown, permuted, _⟩ := reordered.get? known
    exact (permuted.map Step.id).nodup_iff.mp (unique.distinct recipeId listed before beforeKnown)
  · intro first firstListed second secondListed firstRecipe secondRecipe firstKnown secondKnown
      firstStep firstAuthored secondStep secondAuthored same
    obtain ⟨firstBefore, firstFound, firstPerm, _⟩ := reordered.get? firstKnown
    obtain ⟨secondBefore, secondFound, secondPerm, _⟩ := reordered.get? secondKnown
    exact unique.qualified first firstListed second secondListed firstBefore secondBefore firstFound
      secondFound firstStep (firstPerm.mem_iff.mpr firstAuthored) secondStep
      (secondPerm.mem_iff.mpr secondAuthored) same

theorem Reordered.qualifiedInput_eq : qualifiedInput other = qualifiedInput recipes := by
  funext recipeId targetId
  simp only [qualifiedInput, inputDeclaration]
  refine Option.bind_congr fun parts _ => ?_
  have related := reordered parts.1
  cases found : other.get? parts.1 with
  | none =>
      rw [found] at related
      cases before : recipes.get? parts.1 with
      | none => simp
      | some recipe =>
          rw [before] at related
          exact nomatch related
  | some recipe =>
      obtain ⟨before, known, _, same⟩ := reordered.get? found
      simp [known, same]

omit reordered in
theorem admissible_perm {declared : String → String → Option InputDeclaration} {recipeId : String}
    {recipe before : Recipe} (permuted : before.steps.Perm recipe.steps) (stepId : String) :
    Admissible inputBindings runtimeCapabilities targetUsage assume declared recipeId recipe stepId ↔
      Admissible inputBindings runtimeCapabilities targetUsage assume declared recipeId before
        stepId := by
  have edges : DependsOn recipe = DependsOn before := by
    funext first second
    simp only [DependsOn, permuted.mem_iff]
  simp only [Admissible, Throughout, Runnable, edges, permuted.mem_iff]

theorem Reordered.selectsExactly (selects : SelectsExactly other expandedRecipeRefs
    (Admissible inputBindings runtimeCapabilities targetUsage assume (qualifiedInput other))
      selected) : SelectsExactly recipes expandedRecipeRefs (Admissible inputBindings
      runtimeCapabilities targetUsage assume (qualifiedInput recipes)) selected := by
  rw [reordered.qualifiedInput_eq] at selects
  refine ⟨?_, ?_⟩
  · intro recipeId listed recipe known step authored
    have related := reordered recipeId
    rw [known] at related
    cases found : other.get? recipeId with
    | none =>
        rw [found] at related
        exact nomatch related
    | some later =>
        obtain ⟨before, beforeKnown, permuted, _⟩ := reordered.get? found
        obtain rfl : recipe = before := Option.some.inj (known.symm.trans beforeKnown)
        rw [selects.exactly recipeId listed later found step (permuted.mem_iff.mp authored)]
        exact admissible_perm permuted step.id
  · intro id member
    obtain ⟨recipeId, listed, recipe, known, step, authored, same⟩ := selects.authored id member
    obtain ⟨before, beforeKnown, permuted, _⟩ := reordered.get? known
    exact ⟨recipeId, listed, before, beforeKnown, step, permuted.mem_iff.mpr authored, same⟩

end

def waitingStep (id : String) (dependencies : List String) : Step where
  id := id
  typeName := "wait"
  dependencies := dependencies
  constraints := ⟨[], []⟩
  params := .empty

def copySource (dependencies : List String) : Step :=
  { waitingStep "copy" dependencies with
    typeName := "copy_files"
    params := .ofList [("source", .ref "inputs.folder")] }

def optionalSourceRecipe (recipeId : String) (steps : List Step) : Recipe where
  id := recipeId
  recipeDependencies := []
  inputs := .ofList [("folder", ⟨"directory", false, false, .null, ⟨false, [], none, []⟩, []⟩)]
  steps := steps

def optionalSourceRecipes (recipeId : String) (steps : List Step) : OrderedMap String Recipe :=
  .ofList [(recipeId, optionalSourceRecipe recipeId steps)]

def noCapabilities : RuntimeCapabilities :=
  ⟨false, false, false, false, false, false, false, false, none⟩

def usageOf (needed : List (String × List String)) : OrderedMap String ResolvedStepUsage :=
  .ofList (needed.map fun entry => (entry.1, ⟨none, none, [], [], entry.2⟩))

theorem optionalSource_get? {recipeId other : String} {steps : List Step} {recipe : Recipe} :
    (optionalSourceRecipes recipeId steps).get? other = some recipe ↔
      other = recipeId ∧ recipe = optionalSourceRecipe recipeId steps := by
  simp only [optionalSourceRecipes, OrderedMap.ofList, List.foldl_cons, List.foldl_nil,
    OrderedMap.get?_insert, OrderedMap.get?_empty]
  split
  next same => simp [same, eq_comm]
  next different => simp [different]

theorem optionalSource_unique (recipeId : String) {steps : List Step}
    (distinct : (steps.map Step.id).Nodup) :
    UniqueStepIds (optionalSourceRecipes recipeId steps) [recipeId] := by
  refine ⟨?_, ?_⟩
  · intro other _ recipe known
    obtain ⟨_, rfl⟩ := optionalSource_get?.mp known
    exact distinct
  · intro first _ second _ _ _ firstKnown secondKnown _ _ _ _ same
    obtain ⟨rfl, _⟩ := optionalSource_get?.mp firstKnown
    obtain ⟨rfl, _⟩ := optionalSource_get?.mp secondKnown
    exact ⟨rfl, by simpa [makeExecutionStepId] using same⟩

/-- Whenever no error is reported, the selected steps are the admissible ones, a referenced
input being the one that its qualified id names; for Recipe ids without a slash that is the
Recipe's own input. The selection is closed under dependencies and independent of step order. -/
theorem selectedStepIds_greatest (unique : UniqueStepIds recipes expandedRecipeRefs)
    (selects : selectedStepIds recipes expandedRecipeRefs inputBindings runtimeCapabilities
      targetUsage assume report = .ok (selected, [], warnings)) :
    SelectsExactly recipes expandedRecipeRefs (Admissible inputBindings runtimeCapabilities
      targetUsage assume (qualifiedInput recipes)) selected ∧
    ((∀ recipeId ∈ expandedRecipeRefs, '/' ∉ recipeId.toList) →
      SelectsExactly recipes expandedRecipeRefs (Admissible inputBindings runtimeCapabilities
        targetUsage assume (ownInput recipes)) selected) ∧
    (∀ recipeId ∈ expandedRecipeRefs, ∀ recipe, recipes.get? recipeId = some recipe →
      ∀ step ∈ recipe.steps, makeExecutionStepId recipeId step.id ∈ selected →
        ∀ dependency ∈ step.dependencies, makeExecutionStepId recipeId dependency ∈ selected) ∧
    ∀ other otherSelected otherWarnings, Reordered recipes other →
      selectedStepIds other expandedRecipeRefs inputBindings runtimeCapabilities targetUsage assume
        report = .ok (otherSelected, [], otherWarnings) → otherSelected = selected := by
  have exactly := selectsExactly_qualified unique selects
  refine ⟨exactly, ?_, ?_, ?_⟩
  · intro clean
    refine ⟨?_, exactly.authored⟩
    intro recipeId listed recipe known step authored
    have same : Runnable inputBindings runtimeCapabilities targetUsage assume (qualifiedInput recipes)
        recipeId recipe = Runnable inputBindings runtimeCapabilities targetUsage assume
          (ownInput recipes) recipeId recipe := by
      funext stepId
      simp only [Runnable, qualifiedInput_eq_ownInput (clean recipeId listed)]
    rw [exactly.exactly recipeId listed recipe known step authored, Admissible, same, Admissible]
  · intro recipeId listed recipe known step authored member dependency depends
    have admissible := (exactly.exactly recipeId listed recipe known step authored).mp member
    have edge : DependsOn recipe step.id dependency := ⟨step, authored, rfl, depends⟩
    have later := (throughout_iff.mp admissible).2 dependency edge
    obtain ⟨other, otherAuthored, rfl, _⟩ := later dependency .refl
    exact (exactly.exactly recipeId listed recipe known other otherAuthored).mpr later
  · intro other otherSelected otherWarnings reordered otherSelects
    exact (reordered.selectsExactly
      (selectsExactly_qualified (reordered.unique unique) otherSelects)).unique exactly

def dependentSteps : List Step :=
  [waitingStep "prepare" [], copySource ["prepare"], waitingStep "check" ["copy"], waitingStep "probe" [],
    waitingStep "report" ["probe"]]

def probeUsage : OrderedMap String ResolvedStepUsage :=
  usageOf [("roms/prepare", []), ("roms/copy", []), ("roms/check", []),
    ("roms/probe", ["root_shell"]), ("roms/report", [])]

/-- The probe is unavailable and the copy is pruned, and what depends on them goes with them. -/
theorem selectedStepIds_greatest_sample :
    SelectsExactly (optionalSourceRecipes "roms" dependentSteps) ["roms"]
      (Admissible .empty noCapabilities probeUsage false
        (ownInput (optionalSourceRecipes "roms" dependentSteps))) {"roms/prepare"} :=
  (selectedStepIds_greatest (optionalSource_unique "roms" (by decide))
    (rfl : selectedStepIds (optionalSourceRecipes "roms" dependentSteps) ["roms"] .empty
      noCapabilities probeUsage false false = .ok ({"roms/prepare"}, [], []))).2.1 (by decide)

/-- With a slash in its id, a Recipe keeps a step whose own optional input is unbound. -/
theorem not_selectsExactly_ownInput :
    UniqueStepIds (optionalSourceRecipes "games/roms" [copySource []]) ["games/roms"] ∧
    selectedStepIds (optionalSourceRecipes "games/roms" [copySource []]) ["games/roms"] .empty
      noCapabilities (usageOf [("games/roms/copy", [])]) false false =
        .ok ({"games/roms/copy"}, [], []) ∧
    ¬ SelectsExactly (optionalSourceRecipes "games/roms" [copySource []]) ["games/roms"]
      (Admissible .empty noCapabilities (usageOf [("games/roms/copy", [])]) false
        (ownInput (optionalSourceRecipes "games/roms" [copySource []]))) {"games/roms/copy"} := by
  refine ⟨optionalSource_unique _ (by decide), rfl, ?_⟩
  intro selects
  have known : (optionalSourceRecipes "games/roms" [copySource []]).get? "games/roms" =
      some (optionalSourceRecipe "games/roms" [copySource []]) := optionalSource_get?.mpr ⟨rfl, rfl⟩
  have admissible := (selects.exactly "games/roms" (by simp) _ known _ List.mem_cons_self).mp
    (by decide)
  obtain ⟨step, authored, _, _, bound⟩ := admissible _ .refl
  obtain rfl := List.mem_singleton.mp authored
  refine bound "folder" ⟨"directory", false, false, .null, ⟨false, [], none, []⟩, []⟩
    ⟨"inputs.folder", ?_, by decide⟩ ?_ ⟨rfl, rfl, rfl⟩
  · exact List.mem_singleton.mpr rfl
  · simp only [ownInput, known]
    rfl

end

end EmuChef.Planner
