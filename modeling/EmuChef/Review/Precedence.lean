import EmuChef.Review.ShownWork

/-! The precedence of the binding layers: which value a plan carries for an input, and what a
shadowed value can change. -/

namespace EmuChef.Review

open Planner
open Authored (AppDefinition)

section

variable {host : Host}

def ReadsDirectory (host : Host) : Prop :=
  ∃ directory, host.currentDirectory = some directory ∧ isAbsolute directory = true

theorem expandUserPath_absolute {path : String} (absolute : isAbsolute path = true) :
    expandUserPath host path = path := by
  simp only [isAbsolute, decide_eq_true_eq] at absolute
  obtain ⟨rest, letters⟩ : ∃ rest, path.toList = '/' :: rest := by
    cases held : path.toList with
    | nil => simp [held] at absolute
    | cons letter rest =>
        rw [held, List.head?_cons, Option.some.injEq] at absolute
        exact ⟨rest, by rw [absolute]⟩
  have home : path ≠ "~" := by
    rintro rfl
    cases letters
  rw [expandUserPath, if_neg home, letters]
  rfl

theorem normalizePathString_absolute {path : String} (absolute : isAbsolute path = true) :
    normalizePathString host path = path := by
  simp only [normalizePathString, expandUserPath_absolute absolute, absolute, if_true]

theorem isAbsolute_append {first second : String} (absolute : isAbsolute first = true) :
    isAbsolute (first ++ second) = true := by
  simp only [isAbsolute, decide_eq_true_eq, String.toList_append] at absolute ⊢
  rw [List.head?_append, absolute, Option.some_or]

theorem isAbsolute_normalizePathString (reads : ReadsDirectory host) (path : String) :
    isAbsolute (normalizePathString host path) = true := by
  obtain ⟨directory, current, absolute⟩ := reads
  simp only [normalizePathString, current, Option.map_some, Option.getD_some]
  split_ifs with expanded
  · exact expanded
  · rw [joinPath]
    split_ifs
    · exact isAbsolute_append absolute
    · exact isAbsolute_append (isAbsolute_append absolute)

theorem normalizeBindingItem_again (reads : ReadsDirectory host) (item : Json) :
    normalizeBindingItem host (normalizeBindingItem host item) = normalizeBindingItem host item := by
  cases item with
  | string path =>
      exact congrArg Json.string
        (normalizePathString_absolute (isAbsolute_normalizePathString reads path))
  | _ => rfl

theorem normalizeBindingValue_again (reads : ReadsDirectory host) (declaration : InputDeclaration)
    (value : Json) :
    normalizeBindingValue host declaration (normalizeBindingValue host declaration value) =
      normalizeBindingValue host declaration value := by
  unfold normalizeBindingValue
  split_ifs with hostPath several
  · cases value with
    | array items =>
        simp only [List.map_map, Json.array.injEq]
        exact List.map_congr_left fun item _ => normalizeBindingItem_again reads item
    | _ => rfl
  · exact normalizeBindingItem_again reads value
  · rfl

end

def inputLayers (layers : BindingLayers) (declaration : InputDeclaration) (key : String) :
    List (BindingSource × Option Json) :=
  [(.explicit, layers.explicit.get? key),
    (.userConfiguration, layers.userConfiguration.get? key),
    (.devicePlan, layers.devicePlan.get? key),
    (.recipeDefault, if declaration.default.isNull then none else some declaration.default)]

def Wins (layers : List (BindingSource × Option Json)) (source : BindingSource) (value : Json) : Prop :=
  ∃ higher lower, layers = higher ++ (source, some value) :: lower ∧
    ∀ layer ∈ higher, layer.2 = none

theorem rawBinding_eq_some {layers : BindingLayers} {key : String} {declaration : InputDeclaration}
    {value : Json} {source : BindingSource} :
    rawBinding layers key declaration = some (value, source) ↔
      Wins (inputLayers layers declaration key) source value := by
  have first : rawBinding layers key declaration = (inputLayers layers declaration key).findSome?
      fun layer => layer.2.map (·, layer.1) := by
    simp only [rawBinding, inputLayers, List.findSome?_cons, List.findSome?_nil]
    cases layers.explicit.get? key with
    | some value => rfl
    | none =>
        cases layers.userConfiguration.get? key with
        | some value => rfl
        | none =>
            cases layers.devicePlan.get? key with
            | some value => rfl
            | none => cases declaration.default.isNull <;> rfl
  rw [first, List.findSome?_eq_some_iff]
  constructor
  · rintro ⟨higher, layer, lower, split, held, none⟩
    obtain ⟨found, same, pair⟩ := Option.map_eq_some_iff.mp held
    obtain ⟨rfl, rfl⟩ := Prod.mk.inj pair
    refine ⟨higher, lower, by rw [split, ← same], fun layer member => ?_⟩
    exact Option.map_eq_none_iff.mp (none layer member)
  · rintro ⟨higher, lower, split, none⟩
    exact ⟨higher, _, lower, split, rfl, fun layer member =>
      Option.map_eq_none_iff.mpr (none layer member)⟩

section

theorem splitBindingKey_eq_some {key recipeId inputId : String} :
    splitBindingKey key = some (recipeId, inputId) →
      key = makeExecutionInputId recipeId inputId ∧ '/' ∉ recipeId.toList ∧ '/' ∉ inputId.toList := by
  intro split
  obtain ⟨⟨before, after⟩, found, kept⟩ := Option.bind_eq_some_iff.mp split
  rw [Split.splitOnce_letter] at found
  obtain ⟨occurs, clean⟩ := found
  split_ifs at kept with refused
  rw [not_or, not_or] at refused
  obtain ⟨rfl, rfl⟩ := Prod.mk.inj (Option.some.inj kept)
  refine ⟨String.toList_injective ?_, by simpa using clean, by simpa using refused.2.2⟩
  rw [makeExecutionInputId, toList_qualified]
  simpa using occurs

theorem input_of_key {key recipeId inputId otherRecipe otherInput : String}
    (split : splitBindingKey key = some (recipeId, inputId))
    (same : key = makeExecutionInputId otherRecipe otherInput) :
    otherRecipe = recipeId ∧ otherInput = inputId := by
  obtain ⟨rfl, cleanRecipe, cleanInput⟩ := splitBindingKey_eq_some split
  have letters := congrArg String.toList same
  rw [makeExecutionInputId, makeExecutionInputId, toList_qualified, toList_qualified] at letters
  have slashes := congrArg (List.count '/') letters
  rw [List.count_append, List.count_append, List.count_cons_self, List.count_cons_self,
    List.count_eq_zero.mpr cleanRecipe, List.count_eq_zero.mpr cleanInput] at slashes
  have clean : '/' ∉ otherRecipe.toList := List.count_eq_zero.mp (by omega)
  have first := splitQualifiedId_eq_some.mpr
    ⟨(rfl : makeExecutionInputId recipeId inputId = recipeId ++ "/" ++ inputId), cleanRecipe⟩
  have second := splitQualifiedId_eq_some.mpr ⟨same, clean⟩
  exact (Prod.mk.inj (Option.some.inj (second.symm.trans first)))

variable {host : Host} {recipes : OrderedMap String Authored.Recipe} {expandedRecipeRefs : List String}
  {layers : BindingLayers} {key recipeId inputId : String} {declaration : InputDeclaration}

theorem mem_declaredInputs : (recipeId, inputId, declaration) ∈ declaredInputs recipes
    expandedRecipeRefs ↔ recipeId ∈ expandedRecipeRefs ∧ ∃ recipe,
      recipes.get? recipeId = some recipe ∧ recipe.inputs.get? inputId = some declaration := by
  simp only [declaredInputs, List.mem_flatMap, Option.mem_toList, List.mem_map, Prod.mk.injEq,
    OrderedMap.get?_eq_some]
  constructor
  · rintro ⟨_, listed, recipe, found, entry, member, rfl, rfl, rfl⟩
    exact ⟨listed, recipe, found, member⟩
  · rintro ⟨listed, recipe, found, member⟩
    exact ⟨recipeId, listed, recipe, found, _, member, rfl, rfl, rfl⟩

theorem resolved_of_key (split : splitBindingKey key = some (recipeId, inputId))
    (declared : (recipeId, inputId, declaration) ∈ declaredInputs recipes expandedRecipeRefs)
    {resolved : ResolvedInputBinding}
    (member : resolved ∈ (resolveRuntimeBindings host recipes expandedRecipeRefs
      layers).resolvedInputs) (same : resolved.key = key) :
    resolved = resolveInput host layers recipeId inputId declaration := by
  simp only [resolveRuntimeBindings, List.mem_map] at member
  obtain ⟨_, ⟨⟨otherRecipe, otherInput, other⟩, listed, rfl⟩, rfl⟩ := member
  obtain ⟨rfl, rfl⟩ := input_of_key split same.symm
  obtain ⟨_, recipe, found, held⟩ := mem_declaredInputs.mp declared
  obtain ⟨_, recipe', found', held'⟩ := mem_declaredInputs.mp listed
  obtain rfl := Option.some.inj (found.symm.trans found')
  obtain rfl := Option.some.inj (held.symm.trans held')
  rfl

theorem resolveInput_mem
    (declared : (recipeId, inputId, declaration) ∈ declaredInputs recipes expandedRecipeRefs) :
    resolveInput host layers recipeId inputId declaration ∈
      (resolveRuntimeBindings host recipes expandedRecipeRefs layers).resolvedInputs := by
  simp only [resolveRuntimeBindings, List.mem_map]
  exact ⟨_, ⟨_, declared, rfl⟩, rfl⟩

theorem get?_effectiveInputBindings (split : splitBindingKey key = some (recipeId, inputId))
    (declared : (recipeId, inputId, declaration) ∈ declaredInputs recipes expandedRecipeRefs) :
    (effectiveInputBindings (resolveRuntimeBindings host recipes expandedRecipeRefs
      layers).resolvedInputs).get? key =
        (resolveInput host layers recipeId inputId declaration).value := by
  have sameKey : (resolveInput host layers recipeId inputId declaration).key = key :=
    (splitBindingKey_eq_some split).1.symm
  have entries : ∀ value, (key, value) ∈ (resolveRuntimeBindings host recipes expandedRecipeRefs
      layers).resolvedInputs.filterMap (fun resolved => resolved.value.map fun value =>
        (resolved.key, value)) ↔
      (resolveInput host layers recipeId inputId declaration).value = some value := by
    intro value
    simp only [List.mem_filterMap, Option.map_eq_some_iff, Prod.mk.injEq]
    constructor
    · rintro ⟨resolved, member, found, held, same, rfl⟩
      rw [← resolved_of_key split declared member same, held]
    · intro held
      exact ⟨_, resolveInput_mem declared, value, held, sameKey, rfl⟩
  cases held : (resolveInput host layers recipeId inputId declaration).value with
  | none =>
      rw [OrderedMap.get?_eq_none]
      intro present
      obtain ⟨value, found⟩ := Option.isSome_iff_exists.mp (OrderedMap.get?_isSome.mpr present)
      have listed := (entries value).mp (OrderedMap.mem_of_get?_ofList found)
      rw [held] at listed
      cases listed
  | some value =>
      refine OrderedMap.get?_ofList_of_agree ((entries value).mpr held) fun other listed => ?_
      exact Option.some.inj (((entries other).mp listed).symm.trans held)

end

section

variable {presentation : String → String → InputPresentation} {host : Host}
  {checks : AuthorityChecks} {input : PlannerInput} {devicePlan : Option ExecutionDevicePlanSnapshot}
  {appDefinitions : List AppDefinition} {mode : PlanningMode} {reviewed : ReviewedPlan}

def emitsReviewSnapshots (input : PlannerInput) (devicePlan : Option ExecutionDevicePlanSnapshot) :
    Bool :=
  input.emitsProductContract || devicePlan.isSome

def resolvedBindings (host : Host) (input : PlannerInput) : BindingResolution :=
  resolveRuntimeBindings host input.recipeMap input.expandedRefs input.bindings

theorem snapshots_of_reviewed (emitted : reviewedPlanning presentation host checks input devicePlan
    appDefinitions mode = .ok reviewed) :
    (emitsReviewSnapshots input devicePlan = false ∧ reviewed.resolvedInputs = []) ∨
    List.Forall₂ (fun resolved shown => shown.key = resolved.key ∧ shown.value = resolved.value ∧
      shown.source = resolved.source) (resolvedBindings host input).resolvedInputs
      reviewed.resolvedInputs := by
  simp only [reviewedPlanning, Checks.bind_eq_ok, running_eq_ok, captured_eq_ok] at emitted
  obtain ⟨prepared, prepares, chosen, _, _, _, ordered, _, artifacts, captures, plan, _, built⟩ := emitted
  cases Except.ok.inj built
  have done := preparedBy_of_prepare prepares
  rw [done.recipes, done.expandedRefs] at captures
  change executionReviewSnapshots presentation (emitsReviewSnapshots input devicePlan) _ _ _
    (resolvedBindings host input).resolvedInputs = _ at captures
  unfold executionReviewSnapshots at captures
  dsimp only at captures
  split_ifs at captures with silent
  · cases Except.ok.inj captures
    exact .inl ⟨by simpa using silent, rfl⟩
  · obtain ⟨snapshots, mapped, same⟩ := Checks.bind_eq_ok.mp captures
    cases Except.ok.inj same
    refine .inr ((Checks.mapM_eq_ok.mp mapped).imp fun resolved shown taken => ?_)
    unfold inputSnapshot at taken
    split at taken
    · cases taken
    · cases Except.ok.inj taken
      exact ⟨rfl, rfl, rfl⟩

/-- What an input of a plan owes to the layers: its value is the normalized value of the layer that
wins, it passes the checks of the input, and the review shows this value. -/
def ObeysPrecedence (host : Host) (input : PlannerInput)
    (devicePlan : Option ExecutionDevicePlanSnapshot) (reviewed : ReviewedPlan)
    (entry : ExecutionInputValue) : Prop :=
  ∃ recipeId inputId declaration source value,
    (recipeId, inputId, declaration) ∈ declaredInputs input.recipeMap input.expandedRefs ∧
    entry.id = makeExecutionInputId recipeId inputId ∧
    Wins (inputLayers input.bindings declaration entry.id) source value ∧
    entry.value = bindingToRuntimeValue declaration (normalizeBindingValue host declaration value) ∧
    validateBindingValue host entry.id declaration entry.value.value = [] ∧
    (emitsReviewSnapshots input devicePlan = true →
      ∃ shown ∈ reviewed.resolvedInputs, shown.key = entry.id) ∧
    ∀ shown ∈ reviewed.resolvedInputs, shown.key = entry.id →
      shown.value = some entry.value.value ∧ shown.source = some source

theorem expanded_of_inputId {prepared : Prepared} {selected : Finset String} {chosen : Chosen}
    {ordered : List PlannedStep} {plan : ExecutionPlan}
    (done : Succeeds host checks input appDefinitions mode prepared selected chosen ordered plan)
    {id : String} (listed : id ∈ chosen.inputIds) :
    ∃ recipeId targetId, recipeId ∈ prepared.expandedRecipeRefs ∧
      id = makeExecutionInputId recipeId targetId := by
  rw [done.chooses.inputIds, selectedInputIds, mem_firstOccurrences, List.mem_flatMap] at listed
  obtain ⟨⟨recipeId, recipe⟩, inside, listed⟩ := listed
  simp only [expandedRecipes, List.mem_filterMap, Option.map_eq_some_iff, Prod.mk.injEq] at inside
  obtain ⟨_, expanded, _, _, rfl, rfl⟩ := inside
  rcases List.mem_append.mp listed with referenced | supplied
  · obtain ⟨step, _, found⟩ := List.mem_flatMap.mp referenced
    split_ifs at found with selects
    · obtain ⟨targetId, _, same⟩ := mem_referencedInputIds.mp found
      exact ⟨_, targetId, expanded, same⟩
    · cases found
  · obtain ⟨reference, _, found⟩ := List.mem_filterMap.mp supplied
    split_ifs at found
    obtain ⟨targetId, _, same⟩ := Option.map_eq_some_iff.mp found
    exact ⟨_, targetId, expanded, same.symm⟩

variable {layers : BindingLayers} {declaration : InputDeclaration}

theorem resolveInput_value {recipeId inputId : String} :
    (resolveInput host layers recipeId inputId declaration).value =
      (rawBinding layers (makeExecutionInputId recipeId inputId) declaration).map fun found =>
        normalizeBindingValue host declaration found.1 := rfl

theorem default_isNull {key : String} (unbound : rawBinding layers key declaration = none) :
    declaration.default.isNull = true := by
  simp only [rawBinding, Option.or_eq_none_iff] at unbound
  by_contra filled
  rw [if_neg filled] at unbound
  cases unbound.2.2.2

theorem bindingValue_resolved (reads : ReadsDirectory host) {bindings : OrderedMap String Json}
    {recipeId inputId : String}
    (effective : bindings.get? (makeExecutionInputId recipeId inputId) =
      (resolveInput host layers recipeId inputId declaration).value) :
    bindingValue host declaration (makeExecutionInputId recipeId inputId) bindings =
      (resolveInput host layers recipeId inputId declaration).value := by
  rw [bindingValue, effective, resolveInput_value]
  cases raw : rawBinding layers (makeExecutionInputId recipeId inputId) declaration with
  | none =>
      rw [if_pos (default_isNull raw)]
      rfl
  | some found =>
      exact congrArg some (normalizeBindingValue_again reads declaration found.1)

theorem obeysPrecedence (reads : ReadsDirectory host) (heeds : mode.ignoreBindingDiagnostics = false)
    (emitted : reviewedPlanning presentation host checks input devicePlan appDefinitions mode =
      .ok reviewed) {entry : ExecutionInputValue} (member : entry ∈ reviewed.execution.inputs)
    (qualified : (splitBindingKey entry.id).isSome) :
    ObeysPrecedence host input devicePlan reviewed entry := by
  obtain ⟨prepared, selected, chosen, ordered, done, _⟩ := succeeds_of_reviewed emitted
  obtain ⟨⟨recipeId, inputId⟩, split⟩ := Option.isSome_iff_exists.mp qualified
  obtain ⟨id, value⟩ := entry
  change splitBindingKey id = _ at split
  obtain ⟨listed, made⟩ := done.mem_plan_inputs.mp member
  obtain ⟨otherRecipe, otherInput, expanded, same⟩ := expanded_of_inputId done listed
  obtain ⟨rfl, rfl⟩ := input_of_key split same
  simp only [emitExecutionInput, Option.bind_eq_some_iff, Option.map_eq_some_iff,
    Prod.exists] at made
  obtain ⟨foundRecipe, foundInput, parts, recipe, held, declaration, declares, bound, binds,
    rebuilt⟩ := made
  obtain ⟨qualifies, clean, _⟩ := splitBindingKey_eq_some split
  obtain ⟨rfl, rfl⟩ := Prod.mk.inj (Option.some.inj
    (parts.symm.trans (splitQualifiedId_eq_some.mpr ⟨qualifies, clean⟩)))
  obtain ⟨_, rfl⟩ := ExecutionInputValue.mk.inj rebuilt
  have declared : (foundRecipe, foundInput, declaration) ∈
      declaredInputs input.recipeMap input.expandedRefs := by
    rw [PlannerInput.recipeMap, ← done.prepares.recipes, ← done.prepares.expandedRefs]
    exact mem_declaredInputs.mpr ⟨expanded, recipe, held, declares⟩
  have effective := @get?_effectiveInputBindings host _ _ input.bindings _ _ _ _ split declared
  change (input.effectiveBindings host).get? id = _ at effective
  rw [← done.prepares.effectiveBindings] at effective
  subst same
  rw [bindingValue_resolved reads effective, resolveInput_value] at binds
  obtain ⟨⟨value, source⟩, raw, rfl⟩ := Option.map_eq_some_iff.mp binds
  have resolves : (resolveInput host input.bindings foundRecipe foundInput declaration).value =
      some (normalizeBindingValue host declaration value) := by
    rw [resolveInput_value, raw, Option.map_some]
  have sourced : (resolveInput host input.bindings foundRecipe foundInput declaration).source =
      some source := congrArg (Option.map Prod.snd) raw
  refine ⟨foundRecipe, foundInput, declaration, source, value, declared, rfl,
    rawBinding_eq_some.mp raw, rfl, ?_, fun emits => ?_, fun shown memberShown sameKey => ?_⟩
  · have silent := done.prepares.bound heeds
    rw [done.prepares.recipes, done.prepares.expandedRefs] at silent
    simp only [resolveRuntimeBindings, List.append_eq_nil_iff, List.flatMap_eq_nil_iff,
      List.mem_map] at silent
    have checked := silent.2 _ ⟨_, declared, rfl⟩
    simp only [resolvedInputErrors, resolves] at checked
    exact checked
  · rcases snapshots_of_reviewed emitted with ⟨silent, _⟩ | shows
    · rw [silent] at emits
      cases emits
    · obtain ⟨shown, member, sameKey, _⟩ := Checks.mem_right_of_forall₂ shows (resolveInput_mem declared)
      exact ⟨shown, member, sameKey⟩
  · rcases snapshots_of_reviewed emitted with ⟨_, empty⟩ | shows
    · rw [empty] at memberShown
      cases memberShown
    · obtain ⟨resolved, member, equalKey, equalValue, equalSource⟩ :=
        Checks.mem_left_of_forall₂ shows memberShown
      obtain rfl := resolved_of_key split declared member (equalKey.symm.trans sameKey)
      exact ⟨equalValue.trans resolves, equalSource.trans sourced⟩

end

section

variable {presentation : String → String → InputPresentation} {host : Host}
  {checks : AuthorityChecks}

/-- Two sets of layers with the same keys that differ only in values below a layer with the key. -/
structure SameWinners (first second : BindingLayers) : Prop where
  explicit : first.explicit = second.explicit
  userKeys : first.userConfiguration.keys = second.userConfiguration.keys
  planKeys : first.devicePlan.keys = second.devicePlan.keys
  user : ∀ key, key ∉ first.explicit.keys →
    first.userConfiguration.get? key = second.userConfiguration.get? key
  plan : ∀ key, key ∉ first.explicit.keys → key ∉ first.userConfiguration.keys →
    first.devicePlan.get? key = second.devicePlan.get? key

variable {first second : BindingLayers}

theorem SameWinners.rawBinding (same : SameWinners first second) (key : String)
    (declaration : InputDeclaration) :
    rawBinding first key declaration = rawBinding second key declaration := by
  unfold Planner.rawBinding
  rw [← same.explicit]
  cases bound : first.explicit.get? key with
  | some value => rfl
  | none =>
      have free := OrderedMap.get?_eq_none.mp bound
      rw [← same.user key free]
      cases saved : first.userConfiguration.get? key with
      | some value => rfl
      | none => rw [same.plan key free (OrderedMap.get?_eq_none.mp saved)]

theorem SameWinners.resolveRuntimeBindings (same : SameWinners first second)
    (recipes : OrderedMap String Authored.Recipe) (expandedRecipeRefs : List String) :
    resolveRuntimeBindings host recipes expandedRecipeRefs first =
      resolveRuntimeBindings host recipes expandedRecipeRefs second := by
  have inputs (recipeId inputId : String) (declaration : InputDeclaration) :
      resolveInput host first recipeId inputId declaration =
        resolveInput host second recipeId inputId declaration := by
    simp only [resolveInput, same.rawBinding]
  have keys : [first.explicit, first.userConfiguration, first.devicePlan].flatMap
        (layerErrors recipes expandedRecipeRefs) =
      [second.explicit, second.userConfiguration, second.devicePlan].flatMap
        (layerErrors recipes expandedRecipeRefs) := by
    simp only [List.flatMap_cons, layerErrors, same.explicit, same.userKeys, same.planKeys]
  simp only [Planner.resolveRuntimeBindings, keys, inputs]

theorem SameWinners.prepare {input : PlannerInput} {layers : BindingLayers}
    (same : SameWinners input.bindings layers) (appDefinitions : List AppDefinition)
    (mode : PlanningMode) : prepare host checks input appDefinitions mode =
      prepare host checks { input with bindings := layers } appDefinitions mode := by
  simp only [Planner.prepare, same.resolveRuntimeBindings]
  rfl

end

section

variable (presentation : String → String → InputPresentation) (host : Host)
  (checks : AuthorityChecks)

/-- The inputs of an emitted plan obey the precedence of the layers, and no value below the layer
that wins changes what a planning leads to. -/
theorem precedence_holds (input : PlannerInput) (devicePlan : Option ExecutionDevicePlanSnapshot)
    (appDefinitions : List AppDefinition) (mode : PlanningMode) :
    (ReadsDirectory host → mode.ignoreBindingDiagnostics = false → ∀ reviewed,
      reviewedPlanning presentation host checks input devicePlan appDefinitions mode = .ok reviewed →
      ∀ entry ∈ reviewed.execution.inputs, (splitBindingKey entry.id).isSome →
        ObeysPrecedence host input devicePlan reviewed entry) ∧
    ∀ layers, SameWinners input.bindings layers →
      planExecutionWithAppDefinitionsInner host checks { input with bindings := layers }
          appDefinitions mode =
        planExecutionWithAppDefinitionsInner host checks input appDefinitions mode ∧
      reviewedPlanning presentation host checks { input with bindings := layers } devicePlan
          appDefinitions mode =
        reviewedPlanning presentation host checks input devicePlan appDefinitions mode := by
  constructor
  · intro reads heeds reviewed emitted entry member qualified
    exact obeysPrecedence reads heeds emitted member qualified
  · intro layers same
    constructor
    · simp only [planExecutionWithAppDefinitionsInner, planning, same.prepare]
      rfl
    · simp only [reviewedPlanning, same.prepare, same.resolveRuntimeBindings]
      rfl

def shadowedTarget (saved : Json) : PlannerInput :=
  { plainInput (plainRecipe "games"
      [("folder", ⟨"directory", true, false, .null, ⟨false, [], none, []⟩, []⟩),
        ("target", ⟨"device_path", false, false, .null, ⟨false, [], none, []⟩, []⟩)] []
      [plainStep "copy" "copy_files" []
        [("source", .ref "inputs.folder"), ("dest", .ref "inputs.target")]]) [] with
    bindings := ⟨.ofList [("games/folder", .string "roms"), ("games/target", .string "/sdcard/roms")],
      .ofList [("games/target", saved)], .empty⟩ }

def shadowedPlanning (saved : Json) : Except PlanningStop ReviewedPlan :=
  reviewedPlanning noPresentation bareHost lenientChecks (shadowedTarget saved)
    (some ⟨"plan", none, none⟩) [] ⟨false, false, false⟩

theorem precedence_holds_sample : ∃ reviewed,
    reviewedPlan (shadowedPlanning (.integer 5)) = some reviewed ∧
    (∃ entry ∈ reviewed.execution.inputs, ObeysPrecedence bareHost (shadowedTarget (.integer 5))
      (some ⟨"plan", none, none⟩) reviewed entry) ∧
    planExecutionWithAppDefinitionsInner bareHost lenientChecks (shadowedTarget .null) []
        ⟨false, false, false⟩ =
      planExecutionWithAppDefinitionsInner bareHost lenientChecks (shadowedTarget (.integer 5)) []
        ⟨false, false, false⟩ := by
  obtain ⟨obeys, shadows⟩ := precedence_holds noPresentation bareHost lenientChecks
    (shadowedTarget (.integer 5)) (some ⟨"plan", none, none⟩) [] ⟨false, false, false⟩
  obtain ⟨reviewed, planned, holds⟩ := @exists_reviewedPlan (shadowedPlanning (.integer 5))
    (fun reviewed => reviewed.execution.inputs.any fun entry => (splitBindingKey entry.id).isSome)
    (by decide +kernel)
  obtain ⟨entry, member, qualified⟩ := List.any_eq_true.mp holds
  refine ⟨reviewed, planned, ⟨entry, member, ?_⟩, ?_⟩
  · exact obeys ⟨"/", rfl, by decide⟩ rfl reviewed (reviewedPlan_eq_some.mp planned) entry member qualified
  · refine (shadows (shadowedTarget .null).bindings ⟨rfl, by decide, rfl, fun key free => ?_,
      fun _ _ _ => rfl⟩).1
    have other : key ≠ "games/target" := by
      rintro rfl
      exact free (by decide)
    simp [shadowedTarget, OrderedMap.ofList, other]

def collidingKeys : PlannerInput :=
  ⟨[plainRecipe "a" [("b/c", ⟨"file", false, false, .string "/x", ⟨false, [], none, []⟩, []⟩)] [] [],
      plainRecipe "a/b"
        [("c", ⟨"device_path", false, false, .string "saves", ⟨false, [], none, []⟩, []⟩),
          ("from", ⟨"directory", false, false, .string "/games", ⟨false, [], none, []⟩, []⟩)] []
        [plainStep "copy" "copy_files" []
          [("source", .ref "inputs.from"), ("dest", .ref "inputs.c")]]],
    ["a", "a/b"], ⟨.empty, .empty, .empty⟩, "plan", none, fullCapabilities, none, none⟩

def strayHost : Host := ⟨fun _ => none, fun _ => none, some "~/x", none, id⟩

def homeFolder : PlannerInput :=
  { shadowedTarget .null with
    bindings := ⟨.ofList [("games/folder", .string "~"), ("games/target", .string "/sdcard/roms")],
      .empty, .empty⟩ }

def isSupplied (host : Host) (input : PlannerInput) (entry : ExecutionInputValue) : Bool :=
  (declaredInputs input.recipeMap input.expandedRefs).any fun declared =>
    (rawBinding input.bindings entry.id declared.2.2).any fun found =>
      let made := bindingToRuntimeValue declared.2.2 (normalizeBindingValue host declared.2.2 found.1)
      made.typeName = entry.value.typeName && made.value.asStr = entry.value.value.asStr

theorem exists_disobeying {host : Host} {input : PlannerInput}
    (planned : (reviewedPlan (reviewedPlanning noPresentation host lenientChecks input none []
      ⟨false, false, false⟩)).any (fun reviewed => reviewed.execution.inputs.any fun entry =>
        !isSupplied host input entry) = true) :
    ∃ reviewed, reviewedPlan (reviewedPlanning noPresentation host lenientChecks input none []
        ⟨false, false, false⟩) = some reviewed ∧
      ∃ entry ∈ reviewed.execution.inputs, ¬ ObeysPrecedence host input none reviewed entry := by
  obtain ⟨reviewed, emitted, holds⟩ := exists_reviewedPlan planned
  obtain ⟨entry, member, unsupplied⟩ := List.any_eq_true.mp holds
  refine ⟨reviewed, emitted, entry, member, ?_⟩
  rintro ⟨recipeId, inputId, declaration, source, value, declared, _, wins, same, _⟩
  have supplied : isSupplied host input entry = true := by
    refine List.any_eq_true.mpr ⟨_, declared, ?_⟩
    rw [rawBinding_eq_some.mpr wins, Option.any_some, same]
    simp
  rw [supplied] at unsupplied
  cases unsupplied

/-- Two inputs with one key, and a value that the second normalization changes. -/
theorem not_obeysPrecedence :
    (∃ reviewed, reviewedPlan (reviewedPlanning noPresentation bareHost lenientChecks collidingKeys
        none [] ⟨false, false, false⟩) = some reviewed ∧
      ∃ entry ∈ reviewed.execution.inputs,
        ¬ ObeysPrecedence bareHost collidingKeys none reviewed entry) ∧
    ∃ reviewed, reviewedPlan (reviewedPlanning noPresentation strayHost lenientChecks homeFolder
        none [] ⟨false, false, false⟩) = some reviewed ∧
      ∃ entry ∈ reviewed.execution.inputs,
        ¬ ObeysPrecedence strayHost homeFolder none reviewed entry :=
  ⟨exists_disobeying (by decide +kernel), exists_disobeying (by decide +kernel)⟩

end

end EmuChef.Review
