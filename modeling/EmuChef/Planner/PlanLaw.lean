import EmuChef.Planner.Planning

/-! What a planning that succeeds has gone through, and the steps that its plan emits. -/

namespace EmuChef.Planner

open Authored (AppDefinition)

section

variable {α : Type}

theorem refuse_eq_ok {errors warnings : List PlannerMessage} {done : Unit} :
    refuse errors warnings = .ok done ↔ errors = [] := by
  unfold refuse
  split
  next silent => simp [silent]
  next reported => simp [reported]

theorem answered_eq_ok {result : Except (List PlannerMessage) α} {value : α} :
    answered result = .ok value ↔ result = .ok value := by
  cases result with
  | ok found => simp [answered]
  | error errors => simp [answered]

theorem running_eq_ok {result : Except PlannerPanic α} {value : α} :
    running result = .ok value ↔ result = .ok value := by
  cases result with
  | ok found => simp [running]
  | error panic => simp [running]

end

variable {host : Host} {checks : AuthorityChecks} {input : PlannerInput}
  {appDefinitions : List AppDefinition} {mode : PlanningMode} {prepared : Prepared} {chosen : Chosen}
  {ordered : List PlannedStep} {plan : ExecutionPlan} {warnings : List PlannerMessage}

structure PreparedBy (host : Host) (checks : AuthorityChecks) (input : PlannerInput)
    (appDefinitions : List AppDefinition) (mode : PlanningMode) (prepared : Prepared) : Prop where
  indexed : indexAppDefinitions appDefinitions = .ok prepared.apps
  recipes : prepared.recipes = recipeTable input.recipes
  expanded : expandRecipeDependencies prepared.recipes input.selectedRecipeRefs =
    (prepared.expandedRecipeRefs, [])
  bound : mode.ignoreBindingDiagnostics = false →
    (resolveRuntimeBindings host prepared.recipes prepared.expandedRecipeRefs
      input.bindings).diagnostics = []
  bindings : prepared.inputBindings = effectiveInputBindings
    (resolveRuntimeBindings host prepared.recipes prepared.expandedRecipeRefs
      input.bindings).resolvedInputs
  usage : ∃ usage, resolveUsage checks.validateAppDefinition prepared.recipes
      prepared.expandedRecipeRefs prepared.apps (some prepared.inputBindings) = .ok usage ∧
    prepared.targetUsage = addDerivedStepCapabilities prepared.permissionPlans usage

theorem preparedBy_of_prepare (done : prepare host checks input appDefinitions mode = .ok prepared) :
    PreparedBy host checks input appDefinitions mode prepared := by
  simp only [prepare, Checks.bind_eq_ok, answered_eq_ok, refuse_eq_ok] at done
  obtain ⟨apps, indexed, _, expands, _, silent, usage, used, _, _, plans, _, built⟩ := done
  cases Except.ok.inj built
  refine ⟨indexed, rfl, Prod.ext rfl expands, ?_, rfl, usage, used, rfl⟩
  intro heeded
  simpa [heeded] using silent

structure ChosenBy (input : PlannerInput) (mode : PlanningMode) (prepared : Prepared)
    (selected : Finset String) (chosen : Chosen) : Prop where
  selects : selectedStepIds (prepared.recipes.mapValues fun _ recipe => plannerRecipe recipe)
    prepared.expandedRecipeRefs prepared.inputBindings input.runtimeCapabilities
    prepared.targetUsage mode.assumeUnrecognizedCapabilitiesAvailable
    mode.reportUnrecognizedCapabilityWarnings = .ok (selected, [], chosen.warnings)
  artifactIds : chosen.artifactIds =
    selectedArtifactIds prepared.recipes prepared.expandedRecipeRefs selected
  inputIds : chosen.inputIds = selectedInputIds prepared.recipes prepared.expandedRecipeRefs selected
    chosen.artifactIds
  steps : chosen.steps = authoredSteps prepared.recipes prepared.expandedRecipeRefs selected

theorem chosenBy_of_choose (done : choose input mode prepared = .ok chosen) :
    ∃ selected, ChosenBy input mode prepared selected chosen := by
  simp only [choose, Checks.bind_eq_ok, running_eq_ok, refuse_eq_ok] at done
  obtain ⟨⟨selected, errors, warnings⟩, selects, _, rfl, built⟩ := done
  cases Except.ok.inj built
  exact ⟨selected, selects, rfl, rfl, rfl⟩

structure Validated (host : Host) (checks : AuthorityChecks) (mode : PlanningMode)
    (prepared : Prepared) (chosen : Chosen) : Prop where
  authority : validateAppAuthority checks prepared.apps prepared.recipes prepared.expandedRecipeRefs
    chosen.steps = []
  userInputs : validateSelectedUserProvidedInputs prepared.apps host prepared.recipes
    prepared.inputBindings mode.ignoreBindingDiagnostics chosen.artifactIds = []
  params : validateStepParamContracts prepared.recipes chosen.steps = []
  dependencies : validateEmittedStepDependencies chosen.steps = []
  selections : validateArtifactSelections prepared.recipes chosen.steps = []
  refs : validateStepRefs chosen.steps = []

theorem validateChosen_eq_ok {done : Unit} :
    validateChosen host checks mode prepared chosen = .ok done ↔
      Validated host checks mode prepared chosen := by
  simp only [validateChosen, Checks.bind_eq_ok, refuse_eq_ok]
  constructor
  · rintro ⟨_, authority, _, userInputs, _, params, _, dependencies, _, selections, refs⟩
    exact ⟨authority, userInputs, params, dependencies, selections, refs⟩
  · rintro ⟨authority, userInputs, params, dependencies, selections, refs⟩
    exact ⟨(), authority, (), userInputs, (), params, (), dependencies, (), selections, refs⟩

structure Succeeds (host : Host) (checks : AuthorityChecks) (input : PlannerInput)
    (appDefinitions : List AppDefinition) (mode : PlanningMode) (prepared : Prepared)
    (selected : Finset String) (chosen : Chosen) (ordered : List PlannedStep)
    (plan : ExecutionPlan) : Prop where
  prepares : PreparedBy host checks input appDefinitions mode prepared
  chooses : ChosenBy input mode prepared selected chosen
  validated : Validated host checks mode prepared chosen
  sorts : topologicallySortSteps chosen.steps = .ok (ordered, [])
  emits : emitPlan host checks input prepared chosen ordered = .ok plan

theorem orderSteps_eq_ok (done : orderSteps input chosen = .ok ordered) :
    topologicallySortSteps chosen.steps = .ok (ordered, []) := by
  simp only [orderSteps, Checks.bind_eq_ok, running_eq_ok, refuse_eq_ok] at done
  obtain ⟨⟨steps, errors⟩, sorts, _, rfl, _, _, built⟩ := done
  cases Except.ok.inj built
  exact sorts

theorem succeeds_of_success
    (success : planExecutionWithAppDefinitionsInner host checks input appDefinitions mode =
      .ok (.success plan warnings)) : ∃ prepared selected chosen ordered,
        Succeeds host checks input appDefinitions mode prepared selected chosen ordered plan := by
  simp only [planExecutionWithAppDefinitionsInner] at success
  split at success
  next found emitted done =>
    cases Except.ok.inj success
    simp only [planning, Checks.bind_eq_ok, running_eq_ok] at done
    obtain ⟨prepared, prepares, chosen, chooses, _, validated, ordered, sorts, _, emits, built⟩ := done
    cases Except.ok.inj built
    obtain ⟨selected, chooses⟩ := chosenBy_of_choose chooses
    exact ⟨prepared, selected, chosen, ordered, preparedBy_of_prepare prepares, chooses,
      validateChosen_eq_ok.mp validated, orderSteps_eq_ok sorts, emits⟩
  next => exact nomatch Except.ok.inj success
  next => exact nomatch success

section

variable {recipes : OrderedMap String Authored.Recipe} {expandedRecipeRefs : List String}
  {selected : Finset String}

theorem recipeTable_id {recipes : List Authored.Recipe} {recipeId : String}
    {recipe : Authored.Recipe} (found : (recipeTable recipes).get? recipeId = some recipe) :
    recipe.id = recipeId := by
  obtain ⟨other, _, same⟩ := List.mem_map.mp (OrderedMap.mem_of_get?_ofList found)
  obtain ⟨rfl, rfl⟩ := Prod.mk.inj same
  rfl

theorem mem_expandedSteps {recipeId : String} {recipe : Authored.Recipe} {step : Authored.Step} :
    (recipeId, recipe, step) ∈ expandedSteps recipes expandedRecipeRefs ↔
      recipeId ∈ expandedRecipeRefs ∧ recipes.get? recipeId = some recipe ∧ step ∈ recipe.steps := by
  simp only [expandedSteps, List.mem_flatMap, Option.mem_toList, List.mem_map, Prod.mk.injEq]
  constructor
  · rintro ⟨_, listed, _, found, _, authored, rfl, rfl, rfl⟩
    exact ⟨listed, found, authored⟩
  · rintro ⟨listed, found, authored⟩
    exact ⟨recipeId, listed, recipe, found, step, authored, rfl, rfl, rfl⟩

/-- A step of the plan in the making is an authored step of an expanded Recipe that was selected. -/
structure AuthoredIn (recipes : OrderedMap String Authored.Recipe) (expandedRecipeRefs : List String)
    (selected : Finset String) (recipe : Authored.Recipe) (planned : PlannedStep) : Prop where
  listed : planned.recipeId ∈ expandedRecipeRefs
  found : recipes.get? planned.recipeId = some recipe
  authored : planned.step ∈ recipe.steps
  qualified : planned.id = makeExecutionStepId planned.recipeId planned.step.id
  selects : planned.id ∈ selected

theorem mem_authoredSteps {planned : PlannedStep} :
    planned ∈ authoredSteps recipes expandedRecipeRefs selected ↔
      ∃ recipe, AuthoredIn recipes expandedRecipeRefs selected recipe planned := by
  simp only [authoredSteps, List.mem_filterMap]
  constructor
  · rintro ⟨⟨recipeId, recipe, step⟩, member, kept⟩
    obtain ⟨listed, found, authored⟩ := mem_expandedSteps.mp member
    split at kept
    next selects =>
      cases Option.some.inj kept
      exact ⟨recipe, listed, found, authored, rfl, selects⟩
    next => exact nomatch kept
  · rintro ⟨recipe, listed, found, authored, qualified, selects⟩
    refine ⟨(planned.recipeId, recipe, planned.step),
      mem_expandedSteps.mpr ⟨listed, found, authored⟩, ?_⟩
    simp only [← qualified, selects, ↓reduceIte]

end

section

variable {steps : List PlannedStep}

theorem topologicallySortSteps_eq_ok
    (sorts : topologicallySortSteps steps = .ok (ordered, [])) :
    ∃ order, Kahn.order (steps.map fun planned => (planned.id, plannedDependencies planned)) =
        .ok order ∧
      order.length = steps.length ∧ ordered.map PlannedStep.id = order ∧ ordered.Perm steps := by
  rw [topologicallySortSteps] at sorts
  split at sorts
  next => exact nomatch sorts
  next order found =>
    dsimp only at sorts
    split at sorts
    next => simp at sorts
    next long =>
      obtain ⟨built, _⟩ := Prod.mk.inj (Except.ok.inj sorts)
      have whole : ordered.length = steps.length := by
        rw [← built]
        exact Decidable.not_not.mp long
      have shorter : ordered.length ≤ order.length := built ▸ List.length_filterMap_le _ _
      have table : (steps.map fun planned => (planned.id, plannedDependencies planned)).map
          Prod.fst = steps.map PlannedStep.id := by simp [Function.comp_def]
      have distinctOrder := Kahn.nodup_of_order found
      have inside := Kahn.subset_of_order found
      rw [table] at inside
      have bounded : order.length ≤ steps.length := by
        simpa using (List.subperm_of_subset distinctOrder inside).length_le
      have long : order.length = steps.length := by omega
      have perm := Kahn.perm_of_order found (by simpa using long)
      rw [table] at perm
      have distinct : ((steps.map fun planned => (planned.id, planned)).map Prod.fst).Nodup := by
        simpa [Function.comp_def] using perm.nodup_iff.mp distinctOrder
      have lookup : ∀ planned ∈ steps,
          (OrderedMap.ofList (steps.map fun planned => (planned.id, planned))).get? planned.id =
            some planned := by
        intro planned member
        exact (OrderedMap.get?_ofList distinct).mpr (List.mem_map.mpr ⟨planned, member, rfl⟩)
      refine ⟨order, found, long, ?_, ?_⟩
      · rw [← built, List.map_filterMap]
        conv_rhs => rw [← List.filterMap_some (l := order)]
        refine List.filterMap_congr fun id member => ?_
        obtain ⟨planned, listed, rfl⟩ := List.mem_map.mp (inside member)
        simp [lookup planned listed]
      · rw [← built]
        have all : (steps.map PlannedStep.id).filterMap
            (OrderedMap.ofList (steps.map fun planned => (planned.id, planned))).get? = steps := by
          rw [List.filterMap_map]
          conv_rhs => rw [← List.filterMap_some (l := steps)]
          exact List.filterMap_congr fun planned member => by simp [lookup planned member]
        calc order.filterMap _
            |>.Perm ((steps.map PlannedStep.id).filterMap _) := perm.filterMap _
          _ = steps := all

end

section

variable {apps : OrderedMap String AppDefinition} {recipe : Authored.Recipe} {step : Authored.Step}
  {usage : ResolvedStepUsage} {params : OrderedMap String ExecutionParamValue}

/-- The parameters of a step that execution keeps, before their values are normalized. Artifact
selections and lifecycles are written anew. -/
def keptParams (step : Authored.Step) : List (String × ParamValue) :=
  if isAppPermissionStep step ∨ (lifecycleApp step).isSome ∨ isArtifactStep step.typeName then []
  else ((stepSpecFor step.typeName).map (knownParams step)).getD []

theorem specParams_nodup {typeName : String} {spec : StepSpec}
    (found : stepSpecFor typeName = some spec) :
    (spec.params.map Prod.fst).Nodup ∧ "dest_kind" ∉ spec.params.map Prod.fst := by
  have all : ∀ spec ∈ stepSpecs,
      (spec.params.map Prod.fst).Nodup ∧ "dest_kind" ∉ spec.params.map Prod.fst := by decide
  exact all spec (List.mem_of_find?_eq_some found)

theorem mem_knownParams {spec : StepSpec} {name : String} {value : ParamValue} :
    (name, value) ∈ knownParams step spec ↔
      name ∈ spec.params.map Prod.fst ∧ (paramsWithDefaults step).get? name = some value := by
  simp only [knownParams, List.mem_filterMap, Option.map_eq_some_iff, Prod.mk.injEq, List.mem_map]
  constructor
  · rintro ⟨entry, listed, _, held, rfl, rfl⟩
    exact ⟨⟨entry, listed, rfl⟩, held⟩
  · rintro ⟨⟨entry, listed, rfl⟩, held⟩
    exact ⟨entry, listed, value, held, rfl, rfl⟩

theorem keys_knownParams (spec : StepSpec) :
    ((knownParams step spec).map Prod.fst).Sublist (spec.params.map Prod.fst) := by
  rw [knownParams, List.map_filterMap]
  have shape : (fun entry : String × StepParam =>
      (((paramsWithDefaults step).get? entry.1).map (entry.1, ·)).map Prod.fst) =
      fun entry => ((paramsWithDefaults step).get? entry.1).map fun _ => entry.1 := by
    funext entry
    cases (paramsWithDefaults step).get? entry.1 <;> rfl
  rw [shape]
  induction spec.params with
  | nil => exact .slnil
  | cons entry rest ih =>
      rw [List.filterMap_cons, List.map_cons]
      cases (paramsWithDefaults step).get? entry.1 with
      | none => exact ih.cons _
      | some value => exact ih.cons_cons _

theorem normalizeEntry_eq_ok {entry : String × ParamValue} {result : String × ExecutionParamValue} :
    normalizeEntry recipe step usage.dest entry = .ok result ↔
      result.1 = entry.1 ∧ normalizeParam recipe step usage.dest entry.2 = .ok result.2 := by
  rw [normalizeEntry, Checks.bind_eq_ok]
  constructor
  · rintro ⟨value, held, same⟩
    cases Except.ok.inj same
    exact ⟨rfl, held⟩
  · rintro ⟨same, held⟩
    exact ⟨result.2, held, by rw [← same]; rfl⟩

theorem keys_normalizeEntry {items : List (String × ParamValue)}
    {entries : List (String × ExecutionParamValue)}
    (related : List.Forall₂ (fun entry result => normalizeEntry recipe step usage.dest entry =
      .ok result) items entries) : entries.map Prod.fst = items.map Prod.fst := by
  induction related with
  | nil => rfl
  | cons first _ ih =>
      rw [List.map_cons, List.map_cons, ih, (normalizeEntry_eq_ok.mp first).1]

theorem get?_normalizeSpecParams {spec : StepSpec} (found : stepSpecFor step.typeName = some spec)
    (normalized : normalizeSpecParams recipe step spec usage = .ok params) {name : String}
    {value : ExecutionParamValue} : params.get? name = some value ↔
      (∃ authored, (name, authored) ∈ knownParams step spec ∧
        normalizeParam recipe step usage.dest authored = .ok value) ∨
      (name, value) ∈ destKindParams usage.destKind := by
  obtain ⟨entries, mapped, built⟩ := Checks.bind_eq_ok.mp normalized
  cases Except.ok.inj built
  have related := Checks.mapM_eq_ok.mp mapped
  have keys := keys_normalizeEntry related
  obtain ⟨distinct, apart⟩ := specParams_nodup found
  have distinctEntries : ((entries ++ destKindParams usage.destKind).map Prod.fst).Nodup := by
    rw [List.map_append, keys]
    refine List.Nodup.append (distinct.sublist (keys_knownParams spec)) ?_ ?_
    · cases usage.destKind <;> simp [destKindParams]
    · intro name inside other
      refine apart ?_
      cases kind : usage.destKind with
      | none => simp [destKindParams, kind] at other
      | some held =>
          obtain rfl : name = "dest_kind" := by simpa [destKindParams, kind] using other
          exact (keys_knownParams spec).subset inside
  rw [OrderedMap.get?_ofList distinctEntries, List.mem_append]
  refine or_congr_left ?_
  constructor
  · intro member
    obtain ⟨⟨known, authored⟩, listed, held⟩ := Checks.mem_left_of_forall₂ related member
    obtain ⟨rfl, normal⟩ := normalizeEntry_eq_ok.mp held
    exact ⟨authored, listed, normal⟩
  · rintro ⟨authored, listed, normal⟩
    obtain ⟨⟨known, result⟩, member, held⟩ := Checks.mem_right_of_forall₂ related listed
    obtain ⟨rfl, same⟩ := normalizeEntry_eq_ok.mp held
    obtain rfl : value = result := Except.ok.inj (normal.symm.trans same)
    exact member

theorem destKindParams_ref {kind : Option AppTargetKind} {name reference : String} :
    (name, ExecutionParamValue.ref reference) ∉ destKindParams kind := by
  cases kind <;> simp [destKindParams, textParam]

theorem ref_mem_params (normalized : normalizeStepParamsForExecution apps recipe step usage =
    .ok params) {name reference : String} :
    params.get? name = some (.ref reference) ↔
      ∃ authored, (name, .ref authored) ∈ keptParams step ∧
        reference = normalizeRefForExecution recipe authored := by
  unfold normalizeStepParamsForExecution at normalized
  unfold keptParams
  by_cases permission : isAppPermissionStep step = true
  · rw [if_pos permission] at normalized
    cases Except.ok.inj normalized
    simp [permission]
  · rw [if_neg permission] at normalized
    cases lifecycle : lifecycleApp step with
    | some appRef =>
        simp only [lifecycle] at normalized
        have noRef : params.get? name ≠ some (.ref reference) := by
          intro held
          rw [lifecycleParams] at normalized
          split at normalized
          next => exact nomatch normalized
          next =>
            split at normalized
            next =>
              split at normalized
              next => exact nomatch normalized
              next =>
                cases Except.ok.inj normalized
                simpa [textParam] using OrderedMap.mem_of_get?_ofList held
            next =>
              cases Except.ok.inj normalized
              simpa [textParam] using OrderedMap.mem_of_get?_ofList held
        simp [noRef]
    | none =>
        simp only [lifecycle] at normalized
        by_cases artifacts : isArtifactStep step.typeName = true
        · rw [if_pos artifacts] at normalized
          cases Except.ok.inj normalized
          have noRef : (normalizeArtifactSelection recipe (paramsWithDefaults step)).get? name ≠
              some (.ref reference) := by
            intro held
            have listed := OrderedMap.mem_of_get?_ofList held
            split at listed <;> simp at listed
          simp [artifacts, noRef]
        · rw [if_neg artifacts] at normalized
          cases found : stepSpecFor step.typeName with
          | none =>
              simp only [found] at normalized
              cases Except.ok.inj normalized
              simp
          | some spec =>
              simp only [found] at normalized
              rw [get?_normalizeSpecParams found normalized]
              simp only [destKindParams_ref, or_false, permission, Option.isSome_none,
                artifacts, Bool.false_eq_true, or_self, ↓reduceIte, Option.map_some,
                Option.getD_some]
              constructor
              · rintro ⟨authored, listed, held⟩
                cases authored with
                | ref authored =>
                    obtain rfl : normalizeRefForExecution recipe authored = reference := by
                      simpa [normalizeParam] using held
                    exact ⟨authored, listed, rfl⟩
                | literal value => simp [normalizeParam] at held
                | appTarget targetId =>
                    simp only [normalizeParam] at held
                    split at held <;> simp [textParam] at held
              · rintro ⟨authored, listed, rfl⟩
                exact ⟨.ref authored, listed, rfl⟩

end

section

variable {selected : Finset String}

structure EmittedFrom (host : Host) (input : PlannerInput) (prepared : Prepared)
    (selected : Finset String) (recipe : Authored.Recipe) (planned : PlannedStep)
    (usage : ResolvedStepUsage) (step : ExecutionStep) : Prop where
  authored : AuthoredIn prepared.recipes prepared.expandedRecipeRefs selected recipe planned
  named : recipe.id = planned.recipeId
  used : prepared.targetUsage.get? planned.id = some usage
  params : normalizeStepParamsForExecution prepared.apps recipe planned.step usage = .ok step.params
  id : step.id = planned.id
  recipeRef : step.recipeRef = planned.recipeId
  typeName : step.typeName = planned.step.typeName
  dependencies : step.dependencies =
    planned.step.dependencies.map (makeExecutionStepId planned.recipeId)
  capabilities : step.constraints.capabilities = usage.capabilities

variable {planned : PlannedStep}

theorem emittedFrom_of_emitStep {recipe : Authored.Recipe} {step : ExecutionStep}
    (authored : AuthoredIn prepared.recipes prepared.expandedRecipeRefs selected recipe planned)
    (named : recipe.id = planned.recipeId)
    (emits : emitStep host prepared.apps input.emitsProductContract prepared.targetUsage
      prepared.permissionPlans recipe planned = .ok step) :
    ∃ usage, EmittedFrom host input prepared selected recipe planned usage step := by
  simp only [emitStep, Checks.bind_eq_ok] at emits
  obtain ⟨usage, looked, params, normalized, _, _, _, _, built⟩ := emits
  cases Except.ok.inj built
  refine ⟨usage, authored, named, ?_, normalized, rfl, rfl, rfl, by rw [named], rfl⟩
  rw [authored.qualified, ← named]
  simp only [stepUsage] at looked
  split at looked
  next known => rw [known, Except.ok.inj looked]
  next => exact nomatch looked

theorem related_of_emitSteps {steps : List ExecutionStep}
    (known : ∀ planned ∈ ordered, ∃ recipe,
      AuthoredIn prepared.recipes prepared.expandedRecipeRefs selected recipe planned)
    (named : ∀ recipeId recipe, prepared.recipes.get? recipeId = some recipe → recipe.id = recipeId)
    (emitted : emitSteps host prepared.recipes prepared.apps input.emitsProductContract
      prepared.targetUsage prepared.permissionPlans ordered = .ok steps) :
    List.Forall₂ (fun planned step => ∃ recipe usage,
      EmittedFrom host input prepared selected recipe planned usage step) ordered steps := by
  have related := Checks.mapM_eq_ok.mp emitted
  clear emitted
  induction ordered generalizing steps with
  | nil =>
      cases related
      exact .nil
  | cons planned rest ih =>
      obtain ⟨recipe, authored⟩ := known planned (by simp)
      rw [List.filterMap_cons, authored.found] at related
      cases related with
      | cons first others =>
          refine .cons ⟨recipe, emittedFrom_of_emitStep authored (named _ _ authored.found) first⟩ ?_
          exact ih (fun other member => known other (by simp [member])) others

variable (done : Succeeds host checks input appDefinitions mode prepared selected chosen ordered plan)

include done

theorem Succeeds.perm : ordered.Perm chosen.steps := by
  obtain ⟨_, _, _, _, perm⟩ := topologicallySortSteps_eq_ok done.sorts
  exact perm

theorem Succeeds.recipe_id {recipeId : String} {recipe : Authored.Recipe}
    (found : prepared.recipes.get? recipeId = some recipe) : recipe.id = recipeId := by
  rw [done.prepares.recipes] at found
  exact recipeTable_id found

theorem Succeeds.authored : planned ∈ chosen.steps ↔
    ∃ recipe, AuthoredIn prepared.recipes prepared.expandedRecipeRefs selected recipe planned := by
  rw [done.chooses.steps, mem_authoredSteps]

theorem Succeeds.distinct : (chosen.steps.map PlannedStep.id).Nodup := by
  obtain ⟨order, found, _, same, perm⟩ := topologicallySortSteps_eq_ok done.sorts
  exact (perm.map PlannedStep.id).nodup_iff.mp (same ▸ Kahn.nodup_of_order found)

theorem Succeeds.same_planned {first second : PlannedStep} (firstIn : first ∈ chosen.steps)
    (secondIn : second ∈ chosen.steps) (same : first.id = second.id) : first = second :=
  List.inj_on_of_nodup_map done.distinct firstIn secondIn same

theorem Succeeds.related : List.Forall₂ (fun planned step => ∃ recipe usage,
    EmittedFrom host input prepared selected recipe planned usage step) ordered plan.steps := by
  obtain ⟨steps, emitted, built⟩ := Checks.bind_eq_ok.mp done.emits
  cases Except.ok.inj built
  exact related_of_emitSteps (fun planned member => done.authored.mp (done.perm.mem_iff.mp member))
    (fun _ _ found => done.recipe_id found) emitted

theorem Succeeds.emitted {step : ExecutionStep} (member : step ∈ plan.steps) :
    ∃ planned ∈ chosen.steps, ∃ recipe usage,
      EmittedFrom host input prepared selected recipe planned usage step := by
  obtain ⟨planned, listed, related⟩ := Checks.mem_left_of_forall₂ done.related member
  exact ⟨planned, done.perm.mem_iff.mp listed, related⟩

theorem Succeeds.emits_all (listed : planned ∈ chosen.steps) : ∃ step ∈ plan.steps, ∃ recipe usage,
      EmittedFrom host input prepared selected recipe planned usage step :=
  Checks.mem_right_of_forall₂ done.related (done.perm.mem_iff.mpr listed)

theorem Succeeds.step_ids : plan.steps.map ExecutionStep.id = ordered.map PlannedStep.id := by
  have related := done.related
  generalize plan.steps = steps at related
  clear done
  induction related with
  | nil => rfl
  | cons first _ ih =>
      obtain ⟨_, _, emitted⟩ := first
      rw [List.map_cons, List.map_cons, ih, emitted.id]

theorem Succeeds.step_ids_nodup : (plan.steps.map ExecutionStep.id).Nodup := by
  rw [done.step_ids]
  exact (done.perm.map PlannedStep.id).nodup_iff.mpr done.distinct

end

section

def PlannerInput.recipeMap (input : PlannerInput) : OrderedMap String Authored.Recipe :=
  recipeTable input.recipes

def PlannerInput.expandedRefs (input : PlannerInput) : List String :=
  (expandRecipeDependencies input.recipeMap input.selectedRecipeRefs).1

def PlannerInput.effectiveBindings (host : Host) (input : PlannerInput) : OrderedMap String Json :=
  effectiveInputBindings (resolveRuntimeBindings host input.recipeMap input.expandedRefs
    input.bindings).resolvedInputs

def appTable (appDefinitions : List AppDefinition) : OrderedMap String AppDefinition :=
  .ofList (appDefinitions.map fun app => (app.id, app))

structure Origin (input : PlannerInput) (step : ExecutionStep) (recipe : Authored.Recipe)
    (authored : Authored.Step) : Prop where
  found : input.recipeMap.get? step.recipeRef = some recipe
  inside : authored ∈ recipe.steps
  id : step.id = makeExecutionStepId step.recipeRef authored.id

theorem indexAppDefinitions_eq_ok {apps : OrderedMap String AppDefinition}
    (indexed : indexAppDefinitions appDefinitions = .ok apps) : apps = appTable appDefinitions := by
  refine Checks.foldlM_invariant (fun passed found => found = appTable passed) rfl ?_ indexed
  rintro passed app rest state next - rfl stepped
  split at stepped
  next => exact nomatch stepped
  next =>
    cases Except.ok.inj stepped
    simp [appTable, OrderedMap.ofList]

variable {selected : Finset String}

theorem PreparedBy.expandedRefs
    (prepares : PreparedBy host checks input appDefinitions mode prepared) :
    prepared.expandedRecipeRefs = input.expandedRefs := by
  rw [PlannerInput.expandedRefs, PlannerInput.recipeMap, ← prepares.recipes, prepares.expanded]

theorem PreparedBy.effectiveBindings
    (prepares : PreparedBy host checks input appDefinitions mode prepared) :
    prepared.inputBindings = input.effectiveBindings host := by
  rw [PlannerInput.effectiveBindings, prepares.bindings, prepares.expandedRefs, prepares.recipes,
    PlannerInput.recipeMap]

theorem PreparedBy.apps (prepares : PreparedBy host checks input appDefinitions mode prepared) :
    prepared.apps = appTable appDefinitions :=
  indexAppDefinitions_eq_ok prepares.indexed

variable (done : Succeeds host checks input appDefinitions mode prepared selected chosen ordered plan)

include done

/-- Each emitted step comes from one authored step. -/
theorem Succeeds.origin {step : ExecutionStep} (member : step ∈ plan.steps) :
    ∃ planned ∈ chosen.steps, ∃ recipe usage,
      EmittedFrom host input prepared selected recipe planned usage step ∧
      Origin input step recipe planned.step := by
  obtain ⟨planned, listed, recipe, usage, emitted⟩ := done.emitted member
  refine ⟨planned, listed, recipe, usage, emitted, ?_, emitted.authored.authored, ?_⟩
  · rw [emitted.recipeRef, PlannerInput.recipeMap, ← done.prepares.recipes]
    exact emitted.authored.found
  · rw [emitted.id, emitted.recipeRef, emitted.authored.qualified]

theorem Succeeds.origin_unique {step : ExecutionStep} {planned : PlannedStep}
    {recipe other : Authored.Recipe} {usage : ResolvedStepUsage} {authored : Authored.Step}
    (emitted : EmittedFrom host input prepared selected recipe planned usage step)
    (origin : Origin input step other authored) : recipe = other ∧ planned.step = authored := by
  have found := origin.found
  rw [emitted.recipeRef, PlannerInput.recipeMap, ← done.prepares.recipes] at found
  obtain rfl : recipe = other := Option.some.inj (emitted.authored.found.symm.trans found)
  have same : planned = ⟨planned.id, planned.recipeId, authored⟩ := by
    refine done.same_planned (done.authored.mpr ⟨recipe, emitted.authored⟩)
      (done.authored.mpr ⟨recipe, ?_⟩) rfl
    refine ⟨emitted.authored.listed, found, origin.inside, ?_, emitted.authored.selects⟩
    rw [← emitted.id, origin.id, emitted.recipeRef]
  exact ⟨rfl, by rw [same]⟩

theorem Succeeds.usage {step : ExecutionStep} {planned : PlannedStep} {recipe : Authored.Recipe}
    {usage : ResolvedStepUsage}
    (emitted : EmittedFrom host input prepared selected recipe planned usage step) :
    ∃ capabilities, usage = { resolvedStepUsage checks.validateAppDefinition recipe planned.recipeId
      planned.step (stepApp prepared.apps planned.step) (some prepared.inputBindings) with
        capabilities := capabilities } := by
  obtain ⟨table, resolves, derived⟩ := done.prepares.usage
  have used := emitted.used
  rw [derived, addDerivedStepCapabilities, OrderedMap.get?_mapValues, Option.map_eq_some_iff] at used
  obtain ⟨base, held, rfl⟩ := used
  simp only [resolveUsage] at resolves
  split at resolves
  next =>
    cases Except.ok.inj resolves
    obtain ⟨⟨recipeId, other, authored⟩, member, same⟩ :=
      List.mem_map.mp (OrderedMap.mem_of_get?_ofList held)
    obtain ⟨named, rfl⟩ := Prod.mk.inj same
    obtain ⟨listed, found, inside⟩ := mem_expandedSteps.mp member
    have equal : planned = ⟨planned.id, recipeId, authored⟩ :=
      done.same_planned (done.authored.mpr ⟨recipe, emitted.authored⟩)
        (done.authored.mpr ⟨other, listed, found, inside, named.symm, emitted.authored.selects⟩) rfl
    obtain rfl : planned.recipeId = recipeId := by rw [equal]
    obtain rfl : planned.step = authored := by rw [equal]
    obtain rfl : recipe = other := Option.some.inj (emitted.authored.found.symm.trans found)
    cases prepared.permissionPlans.get? planned.id with
    | none => exact ⟨_, rfl⟩
    | some permissionPlan => exact ⟨_, rfl⟩
  next => exact nomatch resolves

end

end EmuChef.Planner
