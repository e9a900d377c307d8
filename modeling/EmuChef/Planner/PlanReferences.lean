import EmuChef.Executor.RuntimeState
import EmuChef.Planner.Admissible
import EmuChef.Planner.PlanLaw

/-! How an execution reads the references that a plan emits. -/

namespace EmuChef.Planner

open Authored (AppDefinition)
open Split (splitOnce rsplitOnce stripLead)

inductive ExecutionReference where
  | input (inputId : String)
  | artifactField (artifactId field : String)
  | stepOutput (stepId field : String)
  deriving DecidableEq

def executionReference (refValue : String) : Option ExecutionReference :=
  match stripLead inputsLead refValue.toList with
  | some inputId => some (.input (String.ofList inputId))
  | none =>
      match stripLead artifactsLead refValue.toList with
      | some body => (rsplitOnce '.' body).map fun parts =>
          .artifactField (String.ofList parts.1) (String.ofList parts.2)
      | none => (stripLead stepsLead refValue.toList).bind fun body =>
          (splitOnce outputsSeparator body).map fun parts =>
            .stepOutput (String.ofList parts.1) (String.ofList parts.2)

/-- A text in which the separator of outputs does not start, also not with its last letter in
the text that follows. -/
def Clear (text : List Char) : Prop :=
  (∀ before after, text ≠ before ++ outputsSeparator ++ after) ∧
    ∀ before, text ≠ before ++ ".outputs".toList

theorem outputsSeparator_overlap {first last more rest : List Char}
    (split : outputsSeparator = first ++ last) (filled : first ≠ [])
    (again : outputsSeparator ++ rest = last ++ more) :
    first = ".outputs".toList ∨ first = outputsSeparator := by
  have short : last.length ≤ outputsSeparator.length := by simp [split]
  have overlap : last <+: outputsSeparator :=
    List.prefix_of_prefix_length_le ⟨more, again.symm⟩ ⟨rest, rfl⟩ short
  have dropped : outputsSeparator.drop first.length = last := by rw [split, List.drop_left]
  have taken : outputsSeparator.take first.length = first := by rw [split, List.take_left]
  have bound : first.length < 10 := by
    have whole : outputsSeparator.length = 9 := by decide
    rw [split, List.length_append] at whole
    omega
  have places : ∀ place < 10, (outputsSeparator.drop place).isPrefixOf outputsSeparator = true →
      place = 0 ∨ place = 8 ∨ place = 9 := by decide
  rw [← dropped, ← List.isPrefixOf_iff_prefix] at overlap
  rcases places first.length bound overlap with none | eight | nine
  · exact absurd (List.length_eq_zero_iff.mp none) filled
  · rw [eight] at taken
    exact .inl taken.symm
  · rw [nine] at taken
    exact .inr taken.symm

theorem clear_of_splitOnce {target field : List Char}
    (found : splitOnce outputsSeparator (target ++ outputsSeparator ++ field) =
      some (target, field)) : Clear target := by
  constructor
  · intro before after same
    have occurs : target ++ outputsSeparator ++ field =
        before ++ outputsSeparator ++ (after ++ outputsSeparator ++ field) := by simp [same]
    have first := Split.splitOnce_first found occurs
    have positive : 0 < outputsSeparator.length := by decide
    simp only [same, List.length_append] at first
    omega
  · intro before same
    have joined : ".outputs".toList ++ outputsSeparator = outputsSeparator ++ "outputs.".toList := by
      decide
    have occurs : target ++ outputsSeparator ++ field =
        before ++ outputsSeparator ++ ("outputs.".toList ++ field) := by
      rw [same, List.append_assoc before, joined]
      simp
    have first := Split.splitOnce_first found occurs
    have positive : 0 < ".outputs".toList.length := by decide
    simp only [same, List.length_append] at first
    omega

theorem early_outputs {target more field after : List Char} {before : List Char} (filled : more ≠ [])
    (same : target = before ++ more)
    (rest : outputsSeparator ++ after = more ++ (outputsSeparator ++ field)) :
    '.' ∈ after ∧ ¬ Clear target := by
  have dot : '.' ∈ outputsSeparator := by decide
  rcases List.append_eq_append_iff.mp rest with ⟨inner, rfl, rfl⟩ | ⟨last, split, again⟩
  · exact ⟨by simp [dot], fun clear => clear.1 before inner (by simp [same])⟩
  · rcases outputsSeparator_overlap split filled again with rfl | rfl
    · have last : last = ['.'] := by
        have whole : outputsSeparator = ".outputs".toList ++ ['.'] := by decide
        exact (List.append_cancel_left (whole.symm.trans split)).symm
      have tail : outputsSeparator = ['.'] ++ "outputs.".toList := by decide
      have after : after = "outputs.".toList ++ field := by
        rw [last, tail, List.append_assoc] at again
        exact (List.append_cancel_left again).symm
      exact ⟨by simp [after], fun clear => clear.2 before same⟩
    · obtain rfl : last = [] := by simpa using split
      obtain rfl : outputsSeparator ++ field = after := by simpa using again
      exact ⟨by simp [dot], fun clear => clear.1 before [] (by simp [same])⟩

theorem splitOnce_outputs {target field before after : List Char}
    (found : splitOnce outputsSeparator (target ++ outputsSeparator ++ field) =
      some (before, after)) :
    before = target ∧ after = field ∧ Clear target ∨ '.' ∈ after ∧ ¬ Clear target := by
  have occurs := Split.splitOnce_sound found
  have first := Split.splitOnce_first found rfl
  have settled (held : before = target) : before = target ∧ after = field ∧ Clear target := by
    subst held
    obtain rfl : field = after := by simpa using occurs
    exact ⟨rfl, rfl, clear_of_splitOnce found⟩
  rw [List.append_assoc, List.append_assoc, List.append_eq_append_iff] at occurs
  rcases occurs with ⟨more, same, _⟩ | ⟨more, same, rest⟩
  · rw [same, List.length_append] at first
    obtain rfl : more = [] := List.length_eq_zero_iff.mp (by omega)
    exact .inl (settled (by simpa using same))
  · by_cases filled : more = []
    · exact .inl (settled (by simp [same, filled]))
    · exact .inr (early_outputs filled same rest)

theorem toList_inputs (inputId : String) :
    ("inputs." ++ inputId).toList = inputsLead ++ inputId.toList := by
  rw [String.toList_append]
  rfl

theorem executionReference_input (inputId : String) :
    executionReference ("inputs." ++ inputId) = some (.input inputId) := by
  rw [executionReference, toList_inputs, Split.stripLead_append]
  simp only [String.ofList_toList]

theorem stripLead_other {letter other : Char} (different : letter ≠ other)
    (lead text : List Char) : stripLead (letter :: lead) (other :: text) = none := by
  rw [stripLead, if_neg different]

theorem stripLead_inputs_artifacts (body : List Char) :
    stripLead inputsLead (artifactsLead ++ body) = none := stripLead_other (by decide) _ _

theorem stripLead_inputs_steps (body : List Char) : stripLead inputsLead (stepsLead ++ body) = none :=
  stripLead_other (by decide) _ _

theorem stripLead_artifacts_steps (body : List Char) :
    stripLead artifactsLead (stepsLead ++ body) = none := stripLead_other (by decide) _ _

theorem executionReference_artifact (artifactId : String) {field : String}
    (clean : '.' ∉ field.toList) :
    executionReference ("artifacts." ++ artifactId ++ "." ++ field) =
      some (.artifactField artifactId field) := by
  have lead : ("artifacts." ++ artifactId ++ "." ++ field).toList =
      artifactsLead ++ (artifactId.toList ++ '.' :: field.toList) := by
    rw [String.toList_append, String.toList_append, String.toList_append, List.append_assoc,
      List.append_assoc]
    rfl
  have split : rsplitOnce '.' (artifactId.toList ++ '.' :: field.toList) =
      some (artifactId.toList, field.toList) := Split.rsplitOnce_eq_some.mpr ⟨rfl, clean⟩
  rw [executionReference, lead, stripLead_inputs_artifacts]
  simp only [Split.stripLead_append, split, Option.map_some, String.ofList_toList]

theorem executionReference_step (stepId field : String) :
    executionReference ("steps." ++ stepId ++ ".outputs." ++ field) =
      (splitOnce outputsSeparator (stepId.toList ++ outputsSeparator ++ field.toList)).map
        fun parts => .stepOutput (String.ofList parts.1) (String.ofList parts.2) := by
  have lead : ("steps." ++ stepId ++ ".outputs." ++ field).toList =
      stepsLead ++ (stepId.toList ++ outputsSeparator ++ field.toList) := by
    rw [String.toList_append, String.toList_append, String.toList_append, List.append_assoc,
      List.append_assoc, List.append_assoc]
    rfl
  rw [executionReference, lead, stripLead_inputs_steps]
  simp only [stripLead_artifacts_steps, Split.stripLead_append, Option.bind_some]

theorem executionReference_step_cases (stepId field : String) :
    (Clear stepId.toList ∧ executionReference ("steps." ++ stepId ++ ".outputs." ++ field) =
      some (.stepOutput stepId field)) ∨
    (¬ Clear stepId.toList ∧ ∃ otherId other, '.' ∈ other.toList ∧
      executionReference ("steps." ++ stepId ++ ".outputs." ++ field) =
        some (.stepOutput otherId other)) := by
  obtain ⟨before, after, found⟩ := Split.exists_splitOnce (rfl : stepId.toList ++ outputsSeparator ++
    field.toList = stepId.toList ++ outputsSeparator ++ field.toList)
  rw [executionReference_step, found, Option.map_some]
  rcases splitOnce_outputs found with ⟨rfl, rfl, clear⟩ | ⟨dotted, tangled⟩
  · exact .inl ⟨clear, by simp⟩
  · exact .inr ⟨tangled, String.ofList before, String.ofList after, by simpa using dotted, rfl⟩

section

variable {step : Authored.Step}

theorem literal_of_default {name : String} {value : ParamValue}
    (held : (paramsWithDefaults step).get? name = some value) :
    step.params.get? name = some value ∨ ∃ content, value = .literal content := by
  unfold paramsWithDefaults at held
  generalize ((stepSpecFor step.typeName).map StepSpec.defaults).getD [] = defaults at held
  suffices general : ∀ params : OrderedMap String ParamValue,
      (∀ value, params.get? name = some value →
        step.params.get? name = some value ∨ ∃ content, value = .literal content) →
      ∀ value, (defaults.foldl (fun params entry =>
        if params.contains entry.1 then params else params.insert entry.1 (.literal entry.2))
        params).get? name = some value →
        step.params.get? name = some value ∨ ∃ content, value = .literal content by
    exact general step.params (fun _ found => .inl found) value held
  clear held
  induction defaults with
  | nil => exact fun params inside => inside
  | cons entry rest ih =>
      intro params inside
      refine ih _ fun value found => ?_
      dsimp only at found
      split at found
      next => exact inside value found
      next =>
        rw [OrderedMap.get?_insert] at found
        split at found
        next => exact .inr ⟨entry.2, (Option.some.inj found).symm⟩
        next => exact inside value found

theorem defaultParam_other {spec : StepSpec} {name : String}
    (found : stepSpecFor step.typeName = some spec) (other : name ∉ spec.defaults.map Prod.fst) :
    (paramsWithDefaults step).get? name = step.params.get? name := by
  rw [paramsWithDefaults, found, Option.map_some, Option.getD_some]
  generalize step.params = params
  generalize spec.defaults = defaults at other ⊢
  induction defaults generalizing params with
  | nil => rfl
  | cons entry rest ih =>
      obtain ⟨apart, later⟩ := not_or.mp (List.mem_cons.not.mp other)
      rw [List.foldl_cons, ih _ later]
      split
      next => rfl
      next => rw [OrderedMap.get?_insert, if_neg apart]

theorem ref_of_mem_keptParams {name reference : String}
    (kept : (name, ParamValue.ref reference) ∈ keptParams step) :
    step.params.get? name = some (.ref reference) := by
  unfold keptParams at kept
  split at kept
  next => exact absurd kept List.not_mem_nil
  next =>
    cases found : stepSpecFor step.typeName with
    | none => simp [found] at kept
    | some spec =>
        rw [found] at kept
        rcases literal_of_default (mem_knownParams.mp kept).2 with held | ⟨content, same⟩
        · exact held
        · exact nomatch same

theorem ref_mem_values {name reference : String}
    (kept : (name, ParamValue.ref reference) ∈ keptParams step) :
    ParamValue.ref reference ∈ step.params.values :=
  List.mem_map.mpr ⟨_, OrderedMap.get?_eq_some.mp (ref_of_mem_keptParams kept), rfl⟩

end

section

variable {checks : AuthorityChecks} {apps : OrderedMap String AppDefinition}

def Supplied (checks : AuthorityChecks) (apps : OrderedMap String AppDefinition) (recipeId : String) :
    Authored.RecipeArtifact → Prop
  | .remoteFile _ _ => True
  | .appArtifact reference =>
      (executionAppArtifactProjection checks reference recipeId apps).isSome

def DeclaresArtifact (checks : AuthorityChecks) (apps : OrderedMap String AppDefinition)
    (recipes : OrderedMap String Authored.Recipe) (expandedRecipeRefs : List String)
    (artifactId : String) : Prop :=
  ∃ recipeId ∈ expandedRecipeRefs, ∃ recipe, recipes.get? recipeId = some recipe ∧
    ∃ entry ∈ recipe.artifacts.entries, makeExecutionArtifactId recipeId entry.1 = artifactId ∧
      Supplied checks apps recipeId entry.2

theorem emitArtifact_id {artifactIds : List String} {recipeId name : String}
    {artifact : Authored.RecipeArtifact} {emitted : ExecutionArtifact}
    (emits : emitArtifact checks apps artifactIds recipeId name artifact = some emitted) :
    emitted.id = makeExecutionArtifactId recipeId name := by
  cases artifact with
  | remoteFile url cache =>
      simp only [emitArtifact, Option.some.injEq] at emits
      rw [← emits]
  | appArtifact reference =>
      simp only [emitArtifact, Option.bind_eq_some_iff] at emits
      obtain ⟨source, _, emits⟩ := emits
      split at emits
      next => cases emits
      next => rw [← Option.some.inj emits]

theorem emitArtifact_eq_some {artifactIds : List String} {artifactId recipeId name : String}
    (listed : artifactId ∈ artifactIds) {artifact : Authored.RecipeArtifact} :
    emitArtifact checks apps artifactIds recipeId name artifact = some ⟨artifactId⟩ ↔
      makeExecutionArtifactId recipeId name = artifactId ∧ Supplied checks apps recipeId artifact := by
  cases artifact with
  | remoteFile url cache => simp [emitArtifact, Supplied]
  | appArtifact reference =>
      simp only [emitArtifact, Supplied]
      cases executionAppArtifactProjection checks reference recipeId apps with
      | none => simp
      | some source =>
          simp only [Option.bind_some, Option.isSome_some, and_true]
          constructor
          · intro emitted
            split at emitted
            next => cases emitted
            next => exact (ExecutionArtifact.mk.inj (Option.some.inj emitted))
          · rintro rfl
            rw [if_neg fun left => left.2 listed]

end

section

variable {host : Host} {checks : AuthorityChecks} {input : PlannerInput}
  {appDefinitions : List AppDefinition} {mode : PlanningMode} {prepared : Prepared}
  {selected : Finset String} {chosen : Chosen} {ordered : List PlannedStep} {plan : ExecutionPlan}
  (done : Succeeds host checks input appDefinitions mode prepared selected chosen ordered plan)

include done

theorem Succeeds.plan_inputs : plan.inputs =
    emitExecutionInputs host prepared.recipes chosen.inputIds prepared.inputBindings := by
  obtain ⟨steps, _, built⟩ := Checks.bind_eq_ok.mp done.emits
  cases Except.ok.inj built
  rfl

theorem Succeeds.plan_artifacts : plan.artifacts = emitExecutionArtifacts checks prepared.recipes
    prepared.expandedRecipeRefs prepared.apps chosen.artifactIds := by
  obtain ⟨steps, _, built⟩ := Checks.bind_eq_ok.mp done.emits
  cases Except.ok.inj built
  rfl

theorem Succeeds.inputId_selected {planned : PlannedStep} {recipe : Authored.Recipe}
    (authored : AuthoredIn prepared.recipes prepared.expandedRecipeRefs selected recipe planned)
    {name reference targetId : String}
    (kept : (name, ParamValue.ref reference) ∈ keptParams planned.step)
    (parsed : parseReference reference = some (.input targetId)) :
    makeExecutionInputId planned.recipeId targetId ∈ chosen.inputIds := by
  rw [done.chooses.inputIds, selectedInputIds, mem_firstOccurrences, List.mem_flatMap]
  refine ⟨(planned.recipeId, recipe), ?_, ?_⟩
  · rw [expandedRecipes, List.mem_filterMap]
    exact ⟨planned.recipeId, authored.listed, by rw [authored.found, Option.map_some]⟩
  · refine List.mem_append_left _ (List.mem_flatMap.mpr ⟨planned.step, authored.authored, ?_⟩)
    rw [← authored.qualified, if_pos authored.selects]
    exact mem_referencedInputIds.mpr ⟨targetId, ⟨reference, ref_mem_values kept, parsed⟩, rfl⟩

theorem Succeeds.artifactId_selected {planned : PlannedStep} {recipe : Authored.Recipe}
    (authored : AuthoredIn prepared.recipes prepared.expandedRecipeRefs selected recipe planned)
    {name reference targetId field : String}
    (kept : (name, ParamValue.ref reference) ∈ keptParams planned.step)
    (parsed : parseReference reference = some (.artifactField targetId field)) :
    makeExecutionArtifactId planned.recipeId targetId ∈ chosen.artifactIds := by
  rw [done.chooses.artifactIds, selectedArtifactIds, mem_firstOccurrences, List.mem_flatMap]
  refine ⟨(planned.recipeId, recipe, planned.step),
    mem_expandedSteps.mpr ⟨authored.listed, authored.found, authored.authored⟩, ?_⟩
  simp only [← authored.qualified, if_pos authored.selects]
  refine List.mem_map_of_mem (List.mem_append_right _ (List.mem_filterMap.mpr ⟨reference, ?_, ?_⟩))
  · exact List.mem_filterMap.mpr ⟨_, ref_mem_values kept, rfl⟩
  · simp only [parsed]

theorem Succeeds.mem_plan_inputs {inputId : String} {value : RuntimeValue} :
    ⟨inputId, value⟩ ∈ plan.inputs ↔ inputId ∈ chosen.inputIds ∧
      emitExecutionInput host prepared.recipes prepared.inputBindings inputId =
        some ⟨inputId, value⟩ := by
  rw [done.plan_inputs, emitExecutionInputs, List.mem_filterMap]
  constructor
  · rintro ⟨otherId, listed, emitted⟩
    obtain rfl : otherId = inputId := by
      simp only [emitExecutionInput, Option.bind_eq_some_iff, Option.map_eq_some_iff] at emitted
      obtain ⟨_, _, _, _, _, _, _, _, same⟩ := emitted
      exact (ExecutionInputValue.mk.inj same).1
    exact ⟨listed, emitted⟩
  · rintro ⟨listed, emitted⟩
    exact ⟨inputId, listed, emitted⟩

/-- A chosen artifact stands in the plan exactly if an expanded Recipe declares it. -/
theorem Succeeds.mem_plan_artifacts {artifactId : String} (listed : artifactId ∈ chosen.artifactIds) :
    ⟨artifactId⟩ ∈ plan.artifacts ↔ DeclaresArtifact checks prepared.apps prepared.recipes
      prepared.expandedRecipeRefs artifactId := by
  rw [done.plan_artifacts, emitExecutionArtifacts, List.mem_flatMap]
  simp only [expandedRecipes, List.mem_filterMap, Option.map_eq_some_iff, DeclaresArtifact]
  constructor
  · rintro ⟨_, ⟨recipeId, expanded, recipe, found, rfl⟩, entry, inside, emitted⟩
    obtain ⟨rfl, supplied⟩ := (emitArtifact_eq_some listed).mp emitted
    exact ⟨recipeId, expanded, recipe, found, entry, inside, rfl, supplied⟩
  · rintro ⟨recipeId, expanded, recipe, found, entry, inside, rfl, supplied⟩
    exact ⟨(recipeId, recipe), ⟨recipeId, expanded, recipe, found, rfl⟩, entry, inside,
      (emitArtifact_eq_some listed).mpr ⟨rfl, supplied⟩⟩

theorem Succeeds.target_selected {planned : PlannedStep} {recipe : Authored.Recipe}
    (authored : AuthoredIn prepared.recipes prepared.expandedRecipeRefs selected recipe planned)
    {targetId : String} {target : Authored.Step}
    (found : (OrderedMap.ofList ((stepsOf chosen.steps planned.recipeId).map fun step =>
      (step.id, step))).get? targetId = some target) :
    findStep recipe targetId = some target ∧ ∃ step ∈ plan.steps,
      step.id = makeExecutionStepId planned.recipeId targetId ∧ step.typeName = target.typeName := by
  obtain ⟨step, member, same⟩ := List.mem_map.mp (OrderedMap.mem_of_get?_ofList found)
  obtain ⟨rfl, rfl⟩ := Prod.mk.inj same
  obtain ⟨other, inside, rfl⟩ := List.mem_map.mp member
  obtain ⟨listed, home⟩ := List.mem_filter.mp inside
  have home : other.recipeId = planned.recipeId := by simpa using home
  obtain ⟨otherRecipe, otherAuthored⟩ := done.authored.mp listed
  have sameRecipe := otherAuthored.found
  rw [home, authored.found] at sameRecipe
  obtain rfl := Option.some.inj sameRecipe
  constructor
  · cases first : findStep recipe other.step.id with
    | none =>
        have missing := List.find?_eq_none.mp first other.step otherAuthored.authored
        simp at missing
    | some step =>
        have named : step.id = other.step.id := by simpa using List.find?_some first
        have equal : (⟨other.id, other.recipeId, step⟩ : PlannedStep) = other := by
          refine done.same_planned (done.authored.mpr ⟨recipe, ?_⟩) listed rfl
          refine ⟨otherAuthored.listed, otherAuthored.found, List.mem_of_find?_eq_some first, ?_,
            otherAuthored.selects⟩
          rw [named]
          exact otherAuthored.qualified
        rw [← equal]
  · obtain ⟨step, emitted, _, _, made⟩ := done.emits_all listed
    refine ⟨step, emitted, ?_, made.typeName⟩
    rw [made.id, otherAuthored.qualified, home]

theorem Succeeds.stepRef_valid {planned : PlannedStep} (listed : planned ∈ chosen.steps)
    {name reference : String} (kept : (name, ParamValue.ref reference) ∈ keptParams planned.step)
    (leads : startsWithSteps reference = true) :
    validateStepRef planned.recipeId planned.step name reference (OrderedMap.ofList
      ((stepsOf chosen.steps planned.recipeId).map fun step => (step.id, step))) = [] := by
  have silent := List.flatMap_eq_nil_iff.mp done.validated.refs planned listed
  have entry := List.flatMap_eq_nil_iff.mp silent (name, .ref reference)
    (OrderedMap.get?_eq_some.mp (ref_of_mem_keptParams kept))
  simpa only [leads, ↓reduceIte] using entry

end

end EmuChef.Planner
