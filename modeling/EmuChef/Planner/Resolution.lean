import EmuChef.Planner.PlanReferences

/-! Which references of a plan resolve inside of it. -/

namespace EmuChef.Planner

open Authored (AppDefinition)
open Split (splitOnce rsplitOnce stripLead)

theorem field_of_declaresOutput {typeName field : String}
    (declared : declaresOutput typeName field = true) : '.' ∉ field.toList ∧ field ≠ "" := by
  have all : ∀ spec ∈ stepSpecs, ∀ output ∈ spec.outputs,
      '.' ∉ output.name.toList ∧ output.name ≠ "" := by decide
  simp only [declaresOutput, Option.any_eq_true] at declared
  obtain ⟨spec, found, output⟩ := declared
  obtain ⟨output, listed⟩ := Option.isSome_iff_exists.mp output
  have named : output.name = field := by simpa using List.find?_some listed
  exact named ▸ all spec (List.mem_of_find?_eq_some found) output (List.mem_of_find?_eq_some listed)

theorem declaresOutput_of_primary {step : Authored.Step} {name : String}
    (primary : primaryOutput? step = some name) : declaresOutput step.typeName name = true := by
  obtain ⟨spec, found, named⟩ := Option.bind_eq_some_iff.mp primary
  rw [declaresOutput, found, Option.any_some]
  exact primaryOutput_declared found named

theorem parse_cases {reference : String} {parsed : RuntimeRef}
    (found : parseReference reference = some parsed) :
    (∃ targetId, parsed = .input targetId) ∨
    (startsWithSteps reference = true ∧
      ((∃ targetId, parsed = .stepShorthand targetId) ∨
        ∃ targetId field, parsed = .stepOutput targetId field)) ∨
    ∃ targetId field, parsed = .artifactField targetId field ∧ '.' ∉ field.toList := by
  unfold parseReference at found
  split at found
  next target _ =>
    unfold parseInputReference at found
    split at found
    · exact nomatch found
    · exact .inl ⟨_, (Option.some.inj found).symm⟩
  next =>
    split at found
    next body stripped =>
      refine .inr (.inl ⟨by rw [startsWithSteps, stripped, Option.isSome_some], ?_⟩)
      unfold parseStepReference at found
      split at found
      · split at found
        · exact nomatch found
        · exact .inr ⟨_, _, (Option.some.inj found).symm⟩
      · split at found
        · exact nomatch found
        · exact .inl ⟨_, (Option.some.inj found).symm⟩
    next =>
      split at found
      next body _ =>
        unfold parseArtifactReference at found
        split at found
        next target field split =>
          split at found
          · exact nomatch found
          · refine .inr (.inr ⟨_, _, (Option.some.inj found).symm, ?_⟩)
            simpa using (Split.rsplitOnce_eq_some.mp split).2
        next => exact nomatch found
      next => exact nomatch found

theorem executionReference_of_parse_none {reference : String}
    (unparsed : parseReference reference = none) : executionReference reference = none ∨
    executionReference reference = some (.input "") ∨
    (∃ targetId field, executionReference reference = some (.artifactField targetId field) ∧
      (targetId = "" ∨ field = "")) ∨
    ∃ stepId field, executionReference reference = some (.stepOutput stepId field) ∧
      (stepId = "" ∨ field = "") := by
  unfold parseReference at unparsed
  unfold executionReference
  cases inputs : stripLead inputsLead reference.toList with
  | some target =>
      simp only [inputs, parseInputReference] at unparsed
      obtain rfl : target = [] := by simpa using unparsed
      exact .inr (.inl rfl)
  | none =>
      cases steps : stripLead stepsLead reference.toList with
      | some body =>
          have lead := Split.stripLead_eq_some.mp steps
          simp only [inputs, steps, parseStepReference] at unparsed
          rw [lead, stripLead_artifacts_steps]
          simp only [Option.bind_some]
          cases split : splitOnce outputsSeparator body with
          | none => exact .inl rfl
          | some parts =>
              simp only [split] at unparsed
              have blank : parts.1 = [] ∨ parts.2 = [] := by simpa [or_iff_not_imp_left] using unparsed
              refine .inr (.inr (.inr ⟨_, _, rfl, ?_⟩))
              exact blank.imp (congrArg String.ofList) (congrArg String.ofList)
      | none =>
          cases artifacts : stripLead artifactsLead reference.toList with
          | none => exact .inl rfl
          | some body =>
              simp only [inputs, steps, artifacts, parseArtifactReference] at unparsed
              simp only
              cases split : rsplitOnce '.' body with
              | none => exact .inl rfl
              | some parts =>
                  simp only [split] at unparsed
                  have blank : parts.1 = [] ∨ parts.2 = [] := by simpa [or_iff_not_imp_left] using unparsed
                  refine .inr (.inr (.inl ⟨_, _, rfl, ?_⟩))
                  exact blank.imp (congrArg String.ofList) (congrArg String.ofList)

section

def InPlan (plan : ExecutionPlan) : ExecutionReference → Prop
  | .input inputId => inputId ∈ plan.inputs.map ExecutionInputValue.id
  | .artifactField artifactId field => ⟨artifactId⟩ ∈ plan.artifacts ∧ field ∈ runtimeArtifactFields
  | .stepOutput stepId field =>
      ∃ step ∈ plan.steps, step.id = stepId ∧ declaresOutput step.typeName field = true

instance (plan : ExecutionPlan) : DecidablePred (InPlan plan)
  | .input _ => inferInstanceAs (Decidable (_ ∈ _))
  | .artifactField _ _ => inferInstanceAs (Decidable (_ ∧ _))
  | .stepOutput _ _ => inferInstanceAs (Decidable (∃ _ ∈ _, _))

def ResolvesIn (plan : ExecutionPlan) (refValue : String) : Prop :=
  ∃ reference ∈ executionReference refValue, InPlan plan reference

instance (plan : ExecutionPlan) : DecidablePred (ResolvesIn plan) := fun _ =>
  inferInstanceAs (Decidable (∃ _ ∈ _, _))

theorem resolvesIn_of_read {plan : ExecutionPlan} {refValue : String} {reference : ExecutionReference}
    (read : executionReference refValue = some reference) :
    ResolvesIn plan refValue ↔ InPlan plan reference := by
  simp [ResolvesIn, read]

def HasValue (recipes : OrderedMap String Authored.Recipe) (bindings : OrderedMap String Json)
    (inputId : String) : Prop :=
  ∃ recipeId targetId recipe declaration, splitQualifiedId inputId = some (recipeId, targetId) ∧
    recipes.get? recipeId = some recipe ∧ recipe.inputs.get? targetId = some declaration ∧
    ((bindings.get? inputId).isSome ∨ declaration.default.isNull = false)

def Backed (host : Host) (checks : AuthorityChecks) (input : PlannerInput)
    (appDefinitions : List AppDefinition) (recipe : Authored.Recipe) (reference : String) : Prop :=
  match parseReference reference with
  | some (.input targetId) =>
      HasValue input.recipeMap (input.effectiveBindings host)
        (makeExecutionInputId recipe.id targetId)
  | some (.artifactField targetId field) =>
      DeclaresArtifact checks (appTable appDefinitions) input.recipeMap input.expandedRefs
          (makeExecutionArtifactId recipe.id targetId) ∧ field ∈ runtimeArtifactFields
  | some (.stepShorthand targetId) | some (.stepOutput targetId _) =>
      Clear (makeExecutionStepId recipe.id targetId).toList
  | none => False

theorem emitExecutionInput_eq_some (host : Host) {recipes : OrderedMap String Authored.Recipe}
    {bindings : OrderedMap String Json} {inputId : String} :
    (∃ value, emitExecutionInput host recipes bindings inputId = some ⟨inputId, value⟩) ↔
      HasValue recipes bindings inputId := by
  simp only [emitExecutionInput, Option.bind_eq_some_iff, Option.map_eq_some_iff, Prod.exists,
    HasValue, bindingValue]
  constructor
  · rintro ⟨_, recipeId, targetId, split, recipe, found, declaration, declared, value, held, _⟩
    refine ⟨recipeId, targetId, recipe, declaration, split, found, declared, ?_⟩
    obtain ⟨raw, held, _⟩ := held
    rcases Option.or_eq_some_iff.mp held with bound | ⟨_, default⟩
    · exact .inl (by rw [bound, Option.isSome_some])
    · refine .inr ?_
      cases blank : declaration.default.isNull with
      | false => rfl
      | true => simp [blank] at default
  · rintro ⟨recipeId, targetId, recipe, declaration, split, found, declared, held⟩
    have supplied : ((bindings.get? inputId).or
        (if declaration.default.isNull then none else some declaration.default)).isSome := by
      rw [Option.isSome_or]
      rcases held with bound | default
      · rw [bound, Bool.true_or]
      · simp [default]
    obtain ⟨raw, held⟩ := Option.isSome_iff_exists.mp supplied
    exact ⟨_, recipeId, targetId, split, recipe, found, declaration, declared, _, ⟨raw, held, rfl⟩,
      rfl⟩

variable {host : Host} {checks : AuthorityChecks} {input : PlannerInput}
  {appDefinitions : List AppDefinition} {mode : PlanningMode} {prepared : Prepared}
  {selected : Finset String} {chosen : Chosen} {ordered : List PlannedStep} {plan : ExecutionPlan}
  (done : Succeeds host checks input appDefinitions mode prepared selected chosen ordered plan)

include done

theorem Succeeds.not_resolves_unparsed {reference : String}
    (unparsed : parseReference reference = none) : ¬ ResolvesIn plan reference := by
  rintro ⟨named, read, inside⟩
  have filled (first second : String) : first ++ "/" ++ second ≠ "" := by
    intro blank
    simpa using congrArg String.toList blank
  rcases executionReference_of_parse_none unparsed with other | other | ⟨_, _, other, blank⟩ |
    ⟨_, _, other, blank⟩
  · exact nomatch other.symm.trans read
  · cases Option.some.inj (other.symm.trans read)
    obtain ⟨found, listed, same⟩ := List.mem_map.mp inside
    have emitted := (done.mem_plan_inputs.mp listed).2
    simp only [emitExecutionInput, Option.bind_eq_some_iff] at emitted
    obtain ⟨parts, split, _⟩ := emitted
    exact filled _ _ ((splitQualifiedId_eq_some.mp split).1.symm.trans same)
  · cases Option.some.inj (other.symm.trans read)
    rcases blank with rfl | rfl
    · have listed := inside.1
      rw [done.plan_artifacts, emitExecutionArtifacts, List.mem_flatMap] at listed
      obtain ⟨_, _, listed⟩ := listed
      obtain ⟨entry, _, emitted⟩ := List.mem_filterMap.mp listed
      exact filled _ _ (emitArtifact_id emitted).symm
    · exact absurd inside.2 (by decide)
  · cases Option.some.inj (other.symm.trans read)
    obtain ⟨step, member, rfl, declared⟩ := inside
    rcases blank with blank | rfl
    · obtain ⟨planned, _, recipe, usage, emitted⟩ := done.emitted member
      refine filled planned.recipeId planned.step.id ?_
      rw [← blank, emitted.id, emitted.authored.qualified]
      rfl
    · exact (field_of_declaresOutput declared).2 rfl

theorem Succeeds.inputId_in_plan {inputId : String} (listed : inputId ∈ chosen.inputIds) :
    inputId ∈ plan.inputs.map ExecutionInputValue.id ↔
      HasValue prepared.recipes prepared.inputBindings inputId := by
  rw [← emitExecutionInput_eq_some host, List.mem_map]
  constructor
  · rintro ⟨⟨_, value⟩, inside, rfl⟩
    exact ⟨value, (done.mem_plan_inputs.mp inside).2⟩
  · rintro ⟨value, emitted⟩
    exact ⟨⟨inputId, value⟩, done.mem_plan_inputs.mpr ⟨listed, emitted⟩, rfl⟩

theorem Succeeds.resolves_step_iff {planned : PlannedStep} {recipe : Authored.Recipe}
    (authored : AuthoredIn prepared.recipes prepared.expandedRecipeRefs selected recipe planned)
    {targetId field : String} {target : Authored.Step}
    (found : (OrderedMap.ofList ((stepsOf chosen.steps planned.recipeId).map fun step =>
      (step.id, step))).get? targetId = some target)
    (declared : declaresOutput target.typeName field = true) :
    ResolvesIn plan ("steps." ++ makeExecutionStepId recipe.id targetId ++ ".outputs." ++ field) ↔
      Clear (makeExecutionStepId recipe.id targetId).toList := by
  rcases executionReference_step_cases (makeExecutionStepId recipe.id targetId) field with
    ⟨clear, read⟩ | ⟨tangled, otherId, other, dotted, read⟩
  · rw [resolvesIn_of_read read]
    refine iff_of_true ?_ clear
    obtain ⟨_, step, member, same, typed⟩ := done.target_selected authored found
    refine ⟨step, member, ?_, typed ▸ declared⟩
    rw [done.recipe_id authored.found]
    exact same
  · rw [resolvesIn_of_read read]
    refine iff_of_false ?_ tangled
    rintro ⟨step, _, _, declared⟩
    exact (field_of_declaresOutput declared).1 dotted

theorem Succeeds.resolves_iff {planned : PlannedStep} {recipe : Authored.Recipe}
    (authored : AuthoredIn prepared.recipes prepared.expandedRecipeRefs selected recipe planned)
    {name reference : String} (kept : (name, ParamValue.ref reference) ∈ keptParams planned.step) :
    ResolvesIn plan (normalizeRefForExecution recipe reference) ↔
      Backed host checks input appDefinitions recipe reference := by
  have home := done.recipe_id authored.found
  unfold normalizeRefForExecution Backed
  cases parsed : parseReference reference with
  | none => exact iff_of_false (done.not_resolves_unparsed parsed) id
  | some form =>
      rcases parse_cases parsed with ⟨targetId, rfl⟩ | ⟨leads, ⟨targetId, rfl⟩ | ⟨targetId, field, rfl⟩⟩ |
        ⟨targetId, field, rfl, clean⟩
      · have listed := done.inputId_selected authored kept parsed
        rw [← home] at listed
        rw [resolvesIn_of_read (executionReference_input _), InPlan, done.inputId_in_plan listed,
          done.prepares.effectiveBindings, done.prepares.recipes]
        rfl
      · have valid := done.stepRef_valid (done.authored.mpr ⟨recipe, authored⟩) kept leads
        simp only [validateStepRef, parsed] at valid
        split at valid
        next => exact nomatch valid
        next target found =>
          cases primary : primaryOutput? target with
          | none => simp [primary] at valid
          | some output =>
              have same := (done.target_selected authored found).1
              have output : shorthandOutput recipe targetId = output := by
                rw [shorthandOutput, same, Option.bind_some, primary, Option.getD_some]
              simp only [output]
              exact done.resolves_step_iff authored found (declaresOutput_of_primary primary)
      · have valid := done.stepRef_valid (done.authored.mpr ⟨recipe, authored⟩) kept leads
        simp only [validateStepRef, parsed] at valid
        split at valid
        next => exact nomatch valid
        next target found =>
          split at valid
          next declared => exact done.resolves_step_iff authored found declared
          next => exact nomatch valid
      · have listed := done.artifactId_selected authored kept parsed
        rw [← home] at listed
        rw [resolvesIn_of_read (executionReference_artifact _ clean), InPlan,
          done.mem_plan_artifacts listed, done.prepares.apps, done.prepares.expandedRefs,
          done.prepares.recipes]
        rfl

end

section

open Executor (ExecutionState StepFailure StepRuntimeState resolveRuntimeRef)
open CopyCommit (quoted)

/-- A state of an execution of the plan: its inputs are those of the plan, it knows the artifacts
of the plan, and a step that succeeded has its declared outputs. -/
structure StateOf (plan : ExecutionPlan) (state : ExecutionState) : Prop where
  inputs : state.inputs = (ExecutionState.fromPlan plan).inputs
  artifacts : ∀ artifact ∈ plan.artifacts, (state.artifacts.get? artifact.id).isSome
  outputs : ∀ step ∈ plan.steps, ∀ held, state.steps.get? step.id = some held →
    held.status = .succeeded → ∀ field, declaresOutput step.typeName field = true →
      (held.outputs.get? field).isSome

inductive Waits (refValue : String) : StepFailure → Prop
  | artifact : Waits refValue (.new ("artifact_not_resolved: Artifact is not resolved: " ++
      quoted refValue ++ "."))
  | step : Waits refValue (.new ("unknown_step_ref: Unknown step ref: " ++ quoted refValue ++ "."))
  | output (stepId : String) : Waits refValue (.new ("step_output_unavailable: Step output is " ++
      "unavailable because step " ++ quoted stepId ++ " did not succeed."))

theorem artifactField_isSome (artifact : Executor.ArtifactRuntimeState) {field : String}
    (known : field ∈ runtimeArtifactFields) : (Executor.artifactField artifact field).isSome := by
  simp only [runtimeArtifactFields, List.mem_cons, List.not_mem_nil, or_false] at known
  rcases known with rfl | rfl | rfl | rfl | rfl | rfl <;> rfl

theorem waits_of_resolvesIn {plan : ExecutionPlan} {state : ExecutionState} {refValue : String}
    (holds : StateOf plan state) (resolves : ResolvesIn plan refValue) {failure : StepFailure}
    (failed : resolveRuntimeRef state refValue = .error failure) : Waits refValue failure := by
  obtain ⟨named, read, inside⟩ := resolves
  unfold executionReference at read
  unfold resolveRuntimeRef at failed
  cases inputs : stripLead inputsLead refValue.toList with
  | some inputId =>
      simp only [inputs, Option.mem_def, Option.some.injEq] at read failed
      subst read
      obtain ⟨found, listed, same⟩ := List.mem_map.mp inside
      have known : (state.inputs.get? (String.ofList inputId)).isSome := by
        rw [holds.inputs, OrderedMap.get?_isSome, ← same]
        exact OrderedMap.mem_keys_ofList.mpr (List.mem_map.mpr ⟨_, List.mem_map_of_mem listed, rfl⟩)
      obtain ⟨value, held⟩ := Option.isSome_iff_exists.mp known
      simp [Executor.resolveInputRef, held] at failed
  | none =>
      cases artifacts : stripLead artifactsLead refValue.toList with
      | some body =>
          simp only [inputs, artifacts, Option.mem_def, Option.map_eq_some_iff] at read failed
          obtain ⟨⟨artifactId, field⟩, split, rfl⟩ := read
          obtain ⟨value, held⟩ := Option.isSome_iff_exists.mp (holds.artifacts _ inside.1)
          obtain ⟨content, filled⟩ :=
            Option.isSome_iff_exists.mp (artifactField_isSome value inside.2)
          simp only [Executor.resolveArtifactRef, split, held, Executor.resolveArtifactField,
            filled] at failed
          split at failed
          next => exact nomatch failed
          next => exact Except.error.inj failed ▸ .artifact
      | none =>
          simp only [inputs, artifacts, Option.mem_def, Option.bind_eq_some_iff,
            Option.map_eq_some_iff] at read failed
          obtain ⟨body, stripped, ⟨stepId, field⟩, split, rfl⟩ := read
          obtain ⟨step, member, same, declared⟩ := inside
          simp only [stripped, Executor.resolveStepRef, split] at failed
          cases held : state.steps.get? (String.ofList stepId) with
          | none =>
              simp only [held] at failed
              exact Except.error.inj failed ▸ .step
          | some found =>
              simp only [held, Executor.resolveStepOutput] at failed
              by_cases done : found.status = .succeeded
              · obtain ⟨value, output⟩ := Option.isSome_iff_exists.mp
                  (holds.outputs step member found (same ▸ held) done _ declared)
                simp [done, output] at failed
              · rw [if_neg done] at failed
                exact Except.error.inj failed ▸ .output (String.ofList stepId)

end

section

variable {host : Host} {checks : AuthorityChecks} {input : PlannerInput}
  {appDefinitions : List AppDefinition} {plan : ExecutionPlan} {warnings : List PlannerMessage}

def ExecutionStep.refs (step : ExecutionStep) : List (String × String) :=
  step.params.entries.filterMap fun entry =>
    match entry.2 with
    | .ref refValue => some (entry.1, refValue)
    | .literal _ => none

theorem ExecutionStep.mem_refs {step : ExecutionStep} {name refValue : String} :
    (name, refValue) ∈ step.refs ↔ step.params.get? name = some (.ref refValue) := by
  rw [OrderedMap.get?_eq_some, ExecutionStep.refs, List.mem_filterMap]
  constructor
  · rintro ⟨⟨key, value⟩, member, same⟩
    cases value with
    | ref other =>
        obtain ⟨rfl, rfl⟩ : key = name ∧ other = refValue := by simpa using same
        exact member
    | literal content => exact nomatch same
  · exact fun member => ⟨_, member, rfl⟩

/-- No reference of the plan dangles: each one resolves in the plan, and so it has a value in
every state of an execution or waits for one. -/
structure NoDanglingReference (plan : ExecutionPlan) : Prop where
  resolves : ∀ step ∈ plan.steps, ∀ entry ∈ step.refs, ResolvesIn plan entry.2
  running : ∀ state, StateOf plan state → ∀ step ∈ plan.steps, ∀ entry ∈ step.refs, ∀ failure,
    Executor.resolveRuntimeRef state entry.2 = .error failure → Waits entry.2 failure

/-- A plan has no dangling reference exactly where its Recipes back the references that their
emitted steps keep. -/
theorem noDanglingReference_iff
    (success : planExecutionWithAppDefinitions host checks input appDefinitions =
      .ok (.success plan warnings)) :
    NoDanglingReference plan ↔ ∀ step ∈ plan.steps, ∀ recipe authored,
      Origin input step recipe authored → ∀ name reference,
        (name, ParamValue.ref reference) ∈ keptParams authored →
          Backed host checks input appDefinitions recipe reference := by
  obtain ⟨prepared, selected, chosen, ordered, done⟩ := succeeds_of_success success
  constructor
  · intro whole step member recipe authored origin name reference kept
    obtain ⟨planned, _, found, usage, emitted⟩ := done.emitted member
    obtain ⟨rfl, rfl⟩ := done.origin_unique emitted origin
    refine (done.resolves_iff emitted.authored kept).mp ?_
    exact whole.resolves step member (name, _)
      (ExecutionStep.mem_refs.mpr ((ref_mem_params emitted.params).mpr ⟨reference, kept, rfl⟩))
  · intro backed
    have resolves : ∀ step ∈ plan.steps, ∀ entry ∈ step.refs, ResolvesIn plan entry.2 := by
      intro step member entry listed
      obtain ⟨planned, _, recipe, usage, emitted, origin⟩ := done.origin member
      obtain ⟨reference, kept, same⟩ :=
        (ref_mem_params emitted.params).mp (ExecutionStep.mem_refs.mp listed)
      rw [same]
      exact (done.resolves_iff emitted.authored kept).mpr
        (backed step member recipe planned.step origin entry.1 reference kept)
    refine ⟨resolves, ?_⟩
    intro state holds step member entry listed failure failed
    exact waits_of_resolvesIn holds (resolves step member entry listed) failed

def plannedPlan : Except PlannerPanic PlanningResult → Option ExecutionPlan
  | .ok (.success plan _) => some plan
  | _ => none

theorem plannedPlan_eq_some {result : Except PlannerPanic PlanningResult} :
    plannedPlan result = some plan ↔ ∃ warnings, result = .ok (.success plan warnings) := by
  unfold plannedPlan
  split
  next found other => simp
  next different =>
    simp only [false_iff, not_exists, reduceCtorEq]
    rintro warnings rfl
    exact different plan warnings rfl

def bareHost : Host := ⟨fun _ => none, fun _ => none, none, some "/", id⟩

def lenientChecks : AuthorityChecks := ⟨fun _ => [], fun _ _ _ _ _ _ => true⟩

def fullCapabilities : RuntimeCapabilities :=
  ⟨true, true, true, true, true, true, true, true, none⟩

def plainStep (id typeName : String) (dependencies : List String)
    (params : List (String × ParamValue)) : Authored.Step :=
  ⟨id, typeName, id, none, false, none, dependencies, ⟨[], []⟩, [], .ofList params, []⟩

def plainRecipe (id : String) (inputs : List (String × InputDeclaration))
    (artifacts : List (String × Authored.RecipeArtifact)) (steps : List Authored.Step) :
    Authored.Recipe :=
  ⟨id, [], .ofList inputs, none, .ofList artifacts, .empty, steps⟩

def plainInput (recipe : Authored.Recipe) (bindings : List (String × Json)) : PlannerInput :=
  ⟨[recipe], [recipe.id], ⟨.ofList bindings, .empty, .empty⟩, "plan", none, fullCapabilities, none,
    none⟩

def undeclaredSource : PlannerInput :=
  plainInput (plainRecipe "games" [] [] [plainStep "copy" "copy_files" []
    [("source", .ref "inputs.folder"), ("dest", .literal (.string "/sdcard/games"))]]) []

theorem noDanglingReference_iff_sample : ∃ plan ∈ plannedPlan
    (planExecutionWithAppDefinitions bareHost lenientChecks undeclaredSource []),
      (NoDanglingReference plan ↔ ∀ step ∈ plan.steps, ∀ recipe authored,
        Origin undeclaredSource step recipe authored → ∀ name reference,
          (name, ParamValue.ref reference) ∈ keptParams authored →
            Backed bareHost lenientChecks undeclaredSource [] recipe reference) := by
  have planned : (plannedPlan (planExecutionWithAppDefinitions bareHost lenientChecks
      undeclaredSource [])).isSome = true := by decide +kernel
  obtain ⟨plan, planned⟩ := Option.isSome_iff_exists.mp planned
  obtain ⟨warnings, success⟩ := plannedPlan_eq_some.mp planned
  exact ⟨plan, planned, noDanglingReference_iff success⟩

theorem undeclaredSource_dangles : ∃ plan ∈ plannedPlan
    (planExecutionWithAppDefinitions bareHost lenientChecks undeclaredSource []),
      ¬ NoDanglingReference plan := by
  have dangling : ∃ plan ∈ plannedPlan
      (planExecutionWithAppDefinitions bareHost lenientChecks undeclaredSource []),
      ∃ step ∈ plan.steps, ∃ entry ∈ step.refs, ¬ ResolvesIn plan entry.2 := by
    decide +kernel
  obtain ⟨plan, planned, step, member, entry, listed, dangles⟩ := dangling
  exact ⟨plan, planned, fun whole => dangles (whole.resolves step member entry listed)⟩

end

end EmuChef.Planner
