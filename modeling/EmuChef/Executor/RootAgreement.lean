import EmuChef.Executor.RootRequirements

/-! When the typed and the serialized root classification of a plan agree. -/

namespace EmuChef.Executor

open Planner

theorem classifyRootRequirementStep_any {facts : RootRequirementStep} :
    (classifyRootRequirementStep facts).any = true ↔
      (facts.operation ≠ .grantPermissions ∧
        (facts.rootShellConstraint = true ∨ facts.appDataWriteConstraint = true)) ∨
      facts.conditionRequiresRoot = true ∨ facts.permissionPlanRequiresRoot = true ∨
      (facts.operation = .copyFiles ∧ facts.sourceRequiresRoot = true) ∨
      ((facts.operation = .copyFiles ∨
        facts.operation = .extractArchive ∧ facts.extractsToDevice = true) ∧
        facts.destinationRequiresRoot = true) := by
  obtain ⟨operation, shell, data, permission, condition, source, destination, device⟩ := facts
  cases operation <;>
    simp [classifyRootRequirementStep, constraintRequirements, operationRequirements,
      RootRequirements.any] <;> tauto

theorem rootWorkOperation_eq_copyFiles {stepType : String} :
    rootWorkOperation stepType = .copyFiles ↔ stepType = "copy_files" := by
  unfold rootWorkOperation
  split <;> simp_all

theorem rootWorkOperation_eq_extractArchive {stepType : String} :
    rootWorkOperation stepType = .extractArchive ↔ stepType = "extract_archive" := by
  unfold rootWorkOperation
  split <;> simp_all

theorem rootWorkOperation_eq_grantPermissions {stepType : String} :
    rootWorkOperation stepType = .grantPermissions ↔ stepType = "grant_permissions" := by
  unfold rootWorkOperation
  split <;> simp_all

theorem rootRequirementConstraints_iff {capabilities : List String} :
    ((rootRequirementConstraints capabilities).1 = true ↔ "root_shell" ∈ capabilities) ∧
      ((rootRequirementConstraints capabilities).2 = true ↔ "app_data_write" ∈ capabilities) := by
  suffices general : ∀ found : Bool × Bool,
      ((capabilities.foldl (fun found capability => (found.1 || decide (capability = "root_shell"),
          found.2 || decide (capability = "app_data_write"))) found).1 = true ↔
        found.1 = true ∨ "root_shell" ∈ capabilities) ∧
      ((capabilities.foldl (fun found capability => (found.1 || decide (capability = "root_shell"),
          found.2 || decide (capability = "app_data_write"))) found).2 = true ↔
        found.2 = true ∨ "app_data_write" ∈ capabilities) by
    simpa [rootRequirementConstraints] using general (false, false)
  induction capabilities with
  | nil => simp
  | cons capability rest ih =>
      intro found
      obtain ⟨shell, data⟩ := ih (found.1 || decide (capability = "root_shell"),
        found.2 || decide (capability = "app_data_write"))
      rw [List.foldl_cons]
      refine ⟨shell.trans ?_, data.trans ?_⟩
      · rw [Bool.or_eq_true, decide_eq_true_iff, or_assoc, List.mem_cons, @eq_comm _ capability]
      · rw [Bool.or_eq_true, decide_eq_true_iff, or_assoc, List.mem_cons, @eq_comm _ capability]

section

variable {plan : ExecutionPlan} {step : ExecutionStep}

theorem inputs_toJson : arrayField plan.toJson "inputs" =
    plan.inputs.map ExecutionInputValue.toJson := by
  simp [arrayField, ExecutionPlan.toJson, Json.asArray]

theorem steps_toJson : arrayField plan.toJson "steps" = plan.steps.map ExecutionStep.toJson := by
  simp [arrayField, ExecutionPlan.toJson, Json.asArray]

theorem type_toJson : step.toJson.field? "type" = some (.string step.typeName) := by
  simp [ExecutionStep.toJson]

theorem constraints_toJson : step.toJson.field? "constraints" = some step.constraints.toJson := by
  simp [ExecutionStep.toJson]

theorem permissionPlan_toJson : step.toJson.field? "permission_plan" =
    step.permissionPlan.map PermissionPlan.toJson := by
  simp [ExecutionStep.toJson]

theorem params_toJson : step.toJson.field? "params" =
    some (Json.ofMap ExecutionParamValue.toJson step.params) := by
  simp [ExecutionStep.toJson]

theorem skipIf_toJson : arrayField step.toJson "skip_if" =
    step.skipIf.map ExecutionStepCondition.toJson := by
  simp [arrayField, ExecutionStep.toJson, Json.asArray]

theorem verify_toJson : arrayField step.toJson "verify" =
    step.verify.map ExecutionStepCondition.toJson := by
  simp [arrayField, ExecutionStep.toJson, Json.asArray]

theorem jsonConstraintRequirements_toJson : jsonConstraintRequirements step.toJson =
    rootRequirementConstraints step.constraints.capabilities := by
  have texts : ∀ capabilities : List String,
      (capabilities.map Json.string).filterMap Json.asStr = capabilities := by
    intro capabilities
    induction capabilities with
    | nil => rfl
    | cons capability rest ih => simp [Json.asStr, ih]
  simp [jsonConstraintRequirements, constraints_toJson, ExecutionStepConstraints.toJson,
    Json.strings, Json.asArray, texts]

theorem jsonConditionRequiresRoot_toJson (condition : ExecutionStepCondition) :
    jsonConditionRequiresRoot condition.toJson = conditionRequiresRoot condition := by
  simp [jsonConditionRequiresRoot, ExecutionStepCondition.toJson, conditionRequiresRoot, Json.asStr]

theorem applicability_toJson (action : PermissionPlanAction) :
    action.toJson.field? "applicability" = some action.applicability.toJson := by
  cases action <;> simp [PermissionPlanAction.toJson, PermissionPlanAction.applicability]

theorem jsonActionMayApply_toJson (action : PermissionPlanAction) :
    jsonActionMayApply action.toJson = (action.applicability = .applicable : Bool) := by
  simp only [jsonActionMayApply, applicability_toJson, Option.bind_some]
  cases action.applicability <;> simp [PermissionActionApplicability.toJson, Json.asStr]

theorem jsonPermissionPlanRequiresRoot_toJson : jsonPermissionPlanRequiresRoot step.toJson =
    step.permissionPlan.any permissionPlanRequiresRoot := by
  simp only [jsonPermissionPlanRequiresRoot, permissionPlan_toJson]
  cases step.permissionPlan with
  | none => rfl
  | some permissionPlan =>
      obtain ⟨kind, policy, actions⟩ := permissionPlan
      cases kind with
      | baseline =>
          simp [PermissionPlan.toJson, PermissionSetKind.toJson, Json.asStr,
            permissionPlanRequiresRoot]
      | elevated =>
          simp [PermissionPlan.toJson, PermissionSetKind.toJson, Json.asStr, Json.asArray,
            permissionPlanRequiresRoot, PermissionPlan.hasApplicableActions, List.any_map,
            Function.comp_def, jsonActionMayApply_toJson]

theorem jsonInputRuntimeValue_toJson (refValue : String) :
    jsonInputRuntimeValue (plan.inputs.map ExecutionInputValue.toJson) refValue =
      (inputRuntimeValue plan refValue).map RuntimeValue.toJson := by
  unfold jsonInputRuntimeValue inputRuntimeValue
  split
  next => rfl
  next inputId found =>
    split
    next => rfl
    next =>
      induction plan.inputs with
      | nil => rfl
      | cons input rest ih =>
          by_cases same : input.id = String.ofList inputId
          · simp [ExecutionInputValue.toJson, Json.asStr, same]
          · have later := ih
            simp only [List.map_cons, List.find?_cons]
            have key : (input.toJson.field? "id").bind Json.asStr = some input.id := by
              simp [ExecutionInputValue.toJson, Json.asStr]
            simpa [key, same] using later

theorem jsonParamRef_toJson (param : ExecutionParamValue) : jsonParamRef param.toJson =
    match param with
    | .ref refValue => some refValue
    | .literal _ => none := by
  cases param <;> simp [jsonParamRef, ExecutionParamValue.toJson, Json.asStr]

theorem location_toJson (value : RuntimeValue) :
    (value.toJson.field? "location").bind Json.asStr = value.location := by
  cases location : value.location <;>
    simp [RuntimeValue.toJson, location, optionalText, Json.asStr]

theorem value_toJson (value : RuntimeValue) : value.toJson.field? "value" = some value.value := by
  simp [RuntimeValue.toJson]

theorem runtimeValueJsonIsAppPrivateDevicePath_eq (value : Json) :
    runtimeValueJsonIsAppPrivateDevicePath value = jsonRuntimeValueRequiresRoot value := by
  cases value <;> rfl

theorem jsonRuntimeValueRequiresRoot_toJson (value : RuntimeValue) :
    jsonRuntimeValueRequiresRoot value.toJson = runtimeValueDeviceValueRequiresRoot value := by
  simp only [jsonRuntimeValueRequiresRoot, location_toJson, value_toJson,
    runtimeValueDeviceValueRequiresRoot]

theorem jsonSourceRequiresRoot_toJson (param : ExecutionParamValue) :
    (jsonParamRuntimeValue (plan.inputs.map ExecutionInputValue.toJson) param.toJson).any
      jsonRuntimeValueRequiresRoot = executionParamRuntimeValueRequiresRoot plan param := by
  cases param with
  | ref refValue =>
      simp only [jsonParamRuntimeValue, jsonParamRef_toJson, jsonInputRuntimeValue_toJson,
        executionParamRuntimeValueRequiresRoot, Option.any_map, jsonRuntimeValueRequiresRoot_toJson]
  | literal value =>
      simp only [jsonParamRuntimeValue, jsonParamRef_toJson, executionParamRuntimeValueRequiresRoot,
        runtimeValueJsonIsAppPrivateDevicePath_eq, Option.any_some]
      simp [jsonParamLiteral, ExecutionParamValue.toJson]

def paramText (plan : ExecutionPlan) : ExecutionParamValue → Option String
  | .literal value => value.asStr
  | .ref refValue => (inputRuntimeValue plan refValue).bind fun value => value.value.asStr

theorem jsonParamString_toJson (param : ExecutionParamValue) :
    jsonParamString (plan.inputs.map ExecutionInputValue.toJson) param.toJson =
      paramText plan param := by
  cases param with
  | ref refValue =>
      simp only [jsonParamString, jsonParamRef_toJson, jsonInputRuntimeValue_toJson, paramText]
      cases inputRuntimeValue plan refValue with
      | none => rfl
      | some value => simp [value_toJson]
  | literal value =>
      simp only [jsonParamString, jsonParamRef_toJson, paramText]
      simp [jsonParamLiteral, ExecutionParamValue.toJson]

theorem executionParamIsString_eq (expected : String) (param : ExecutionParamValue) :
    executionParamIsString plan expected param = (paramText plan param = some expected : Bool) := by
  cases param <;> rfl

theorem jsonStepFacts_toJson (isDir : String → Bool) :
    jsonStepFacts (plan.inputs.map ExecutionInputValue.toJson) step.toJson =
      { planStepFacts isDir plan step with
        rootShellConstraint := (rootRequirementConstraints step.constraints.capabilities).1
        destinationRequiresRoot := (step.params.get? "dest").any fun param =>
          (paramText plan param).any isAppPrivatePath } := by
  simp only [jsonStepFacts, type_toJson, Option.some_or, Option.bind_some, Json.asStr,
    Option.map_some, Option.getD_some, jsonConstraintRequirements_toJson,
    jsonPermissionPlanRequiresRoot_toJson, skipIf_toJson, verify_toJson, params_toJson,
    Json.field?_ofMap, planStepFacts, RootRequirementStep.mk.injEq, true_and]
  refine ⟨?_, ?_, ?_, ?_⟩
  · simp [List.any_append, List.any_map, Function.comp_def, jsonConditionRequiresRoot_toJson]
  · cases step.params.get? "source" with
    | none => rfl
    | some param => simpa using jsonSourceRequiresRoot_toJson param
  · cases step.params.get? "dest" with
    | none => rfl
    | some param => simp [jsonDestinationRequiresRoot, jsonParamString_toJson]
  · cases step.params.get? "extract_on" with
    | none => rfl
    | some param => simp [jsonParamString_toJson, executionParamIsString_eq]

end

section

variable (isDir : String → Bool) (plan : ExecutionPlan) (step : ExecutionStep)

/-- The step copies to, or extracts on the device to, a path in the private storage of an app
that is given literally or by an input on the device. -/
def WritesAppPrivate : Prop :=
  (step.typeName = "copy_files" ∨ step.typeName = "extract_archive" ∧
    ∃ param, step.params.get? "extract_on" = some param ∧ paramText plan param = some "device") ∧
  ∃ param, step.params.get? "dest" = some param ∧
    executionParamDestinationRequiresRoot plan param = true

def NeedsRoot : Prop :=
  (step.typeName ≠ "grant_permissions" ∧ ("root_shell" ∈ step.constraints.capabilities ∨
    "app_data_write" ∈ step.constraints.capabilities)) ∨
  (∃ condition ∈ step.skipIf ++ step.verify, conditionRequiresRoot condition = true) ∨
  (∃ permissionPlan, step.permissionPlan = some permissionPlan ∧
    permissionPlan.permissionSet = .elevated ∧ (permissionPlan.actions = [] ∨
      ∃ action ∈ permissionPlan.actions, action.applicability = .applicable)) ∨
  (step.typeName = "copy_files" ∧ ∃ param, step.params.get? "source" = some param ∧
    executionParamRuntimeValueRequiresRoot plan param = true) ∨
  WritesAppPrivate plan step

def WritesSharedDirectory : Prop :=
  step.typeName = "copy_files" ∧ ∃ params,
    resolveStepParams (.fromPlan plan) step.params = .ok params ∧
      copyCommitDestinationKind isDir step params = .ok (some .sharedDevicePath)

/-- The step copies or extracts to a path in the private storage of an app that it reads from
an input whose location is not the device. -/
def WritesOffDevice : Prop :=
  (step.typeName = "copy_files" ∨ step.typeName = "extract_archive" ∧
    ∃ param, step.params.get? "extract_on" = some param ∧ paramText plan param = some "device") ∧
  ∃ refValue value path, step.params.get? "dest" = some (.ref refValue) ∧
    inputRuntimeValue plan refValue = some value ∧ value.location ≠ some "device" ∧
    value.value = .string path ∧ isAppPrivatePath path = true

variable {isDir} {plan} {step}

theorem shared_last {grants shell data copies shared rest : Prop} (different : copies → ¬grants) :
    ((¬grants ∧ ((shell ∨ copies ∧ shared) ∨ data)) ∨ rest) ↔
      ((¬grants ∧ (shell ∨ data)) ∨ rest) ∨ copies ∧ shared := by
  tauto

theorem any_executionParamIsString : (step.params.get? "extract_on").any
    (executionParamIsString plan "device") = true ↔
      ∃ param, step.params.get? "extract_on" = some param ∧ paramText plan param = some "device" := by
  simp [Option.any_eq_true, executionParamIsString_eq]

theorem hasSharedDestination_iff : hasSharedDestination isDir plan step = true ↔
    ∃ params, resolveStepParams (.fromPlan plan) step.params = .ok params ∧
      copyCommitDestinationKind isDir step params = .ok (some .sharedDevicePath) := by
  unfold hasSharedDestination
  split
  next params resolved =>
    simp only [resolved, Except.ok.injEq, exists_eq_left']
    unfold isSharedDevicePath
    split <;> simp_all
  next failed => simp [failed]

theorem permissionPlanRequiresRoot_iff : step.permissionPlan.any permissionPlanRequiresRoot = true ↔
    ∃ permissionPlan, step.permissionPlan = some permissionPlan ∧
      permissionPlan.permissionSet = .elevated ∧ (permissionPlan.actions = [] ∨
        ∃ action ∈ permissionPlan.actions, action.applicability = .applicable) := by
  simp [Option.any_eq_true, permissionPlanRequiresRoot, PermissionPlan.hasApplicableActions]

theorem any_param {name : String} {holds : ExecutionParamValue → Bool} :
    (step.params.get? name).any holds = true ↔
      ∃ param, step.params.get? name = some param ∧ holds param = true := by
  simp [Option.any_eq_true]

theorem any_condition : (step.skipIf ++ step.verify).any conditionRequiresRoot = true ↔
    ∃ condition ∈ step.skipIf ++ step.verify, conditionRequiresRoot condition = true :=
  List.any_eq_true

theorem planStepRootRequirements_any : (planStepRootRequirements isDir plan step).any = true ↔
    NeedsRoot plan step ∨ WritesSharedDirectory isDir plan step := by
  obtain ⟨shell, data⟩ := @rootRequirementConstraints_iff step.constraints.capabilities
  have different : step.typeName = "copy_files" → ¬ step.typeName = "grant_permissions" := by
    intro copies grants
    exact absurd (copies.symm.trans grants) (by decide)
  rw [planStepRootRequirements, classifyRootRequirementStep_any]
  simp only [planStepFacts, ne_eq, rootWorkOperation_eq_grantPermissions,
    rootWorkOperation_eq_copyFiles, rootWorkOperation_eq_extractArchive, Bool.or_eq_true, shell, data,
    Bool.and_eq_true, decide_eq_true_eq]
  rw [hasSharedDestination_iff, any_executionParamIsString, permissionPlanRequiresRoot_iff,
    any_condition, any_param, any_param, NeedsRoot, WritesSharedDirectory, WritesAppPrivate]
  exact shared_last different

theorem jsonDestination_iff : ((step.params.get? "dest").any fun param =>
      (paramText plan param).any isAppPrivatePath) = true ↔
    (∃ param, step.params.get? "dest" = some param ∧
      executionParamDestinationRequiresRoot plan param = true) ∨
    ∃ refValue value path, step.params.get? "dest" = some (.ref refValue) ∧
      inputRuntimeValue plan refValue = some value ∧ value.location ≠ some "device" ∧
      value.value = .string path ∧ isAppPrivatePath path = true := by
  cases found : step.params.get? "dest" with
  | none => simp
  | some param =>
      cases param with
      | literal value => simp [paramText, executionParamDestinationRequiresRoot]
      | ref refValue =>
          cases stored : inputRuntimeValue plan refValue with
          | none => simp [paramText, executionParamDestinationRequiresRoot, stored]
          | some value =>
              simp only [Option.any_some, paramText, stored, Option.bind_some, Option.some.injEq,
                ExecutionParamValue.ref.injEq, exists_eq_left', executionParamDestinationRequiresRoot,
                runtimeValueDevicePathRequiresRoot, Bool.and_eq_true, decide_eq_true_eq]
              have text : value.value.asStr.any isAppPrivatePath = true ↔
                  ∃ path, value.value = .string path ∧ isAppPrivatePath path = true := by
                cases value.value <;> simp [Json.asStr]
              rw [text]
              constructor
              · rintro ⟨path, same, isPrivate⟩
                by_cases device : value.location = some "device"
                · exact .inl ⟨device, path, same, isPrivate⟩
                · exact .inr ⟨refValue, value, path, rfl, stored, device, same, isPrivate⟩
              · rintro (⟨_, path, same, isPrivate⟩ | ⟨other, held, path, rfl, found, _, same, isPrivate⟩)
                · exact ⟨path, same, isPrivate⟩
                · obtain rfl : value = held := Option.some.inj (stored.symm.trans found)
                  exact ⟨path, same, isPrivate⟩

theorem off_last {constraint condition permission source writes device other : Prop} :
    (constraint ∨ condition ∨ permission ∨ source ∨ writes ∧ (device ∨ other)) ↔
      (constraint ∨ condition ∨ permission ∨ source ∨ writes ∧ device) ∨ writes ∧ other := by
  tauto

theorem jsonStepRootRequirements_any : (jsonStepRootRequirements
      (plan.inputs.map ExecutionInputValue.toJson) step.toJson).any = true ↔
    NeedsRoot plan step ∨ WritesOffDevice plan step := by
  obtain ⟨shell, data⟩ := @rootRequirementConstraints_iff step.constraints.capabilities
  rw [jsonStepRootRequirements, jsonStepFacts_toJson fun _ => true, classifyRootRequirementStep_any]
  simp only [planStepFacts, ne_eq, rootWorkOperation_eq_grantPermissions,
    rootWorkOperation_eq_copyFiles, rootWorkOperation_eq_extractArchive, shell, data]
  rw [any_executionParamIsString, permissionPlanRequiresRoot_iff, jsonDestination_iff, any_condition,
    any_param, NeedsRoot, WritesOffDevice, WritesAppPrivate]
  exact off_last

theorem agree_iff {common first second : Prop} :
    ((common ∨ first) ↔ (common ∨ second)) ↔ common ∨ (first ↔ second) := by
  tauto

/-- The typed and the serialized classification answer alike exactly when a fact that both
read asks for root, or when neither or both of the facts that only one of them reads do. -/
theorem reviewedPlanRequiresRoot_agrees_iff (isDir : String → Bool) (plan : ExecutionPlan) :
    reviewedPlanRequiresRoot isDir plan = reviewedPlanRequiresRootJson plan.toJson ↔
      (∃ step ∈ plan.steps, NeedsRoot plan step) ∨
      ((∃ step ∈ plan.steps, WritesSharedDirectory isDir plan step) ↔
        ∃ step ∈ plan.steps, WritesOffDevice plan step) := by
  have typed : reviewedPlanRequiresRoot isDir plan = true ↔
      (∃ step ∈ plan.steps, NeedsRoot plan step) ∨
        ∃ step ∈ plan.steps, WritesSharedDirectory isDir plan step := by
    simp only [reviewedPlanRequiresRoot, List.any_eq_true, planStepRootRequirements_any, and_or_left,
      exists_or]
  have serialized : reviewedPlanRequiresRootJson plan.toJson = true ↔
      (∃ step ∈ plan.steps, NeedsRoot plan step) ∨
        ∃ step ∈ plan.steps, WritesOffDevice plan step := by
    simp only [reviewedPlanRequiresRootJson, inputs_toJson, steps_toJson, List.any_map,
      List.any_eq_true, Function.comp_apply, jsonStepRootRequirements_any, and_or_left, exists_or]
  rw [Bool.eq_iff_iff, typed, serialized]
  exact agree_iff

def sharedCopyPlan : ExecutionPlan :=
  { id := "plan"
    apps := []
    copyCommitSnapshots := []
    runtimeCapabilities := ⟨true, true, true, true, true, true, false, false, none⟩
    inputs := [⟨"roms/folder", ⟨"directory_path", .string "/home/user/roms", some "host"⟩⟩]
    artifacts := []
    steps := [
      { id := "roms/copy"
        recipeRef := "roms"
        appId := none
        typeName := "copy_files"
        name := "Copy"
        note := ""
        dependencies := []
        constraints := ⟨["shared_storage_write"], []⟩
        permissionPlan := none
        params := .ofList [("copy_policy", .literal (.string "merge")),
          ("dest", .literal (.string "/sdcard/roms")), ("source", .ref "inputs.roms/folder")]
        skipIf := []
        verify := [] }] }

/-- The typed classification sees root work where the serialized one sees none. -/
theorem not_agrees_sharedCopy :
    reviewedPlanRequiresRoot (fun path => path = "/home/user/roms") sharedCopyPlan = true ∧
      reviewedPlanRequiresRootJson sharedCopyPlan.toJson = false := by
  decide

end

end EmuChef.Executor
