import EmuChef.Planner.StepParams

/-! The contracts of the parameters of authored steps, of the artifacts they select and of the
references between them. -/

namespace EmuChef.Planner

def paramValueToJson : ParamValue → Json
  | .ref reference => .object [("ref", .string reference)]
  | .appTarget targetId => .object [("app_target", .string targetId)]
  | .literal value => value

/-- An authored step under the id that the plan gives it, with the Recipe it belongs to. -/
structure PlannedStep where
  id : String
  recipeId : String
  step : Authored.Step

section

variable (recipes : OrderedMap String Authored.Recipe) (recipeId : String) (step : Authored.Step)
  (normalized : OrderedMap String ParamValue)

def paramContractMessage (code message paramName : String) (expected actual : Json) :
    PlannerMessage :=
  { code := code
    message := message
    details := .object [("recipe_ref", .string recipeId), ("step_id", .string step.id),
      ("step_type", .string step.typeName), ("param", .string paramName), ("expected", expected),
      ("actual", actual)] }

def paramMessage (paramName text : String) : String :=
  "Param '" ++ paramName ++ "' " ++ text ++ " for step type '" ++ step.typeName ++ "'."

def unknownParams (spec : StepSpec) : List String :=
  (step.params.keys.filter fun name => (spec.param? name).isNone).insertionSort (· ≤ ·)

def validateUnknownParams (spec : StepSpec) : List PlannerMessage :=
  (unknownParams step spec).map fun name =>
    paramContractMessage recipeId step "unknown_param"
      ("Param '" ++ name ++ "' is not supported for step type '" ++ step.typeName ++ "'.") name
      (Json.strings (spec.params.map Prod.fst))
      (((step.params.get? name).map paramValueToJson).getD .null)

def validateRefParamContract (paramName refValue : String) (spec : StepParam) :
    List PlannerMessage :=
  match parseReference refValue with
  | none => []
  | some reference =>
      if reference.sourceKind ∉ spec.acceptedSources then
        [paramContractMessage recipeId step "invalid_param_source"
          (paramMessage step paramName ("does not accept " ++ reference.sourceKind ++ " values"))
          paramName (Json.strings spec.acceptedSources) (paramValueToJson (.ref refValue))]
      else
        match (recipes.get? recipeId).bind fun recipe => referenceValueType recipe reference with
        | none => []
        | some valueType =>
            if valueType ∈ spec.acceptedValueTypes then []
            else [paramContractMessage recipeId step "invalid_param_value_type"
              (paramMessage step paramName ("does not accept value type '" ++ valueType ++ "'"))
              paramName (Json.strings spec.acceptedValueTypes)
              (.object [("ref", .string refValue), ("valueType", .string valueType)])]

def invalidParamSource (paramName what : String) (spec : StepParam) (value : ParamValue) :
    PlannerMessage :=
  paramContractMessage recipeId step "invalid_param_source"
    (paramMessage step paramName ("does not accept " ++ what)) paramName
    (Json.strings spec.acceptedSources) (paramValueToJson value)

def validateSpecParamContract (paramName : String) (spec : StepParam) : List PlannerMessage :=
  match normalized.get? paramName with
  | none => []
  | some (.ref refValue) => validateRefParamContract recipes recipeId step paramName refValue spec
  | some (.appTarget targetId) =>
      if "app_target" ∈ spec.acceptedSources then []
      else [invalidParamSource recipeId step paramName "App Targets" spec (.appTarget targetId)]
  | some (.literal value) =>
      if "literal" ∈ spec.acceptedSources then []
      else [invalidParamSource recipeId step paramName "literal values" spec (.literal value)]

def validateSpecParamContracts (spec : StepSpec) : List PlannerMessage :=
  spec.params.flatMap fun entry =>
    validateSpecParamContract recipes recipeId step normalized entry.1 entry.2

end

section

variable (recipes : OrderedMap String Authored.Recipe) (recipeId : String) (step : Authored.Step)
  (normalized : OrderedMap String ParamValue)

def requireParam (paramName : String) (expected : Json) : List PlannerMessage :=
  if normalized.contains paramName then []
  else [paramContractMessage recipeId step "missing_required_param"
    (paramMessage step paramName "is required") paramName expected .null]

def validateGivenParam (lenient : Bool) (accepts : ParamValue → Bool)
    (code text paramName : String) (expected : Json) : List PlannerMessage :=
  match normalized.get? paramName with
  | none => []
  | some value =>
      if (lenient ∧ value.reference?.isSome) ∨ accepts value then []
      else [paramContractMessage recipeId step code (paramMessage step paramName text) paramName
        expected (paramValueToJson value)]

def isLiteral : ParamValue → Bool
  | .literal _ => true
  | _ => false

def isLiteralList : ParamValue → Bool
  | .literal value => value.isArray
  | _ => false

def isLiteralBool : ParamValue → Bool
  | .literal value => value.isBoolean
  | _ => false

def literalString : Option ParamValue → Option String
  | some (.literal value) => value.asStr
  | _ => none

def isLiteralOf (allowed : List String) (value : ParamValue) : Bool :=
  (literalString (some value)).any fun text => text ∈ allowed

def isPositiveInteger (value : Json) : Bool :=
  match value with
  | .integer held => value.isInteger64 && 0 < held
  | _ => false

def isLiteralPositiveInteger : ParamValue → Bool
  | .literal value => isPositiveInteger value
  | _ => false

def validateLiteralModeIfPresent (paramName : String) (expected : Json) : List PlannerMessage :=
  validateGivenParam recipeId step normalized false isLiteral "invalid_param_mode"
    "must be a literal" paramName expected

def validateLiteralListParam (paramName : String) : List PlannerMessage :=
  validateGivenParam recipeId step normalized true isLiteralList "invalid_param_value"
    "must be a literal list" paramName (.string "literal list")

def validateBoolParam (paramName : String) : List PlannerMessage :=
  validateGivenParam recipeId step normalized true isLiteralBool "invalid_param_value"
    "must be a literal bool" paramName (.string "literal bool")

def validateEnumParam (paramName : String) (allowed : List String) : List PlannerMessage :=
  validateGivenParam recipeId step normalized true (isLiteralOf allowed) "invalid_enum_value"
    ("must be one of " ++ ", ".intercalate allowed) paramName (Json.strings allowed)

def validateCopyFilesParamValues : List PlannerMessage :=
  requireParam recipeId step normalized "source"
      (Json.strings ["input_ref", "artifact_ref", "step_output_ref"]) ++
    (requireParam recipeId step normalized "dest" (Json.strings ["literal", "input_ref"]) ++
      validateEnumParam recipeId step normalized "copy_policy" ["merge", "replace", "sync"])

def normalizedArtifactSelectionIsEmpty : Bool :=
  let groups := stringList (normalized.get? "artifact_groups")
  let selected := stringList (normalized.get? "artifacts")
  match recipes.get? recipeId with
  | some recipe =>
      (selected ++ groups.flatMap fun groupId =>
        (recipe.artifactGroups.get? groupId).getD [groupId]).isEmpty
  | none => (selected ++ groups).isEmpty

def validateExtractArtifactsParamValues : List PlannerMessage :=
  let errors := validateLiteralListParam recipeId step normalized "artifacts" ++
    (validateLiteralListParam recipeId step normalized "artifact_groups" ++
      validateEnumParam recipeId step normalized "extract_on" ["host", "device"])
  if errors = [] ∧ normalizedArtifactSelectionIsEmpty recipes recipeId normalized then
    [paramContractMessage recipeId step "missing_required_param"
      "Param 'artifacts' must select at least one artifact directly or through artifact_groups."
      "artifacts" (.string "literal list via artifacts or artifact_groups") .null]
  else errors

def hostOnlyParamErrors (paramName : String) : List PlannerMessage :=
  match step.params.get? paramName with
  | none => []
  | some value => [paramContractMessage recipeId step "invalid_param_value"
      ("Param '" ++ paramName ++ "' is only valid when extract_archive.extract_on is 'device'.")
      paramName (.string "only valid when extract_on is device") (paramValueToJson value)]

def validateExtractArchiveParamValues : List PlannerMessage :=
  requireParam recipeId step normalized "archive" (.string "ref") ++
    (validateEnumParam recipeId step normalized "extract_on" ["host", "device"] ++
      (validateBoolParam recipeId step normalized "cleanup" ++
        match literalString (normalized.get? "extract_on") with
        | some "device" =>
            let deviceOnly := Json.string "literal when extract_on is device"
            requireParam recipeId step normalized "dest" deviceOnly ++
              (validateLiteralModeIfPresent recipeId step normalized "dest" deviceOnly ++
                validateLiteralModeIfPresent recipeId step normalized "device_temp_path"
                  (.string "literal"))
        | some "host" => ["dest", "device_temp_path"].flatMap (hostOnlyParamErrors recipeId step)
        | _ => []))

def validateInstallApkParamValues : List PlannerMessage :=
  requireParam recipeId step normalized "app" (.string "ref") ++
    validateBoolParam recipeId step normalized "replace_existing"

def validateWaitParamValues : List PlannerMessage :=
  let expected := Json.string "literal positive integer"
  requireParam recipeId step normalized "duration_ms" expected ++
    validateGivenParam recipeId step normalized true isLiteralPositiveInteger "invalid_param_value"
      "must be a positive integer" "duration_ms" expected

end

section

variable (recipeId : String) (step : Authored.Step) (normalized : OrderedMap String ParamValue)

def permissionParamMessage (code text paramName : String) (expected actual : Json) :
    PlannerMessage :=
  paramContractMessage recipeId step code ("Param '" ++ paramName ++ "' " ++ text) paramName expected
    actual

def validatePermissionSetParam : List PlannerMessage :=
  let expected := Json.strings ["baseline", "elevated"]
  match normalized.get? "permission_set" with
  | some (.literal (.string value)) =>
      if value = "baseline" ∨ value = "elevated" then []
      else [permissionParamMessage recipeId step "invalid_enum_value"
        "must be one of baseline, elevated for step type 'grant_permissions'." "permission_set"
        expected (.string value)]
  | some actual => [permissionParamMessage recipeId step "invalid_param_value"
      "must be a literal set name for step type 'grant_permissions'." "permission_set" expected
      (paramValueToJson actual)]
  | none => [permissionParamMessage recipeId step "missing_required_param"
      "is required for app-aware step type 'grant_permissions'." "permission_set" expected .null]

def unsupportedPolicyFields (policy : List (String × Json)) : List String :=
  ((policy.map Prod.fst).filter fun name => name ≠ "on_failure").insertionSort (· ≤ ·)

def validatePolicyFields (policy : List (String × Json)) : List PlannerMessage :=
  (unsupportedPolicyFields policy).map fun name =>
    paramContractMessage recipeId step "invalid_param_value"
      ("Param 'policy' contains unsupported field '" ++ name ++ "' for app-aware permission steps.")
      ("policy." ++ name) (Json.strings ["on_failure"]) (((Json.object policy).field? name).getD .null)

def validateFailurePolicy (policy : List (String × Json)) : List PlannerMessage :=
  let expected := Json.strings ["warn", "fail"]
  match (Json.object policy).field? "on_failure" with
  | some actual =>
      if actual.asStr = some "warn" ∨ actual.asStr = some "fail" then []
      else [permissionParamMessage recipeId step "invalid_enum_value"
        "must be one of warn, fail for step type 'grant_permissions'." "policy.on_failure" expected
        actual]
  | none => [permissionParamMessage recipeId step "missing_required_param"
      "is required for app-aware step type 'grant_permissions'." "policy.on_failure" expected .null]

def validateAppPermissionParamValues : List PlannerMessage :=
  let expected := Json.object [("on_failure", Json.strings ["warn", "fail"])]
  validatePermissionSetParam recipeId step normalized ++
    match normalized.get? "policy" with
    | none => [permissionParamMessage recipeId step "missing_required_param"
        "is required for app-aware step type 'grant_permissions'." "policy" expected .null]
    | some (.literal (.object policy)) =>
        validatePolicyFields recipeId step policy ++ validateFailurePolicy recipeId step policy
    | some value => [permissionParamMessage recipeId step "invalid_param_value"
        "must be an object for app-aware step type 'grant_permissions'." "policy" expected
        (paramValueToJson value)]

end

section

variable (recipes : OrderedMap String Authored.Recipe)

def validateFocusedParamValues (recipeId : String) (step : Authored.Step)
    (normalized : OrderedMap String ParamValue) : List PlannerMessage :=
  match step.typeName with
  | "copy_files" => validateCopyFilesParamValues recipeId step normalized
  | "extract_artifacts" => validateExtractArtifactsParamValues recipes recipeId step normalized
  | "extract_archive" => validateExtractArchiveParamValues recipeId step normalized
  | "install_apk" => validateInstallApkParamValues recipeId step normalized
  | "grant_permissions" => validateAppPermissionParamValues recipeId step normalized
  | "wait" => validateWaitParamValues recipeId step normalized
  | _ => []

def validateParamContract (recipeId : String) (step : Authored.Step) : List PlannerMessage :=
  match stepSpecFor step.typeName with
  | none => []
  | some spec =>
      let normalized := paramsWithDefaults step
      validateUnknownParams recipeId step spec ++
        (validateSpecParamContracts recipes recipeId step normalized spec ++
          validateFocusedParamValues recipes recipeId step normalized)

def emittedStepTypes : List String :=
  ["copy_files", "extract_artifacts", "extract_archive", "install_apk", "wait", "grant_permissions",
    "launch_app", "force_stop_app"]

def validateStepParamContracts (steps : List PlannedStep) : List PlannerMessage :=
  steps.flatMap fun planned =>
    if planned.step.typeName ∈ emittedStepTypes then
      validateParamContract recipes planned.recipeId planned.step
    else []

end

section

def unknownArtifactMessage (recipe : Authored.Recipe) (step : Authored.Step) (artifactId : String)
    (group : Option String) : PlannerMessage :=
  { code := "unknown_artifact_ref"
    message := "Step '" ++ step.id ++ "' references unknown artifact '" ++ artifactId ++ "'" ++
      ((group.map fun groupId => " in artifact group '" ++ groupId ++ "'").getD "") ++ "."
    details := .object ([("recipe_ref", .string recipe.id), ("step_id", .string step.id),
      ("param", .string (if group.isSome then "artifact_groups" else "artifacts"))] ++
      (Json.optionalField "group_id" (group.map Json.string) ++
        [("artifact_id", .string artifactId)])) }

def unknownArtifactGroupMessage (recipe : Authored.Recipe) (step : Authored.Step) (groupId : String) :
    PlannerMessage :=
  { code := "unknown_artifact_group_ref"
    message := "Step '" ++ step.id ++ "' references unknown artifact group '" ++ groupId ++ "'."
    details := .object [("recipe_ref", .string recipe.id), ("step_id", .string step.id),
      ("param", .string "artifact_groups"), ("group_id", .string groupId)] }

def duplicateArtifactMessage (recipe : Authored.Recipe) (step : Authored.Step)
    (selection : String × String) : PlannerMessage :=
  { code := "duplicate_artifact_selection"
    message := "Step '" ++ step.id ++ "' resolves duplicate artifact id '" ++ selection.1 ++
      "' after artifact group expansion."
    details := .object [("recipe_ref", .string recipe.id), ("step_id", .string step.id),
      ("param", .string selection.2), ("duplicate_artifact_id", .string selection.1)] }

variable (recipe : Authored.Recipe) (step : Authored.Step)

def artifactSelections : List (String × String) :=
  (stringList (step.params.get? "artifacts")).map (·, "artifacts") ++
    (stringList (step.params.get? "artifact_groups")).flatMap fun groupId =>
      ((recipe.artifactGroups.get? groupId).getD []).map (·, "artifact_groups")

def duplicateSelections : List String → List String → List (String × String) →
    List (String × String)
  | _, _, [] => []
  | seen, reported, selection :: rest =>
      if selection.1 ∉ seen then duplicateSelections (selection.1 :: seen) reported rest
      else if selection.1 ∈ reported then duplicateSelections seen reported rest
      else selection :: duplicateSelections seen (selection.1 :: reported) rest

def validateArtifactGroup (groupId : String) : List PlannerMessage :=
  match recipe.artifactGroups.get? groupId with
  | none => [unknownArtifactGroupMessage recipe step groupId]
  | some artifacts =>
      (artifacts.filter fun artifactId => !recipe.artifacts.contains artifactId).map fun artifactId =>
        unknownArtifactMessage recipe step artifactId (some groupId)

def validateArtifactSelection : List PlannerMessage :=
  ((stringList (step.params.get? "artifacts")).filter fun artifactId =>
      !recipe.artifacts.contains artifactId).map
        (fun artifactId => unknownArtifactMessage recipe step artifactId none) ++
    ((stringList (step.params.get? "artifact_groups")).flatMap (validateArtifactGroup recipe step) ++
      (duplicateSelections [] [] (artifactSelections recipe step)).map
        (duplicateArtifactMessage recipe step))

def isArtifactStep (typeName : String) : Bool :=
  typeName = "resolve_artifacts" || typeName = "extract_artifacts"

def validateArtifactSelections (recipes : OrderedMap String Authored.Recipe)
    (steps : List PlannedStep) : List PlannerMessage :=
  steps.flatMap fun planned =>
    if isArtifactStep planned.step.typeName then
      (recipes.get? planned.recipeId).toList.flatMap fun recipe =>
        validateArtifactSelection recipe planned.step
    else []

end

def plannerStep (step : Authored.Step) : Step :=
  ⟨step.id, step.typeName, step.dependencies, step.constraints, step.params⟩

def plannerRecipe (recipe : Authored.Recipe) : Recipe :=
  ⟨recipe.id, recipe.recipeDependencies, recipe.inputs, recipe.steps.map plannerStep⟩

def nonEmittedStepDependencyMessage (recipeId stepId dependency : String) : PlannerMessage :=
  { code := "unknown_step_dependency"
    message := "Step '" ++ stepId ++ "' depends on unknown or non-emitted step '" ++ dependency ++
      "'."
    details := .object [("recipe_ref", .string recipeId), ("step_id", .string stepId),
      ("dependency", .string dependency)] }

def localStepDependencyErrors (recipeId : String) (stepIds : List String) (step : Authored.Step) :
    List PlannerMessage :=
  (uniqueDependencyIds step.dependencies).flatMap fun dependency =>
    if dependency = step.id then [selfStepDependencyMessage recipeId step.id dependency]
    else if dependency ∈ stepIds then []
    else [nonEmittedStepDependencyMessage recipeId step.id dependency]

def validateLocalStepDependencies (recipeId : String) (steps : List Authored.Step) :
    List PlannerMessage :=
  let errors := steps.flatMap (localStepDependencyErrors recipeId (steps.map Authored.Step.id))
  if errors = [] then
    validateStepDependencyCycles recipeId (steps.map fun step => (step.id, plannerStep step))
  else errors

def stepsOf (steps : List PlannedStep) (recipeId : String) : List Authored.Step :=
  (steps.filter fun planned => planned.recipeId = recipeId).map PlannedStep.step

def validateEmittedStepDependencies (steps : List PlannedStep) : List PlannerMessage :=
  (firstOccurrences (steps.map PlannedStep.recipeId)).flatMap fun recipeId =>
    validateLocalStepDependencies recipeId (stepsOf steps recipeId)

section

variable (recipeId : String) (step : Authored.Step) (paramName refValue : String)

def stepRefDetails (more : List (String × Json)) : Json :=
  .object ([("recipe_ref", .string recipeId), ("step_id", .string step.id),
    ("param", .string paramName), ("ref", .string refValue)] ++ more)

def unknownStepRefMessage (targetId : String) : PlannerMessage :=
  ⟨"unknown_step_ref", "Step '" ++ step.id ++ "' references unknown step '" ++ refValue ++ "'.",
    stepRefDetails recipeId step paramName refValue [("target_step_id", .string targetId)]⟩

def noPrimaryOutputMessage (targetId : String) : PlannerMessage :=
  ⟨"step_ref_has_no_primary_output",
    "Step '" ++ step.id ++ "' uses shorthand ref '" ++ refValue ++ "', but target step '" ++
      targetId ++ "' has no primary output.",
    stepRefDetails recipeId step paramName refValue [("target_step_id", .string targetId)]⟩

def unknownStepOutputMessage (targetId field : String) : PlannerMessage :=
  ⟨"unknown_step_output", "Step '" ++ step.id ++ "' references unknown step output '" ++ refValue ++
      "'.",
    stepRefDetails recipeId step paramName refValue
      [("target_step_id", .string targetId), ("output_name", .string field)]⟩

def invalidRefFormatMessage : PlannerMessage :=
  ⟨"invalid_ref_format", "Step '" ++ step.id ++ "' param '" ++ paramName ++ "' has invalid ref '" ++
      refValue ++ "'.", stepRefDetails recipeId step paramName refValue []⟩

def validateStepRef (selectedSteps : OrderedMap String Authored.Step) : List PlannerMessage :=
  match parseReference refValue with
  | some (.stepShorthand targetId) =>
      match selectedSteps.get? targetId with
      | none => [unknownStepRefMessage recipeId step paramName refValue targetId]
      | some target =>
          if (primaryOutput? target).isNone then
            [noPrimaryOutputMessage recipeId step paramName refValue targetId]
          else []
  | some (.stepOutput targetId field) =>
      match selectedSteps.get? targetId with
      | none => [unknownStepRefMessage recipeId step paramName refValue targetId]
      | some target =>
          if declaresOutput target.typeName field then []
          else [unknownStepOutputMessage recipeId step paramName refValue targetId field]
  | none => [invalidRefFormatMessage recipeId step paramName refValue]
  | some (.input _) | some (.artifactField _ _) => []

def startsWithSteps : Bool := (Split.stripLead stepsLead refValue.toList).isSome

def validateStepRefs (steps : List PlannedStep) : List PlannerMessage :=
  steps.flatMap fun planned =>
    let selectedSteps := OrderedMap.ofList
      ((stepsOf steps planned.recipeId).map fun step => (step.id, step))
    planned.step.params.entries.flatMap fun entry =>
      match entry.2 with
      | .ref refValue =>
          if startsWithSteps refValue then
            validateStepRef planned.recipeId planned.step entry.1 refValue selectedSteps
          else []
      | _ => []

end

end EmuChef.Planner
