import EmuChef.Executor.CopyPlan

/-! Which steps of a reviewed plan need root: from the typed plan and from its JSON. -/

namespace EmuChef.Executor

open Planner

structure RootRequirements where
  rootShell : Bool
  appDataWrite : Bool
  deriving DecidableEq

def RootRequirements.any (requirements : RootRequirements) : Bool :=
  requirements.rootShell || requirements.appDataWrite

inductive RootWorkOperation where
  | copyFiles
  | extractArchive
  | grantPermissions
  | other
  deriving DecidableEq

def rootWorkOperation (stepType : String) : RootWorkOperation :=
  match stepType with
  | "copy_files" => .copyFiles
  | "extract_archive" => .extractArchive
  | "grant_permissions" => .grantPermissions
  | _ => .other

def rootRequirementConstraints (capabilities : List String) : Bool × Bool :=
  capabilities.foldl (fun found capability =>
    (found.1 || capability = "root_shell", found.2 || capability = "app_data_write")) (false, false)

def conditionTypeRequiresRoot (conditionType : String) (path : Option String) : Bool :=
  (conditionType = "path_exists" || conditionType = "file_exists") && path.any isAppPrivatePath

structure RootRequirementStep where
  operation : RootWorkOperation
  rootShellConstraint : Bool
  appDataWriteConstraint : Bool
  permissionPlanRequiresRoot : Bool
  conditionRequiresRoot : Bool
  sourceRequiresRoot : Bool
  destinationRequiresRoot : Bool
  extractsToDevice : Bool
  deriving DecidableEq

def constraintRequirements (step : RootRequirementStep) : RootRequirements :=
  if step.operation = .grantPermissions then ⟨false, false⟩
  else ⟨step.rootShellConstraint || step.appDataWriteConstraint, step.appDataWriteConstraint⟩

def operationRequirements (step : RootRequirementStep) : RootRequirements :=
  match step.operation with
  | .copyFiles =>
      ⟨step.sourceRequiresRoot || step.destinationRequiresRoot, step.destinationRequiresRoot⟩
  | .extractArchive =>
      let writes := step.extractsToDevice && step.destinationRequiresRoot
      ⟨writes, writes⟩
  | .grantPermissions | .other => ⟨false, false⟩

def classifyRootRequirementStep (step : RootRequirementStep) : RootRequirements :=
  let constraints := constraintRequirements step
  let operation := operationRequirements step
  ⟨constraints.rootShell || step.conditionRequiresRoot || step.permissionPlanRequiresRoot ||
    operation.rootShell, constraints.appDataWrite || operation.appDataWrite⟩

section

variable (isDir : String → Bool) (plan : ExecutionPlan)

def inputRuntimeValue (refValue : String) : Option RuntimeValue :=
  match Split.stripLead inputsLead refValue.toList with
  | none => none
  | some inputId =>
      if inputId = [] then none
      else (plan.inputs.find? fun input => input.id = String.ofList inputId).map (·.value)

def payloadIsAppPrivate : Option Json → Bool
  | some (.string path) => isAppPrivatePath path
  | some (.array paths) => (paths.filterMap Json.asStr).any isAppPrivatePath
  | _ => false

def runtimeValueDeviceValueRequiresRoot (value : RuntimeValue) : Bool :=
  value.location = some "device" && payloadIsAppPrivate (some value.value)

def runtimeValueDevicePathRequiresRoot (value : RuntimeValue) : Bool :=
  value.location = some "device" && value.value.asStr.any isAppPrivatePath

def runtimeValueJsonIsAppPrivateDevicePath (value : Json) : Bool :=
  value.asObject.isSome && (value.field? "location").bind Json.asStr = some "device" &&
    payloadIsAppPrivate (value.field? "value")

def executionParamRuntimeValueRequiresRoot : ExecutionParamValue → Bool
  | .literal value => runtimeValueJsonIsAppPrivateDevicePath value
  | .ref refValue => (inputRuntimeValue plan refValue).any runtimeValueDeviceValueRequiresRoot

def executionParamDestinationRequiresRoot : ExecutionParamValue → Bool
  | .literal value => value.asStr.any isAppPrivatePath
  | .ref refValue => (inputRuntimeValue plan refValue).any runtimeValueDevicePathRequiresRoot

def executionParamIsString (expected : String) : ExecutionParamValue → Bool
  | .literal value => value.asStr = some expected
  | .ref refValue =>
      (inputRuntimeValue plan refValue).bind (fun value => value.value.asStr) = some expected

def conditionRequiresRoot (condition : ExecutionStepCondition) : Bool :=
  conditionTypeRequiresRoot condition.typeName ((condition.params.get? "path").bind Json.asStr)

def permissionPlanRequiresRoot (permissionPlan : PermissionPlan) : Bool :=
  permissionPlan.permissionSet = .elevated &&
    (permissionPlan.actions.isEmpty || permissionPlan.hasApplicableActions)

def isSharedDevicePath : Except String (Option CopyCommitDestinationKind) → Bool
  | .ok (some .sharedDevicePath) => true
  | _ => false

def hasSharedDestination (step : ExecutionStep) : Bool :=
  match resolveStepParams (.fromPlan plan) step.params with
  | .ok params => isSharedDevicePath (copyCommitDestinationKind isDir step params)
  | .error _ => false

def planStepFacts (step : ExecutionStep) : RootRequirementStep :=
  let constraints := rootRequirementConstraints step.constraints.capabilities
  { operation := rootWorkOperation step.typeName
    rootShellConstraint :=
      constraints.1 || (step.typeName = "copy_files" && hasSharedDestination isDir plan step)
    appDataWriteConstraint := constraints.2
    permissionPlanRequiresRoot := step.permissionPlan.any permissionPlanRequiresRoot
    conditionRequiresRoot := (step.skipIf ++ step.verify).any conditionRequiresRoot
    sourceRequiresRoot :=
      (step.params.get? "source").any (executionParamRuntimeValueRequiresRoot plan)
    destinationRequiresRoot :=
      (step.params.get? "dest").any (executionParamDestinationRequiresRoot plan)
    extractsToDevice :=
      (step.params.get? "extract_on").any (executionParamIsString plan "device") }

def planStepRootRequirements (step : ExecutionStep) : RootRequirements :=
  classifyRootRequirementStep (planStepFacts isDir plan step)

def reviewedPlanRequiresRoot : Bool :=
  plan.steps.any fun step => (planStepRootRequirements isDir plan step).any

end

def arrayField (value : Json) (name : String) : List Json :=
  ((value.field? name).bind Json.asArray).getD []

def jsonInputRuntimeValue (inputs : List Json) (refValue : String) : Option Json :=
  match Split.stripLead inputsLead refValue.toList with
  | none => none
  | some inputId =>
      if inputId = [] then none
      else
        (inputs.find? fun input =>
          (input.field? "id").bind Json.asStr = some (String.ofList inputId)).bind (·.field? "value")

def jsonParamRef (param : Json) : Option String :=
  ((param.field? "ref").or (param.field? "ref_value")).bind Json.asStr

def jsonParamLiteral (param : Json) : Json := (param.field? "value").getD param

def jsonParamRuntimeValue (inputs : List Json) (param : Json) : Option Json :=
  match jsonParamRef param with
  | some refValue => jsonInputRuntimeValue inputs refValue
  | none => some (jsonParamLiteral param)

def jsonParamString (inputs : List Json) (param : Json) : Option String :=
  match jsonParamRef param with
  | some refValue =>
      ((jsonInputRuntimeValue inputs refValue).bind (·.field? "value")).bind Json.asStr
  | none => (jsonParamLiteral param).asStr

def jsonDestinationRequiresRoot (inputs : List Json) (param : Json) : Bool :=
  (jsonParamString inputs param).any isAppPrivatePath

def jsonRuntimeValueRequiresRoot (value : Json) : Bool :=
  (value.field? "location").bind Json.asStr = some "device" &&
    payloadIsAppPrivate (value.field? "value")

def jsonConditionRequiresRoot (condition : Json) : Bool :=
  conditionTypeRequiresRoot
    ((((condition.field? "type_name").or (condition.field? "type")).bind Json.asStr).getD "")
    (((condition.field? "params").bind (·.field? "path")).bind Json.asStr)

def jsonConstraintRequirements (step : Json) : Bool × Bool :=
  rootRequirementConstraints
    (((((step.field? "constraints").bind (·.field? "capabilities")).bind Json.asArray).getD
      []).filterMap Json.asStr)

def jsonActionMayApply (action : Json) : Bool :=
  ((action.field? "applicability").bind (·.field? "status")).bind Json.asStr ≠ some "not_applicable"

def jsonPermissionPlanRequiresRoot (step : Json) : Bool :=
  match step.field? "permission_plan" with
  | none => false
  | some permissionPlan =>
      if (permissionPlan.field? "permission_set").bind Json.asStr ≠ some "elevated" then false
      else
        match (permissionPlan.field? "actions").bind Json.asArray with
        | none => true
        | some actions => actions.isEmpty || actions.any jsonActionMayApply

def jsonStepFacts (inputs : List Json) (step : Json) : RootRequirementStep :=
  let param (name : String) : Option Json := (step.field? "params").bind (·.field? name)
  let constraints := jsonConstraintRequirements step
  { operation :=
      ((((step.field? "type").or (step.field? "type_name")).bind Json.asStr).map
        rootWorkOperation).getD .other
    rootShellConstraint := constraints.1
    appDataWriteConstraint := constraints.2
    permissionPlanRequiresRoot := jsonPermissionPlanRequiresRoot step
    conditionRequiresRoot :=
      (arrayField step "skip_if" ++ arrayField step "verify").any jsonConditionRequiresRoot
    sourceRequiresRoot :=
      ((param "source").bind (jsonParamRuntimeValue inputs)).any jsonRuntimeValueRequiresRoot
    destinationRequiresRoot := (param "dest").any (jsonDestinationRequiresRoot inputs)
    extractsToDevice := (param "extract_on").bind (jsonParamString inputs) = some "device" }

def jsonStepRootRequirements (inputs : List Json) (step : Json) : RootRequirements :=
  classifyRootRequirementStep (jsonStepFacts inputs step)

def reviewedPlanRequiresRootJson (plan : Json) : Bool :=
  let inputs := arrayField plan "inputs"
  (arrayField plan "steps").any fun step => (jsonStepRootRequirements inputs step).any

end EmuChef.Executor
