import EmuChef.Planner.ExecutionPlan
import EmuChef.CopyCommit.Manifest

/-! What an execution remembers, and the values that the references of its plan resolve to. -/

namespace EmuChef.Executor

open Planner
open CopyCommit (quoted)
open Split (splitOnce rsplitOnce stripLead)

structure StepFailure where
  message : String
  outputs : OrderedMap String RuntimeValue
  failureKind : Option StepFailureKind

def StepFailure.new (message : String) : StepFailure := ⟨message, .empty, none⟩

inductive StepRuntimeStatus where
  | skipped
  | blocked
  | succeeded
  | failed
  deriving DecidableEq

structure StepRuntimeState where
  status : StepRuntimeStatus
  outputs : OrderedMap String RuntimeValue

inductive ArtifactRuntimeStatus where
  | pending
  | resolved
  | failed
  deriving DecidableEq

def ArtifactRuntimeStatus.asStatusValue : ArtifactRuntimeStatus → String
  | pending => "pending"
  | resolved => "resolved"
  | failed => "failed"

structure ArtifactRuntimeState where
  status : ArtifactRuntimeStatus
  localPath : Option String
  resolvedUrl : Option String
  filename : Option String
  cacheHit : Bool
  error : Option String

structure ExecutionState where
  steps : OrderedMap String StepRuntimeState
  artifacts : OrderedMap String ArtifactRuntimeState
  inputs : OrderedMap String RuntimeValue

def ExecutionState.fromPlan (plan : ExecutionPlan) : ExecutionState :=
  { steps := .empty
    artifacts := .ofList (plan.artifacts.map fun artifact =>
      (artifact.id, ⟨.pending, none, none, none, false, none⟩))
    inputs := .ofList (plan.inputs.map fun input => (input.id, input.value)) }

def keepsEnvelope (typeName : String) : Bool :=
  typeName = "file_path" || typeName = "directory_path" || typeName = "path_list"

def projectRuntimeValue (value : RuntimeValue) : Json :=
  if keepsEnvelope value.typeName then value.toJson else value.value

section

variable (state : ExecutionState) (refValue : String)

def resolveInputRef (inputRef : List Char) : Except StepFailure Json :=
  match state.inputs.get? (String.ofList inputRef) with
  | some input => .ok (projectRuntimeValue input)
  | none => .error (.new ("unknown_input_ref: Unknown input ref: " ++ quoted refValue ++ "."))

def artifactField (artifact : ArtifactRuntimeState) (field : String) : Option RuntimeValue :=
  match field with
  | "status" => some ⟨"string", .string artifact.status.asStatusValue, none⟩
  | "local_path" => some ⟨"file_path", optionalText artifact.localPath, some "host"⟩
  | "filename" => some ⟨"string", optionalText artifact.filename, none⟩
  | "resolved_url" => some ⟨"string", optionalText artifact.resolvedUrl, none⟩
  | "cache_hit" => some ⟨"boolean", .bool artifact.cacheHit, none⟩
  | "error" => some ⟨"string", .string (artifact.error.getD ""), none⟩
  | _ => none

def resolveArtifactField (artifact : ArtifactRuntimeState) (field : String) :
    Except StepFailure Json :=
  if artifact.status = .resolved then
    match artifactField artifact field with
    | some value => .ok (projectRuntimeValue value)
    | none => .error (.new ("unknown_artifact_field: Unknown artifact field in ref: " ++
        quoted refValue ++ "."))
  else .error (.new ("artifact_not_resolved: Artifact is not resolved: " ++ quoted refValue ++ "."))

def resolveArtifactRef (artifactRef : List Char) : Except StepFailure Json :=
  match rsplitOnce '.' artifactRef with
  | none => .error (.new ("invalid_ref_format: Invalid runtime ref: " ++ quoted refValue ++ "."))
  | some (artifactId, field) =>
      match state.artifacts.get? (String.ofList artifactId) with
      | none =>
          .error (.new ("unknown_artifact_ref: Unknown artifact ref: " ++ quoted refValue ++ "."))
      | some artifact => resolveArtifactField refValue artifact (String.ofList field)

def resolveStepOutput (stepId : String) (stepState : StepRuntimeState) (outputName : String) :
    Except StepFailure Json :=
  if stepState.status = .succeeded then
    match stepState.outputs.get? outputName with
    | some value => .ok (projectRuntimeValue value)
    | none => .error (.new ("unknown_step_output: Unknown step output in ref: " ++
        quoted refValue ++ "."))
  else .error (.new ("step_output_unavailable: Step output is unavailable because step " ++
    quoted stepId ++ " did not succeed."))

def resolveStepRef (stepRef : List Char) : Except StepFailure Json :=
  match splitOnce outputsSeparator stepRef with
  | none => .error (.new ("invalid_ref_format: Invalid runtime ref: " ++ quoted refValue ++ "."))
  | some (stepId, outputName) =>
      match state.steps.get? (String.ofList stepId) with
      | none => .error (.new ("unknown_step_ref: Unknown step ref: " ++ quoted refValue ++ "."))
      | some stepState =>
          resolveStepOutput refValue (String.ofList stepId) stepState (String.ofList outputName)

def resolveRuntimeRef : Except StepFailure Json :=
  match stripLead inputsLead refValue.toList with
  | some inputRef => resolveInputRef state refValue inputRef
  | none =>
      match stripLead artifactsLead refValue.toList with
      | some artifactRef => resolveArtifactRef state refValue artifactRef
      | none =>
          match stripLead stepsLead refValue.toList with
          | some stepRef => resolveStepRef state refValue stepRef
          | none => .error (.new ("invalid_ref_format: Invalid runtime ref: " ++
              quoted refValue ++ "."))

def resolveParam : ExecutionParamValue → Except StepFailure Json
  | .literal value => .ok value
  | .ref reference => resolveRuntimeRef state reference

def resolveStepParams (params : OrderedMap String ExecutionParamValue) :
    Except StepFailure (OrderedMap String Json) :=
  params.entries.foldlM (fun resolved entry => do
    let value ← resolveParam state entry.2
    return resolved.insert entry.1 value) .empty

end

def runtimeValueParam (params : OrderedMap String Json) (name : String) :
    Except StepFailure RuntimeValue :=
  match params.get? name with
  | some (.object fields) =>
      let value := Json.object fields
      .ok {
        typeName := ((value.field? "type").bind Json.asStr).getD ""
        value := (value.field? "value").getD .null
        location := (value.field? "location").bind Json.asStr }
  | _ => .error (.new (name ++ " must be a runtime value object"))

def sourcePathFromValue (source : RuntimeValue) : Except StepFailure String :=
  match source.value.asStr with
  | some path => .ok path
  | none => .error (.new "copy_files source runtime value must contain a string path")

end EmuChef.Executor
