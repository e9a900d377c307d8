import EmuChef.Executor.RuntimeState

/-! Which copy steps write a selected directory, and the plan checks that read it. -/

namespace EmuChef.Executor

open Planner
open Checks (require)
open CopyCommit (CopyCommitOperation CopyCommitError quoted)

def isAppPrivatePath (path : String) : Bool :=
  (Split.stripLead "/data/user/".toList path.toList).isSome ||
    (Split.stripLead "/data/data/".toList path.toList).isSome

inductive CopyCommitDestinationKind where
  | appTarget
  | sharedDevicePath
  deriving DecidableEq

def isReviewableSharedDevicePath (destination : String) : Bool :=
  let text := destination.toList
  text.head? = some '/' && destination ≠ "/" &&
    (Split.splitOnce ['/', '/'] text).isNone && text.getLast? ≠ some '/' &&
    text.all (fun letter => letter ≠ '|' && letter ≠ '\n' && letter ≠ '\r') &&
    (TextPath.components destination).all fun component =>
      match component with
      | .rootDir | .normal _ => true
      | .curDir | .parentDir => false

section

variable (isDir : String → Bool) (step : ExecutionStep) (params : OrderedMap String Json)

def selectedDestinationKind (destination : String) :
    Except String (Option CopyCommitDestinationKind) :=
  if isAppPrivatePath destination then
    if step.appId.isNone then
      .error ("copy_files step " ++ step.id ++
        " app-private destination requires an authored App Target")
    else .ok (some .appTarget)
  else if isReviewableSharedDevicePath destination then .ok (some .sharedDevicePath)
  else .ok none

def existingSource (source : RuntimeValue) (kind : CopyCommitDestinationKind) :
    Except String (Option CopyCommitDestinationKind) :=
  match sourcePathFromValue source with
  | .error failure => .error failure.message
  | .ok path =>
      if isDir path then .ok (some kind)
      else .error ("copy_files step " ++ step.id ++
        " selected destination source must be one existing host directory")

def namesOtherKind : Bool :=
  ((params.get? "dest_kind").bind Json.asStr).any fun kind => kind ≠ "directory"

def copyCommitDestinationKind : Except String (Option CopyCommitDestinationKind) :=
  if namesOtherKind params then .ok none
  else
    match runtimeValueParam params "source" with
    | .error _ => .ok none
    | .ok source =>
        if source.typeName ≠ "directory_path" ∨ source.location ≠ some "host" then .ok none
        else
          match (params.get? "dest").bind Json.asStr with
          | none => .ok none
          | some destination =>
              match selectedDestinationKind step destination with
              | .error message => .error message
              | .ok none => .ok none
              | .ok (some kind) => existingSource isDir step source kind

def isSelectedDirectoryStep : Except String Bool :=
  (copyCommitDestinationKind isDir step params).map Option.isSome

end

def referencesStep : ExecutionParamValue → Bool
  | .ref reference => (Split.stripLead stepsLead reference.toList).isSome
  | .literal _ => false

def hasRuntimeOutputReference (step : ExecutionStep) : Bool := step.params.values.any referencesStep

def hasRuntimeSourceOutputReference (step : ExecutionStep) : Bool :=
  (step.params.get? "source").any referencesStep

section

variable (isDir : String → Bool) (plan : ExecutionPlan) (step : ExecutionStep)

def copyPolicy (params : OrderedMap String Json) : String :=
  ((params.get? "copy_policy").bind Json.asStr).getD "merge"

def CopyCommitOperation.fromLegacyDirectoryPolicy (policy : String) :
    Except CopyCommitError CopyCommitOperation :=
  match policy with
  | "merge" => .ok .addUpdate
  | "replace" => .ok .replace
  | "sync" => .ok .mirror
  | other => .error (.rejected ("unsupported directory copy policy " ++ quoted other))

def unsupportedCopy (reason : String) : String :=
  "copy_files step " ++ step.id ++ " is unsupported: " ++ reason

def isStringList (value : Json) : Bool :=
  value.asArray.any fun items => items.all fun item => item.asStr.isSome

def validatePlainCopy (params : OrderedMap String Json) (source : RuntimeValue) :
    Except String Unit := do
  require (source.typeName ≠ "path")
    (unsupportedCopy step "source type 'path' has no copy policy")
  require (source.typeName = "path_list" → isStringList source.value)
    (unsupportedCopy step "path_list source must contain string paths")
  require (source.typeName = "directory_path" → source.location = some "host")
    (unsupportedCopy step "directory sources must be host paths")
  require (source.typeName = "directory_path" →
      (params.get? "dest_kind").bind Json.asStr ≠ some "file")
    (unsupportedCopy step "a directory source cannot target one file")
  require (source.typeName = "directory_path" →
      copyPolicy params ≠ "replace" ∧ copyPolicy params ≠ "sync")
    (unsupportedCopy step ("destructive directory policy " ++ quoted (copyPolicy params) ++
      " requires a statically resolved selected App Target directory"))
  require (source.typeName = "path_list" → copyPolicy params ≠ "replace")
    (unsupportedCopy step "replacing a path list would delete the destination tree")

def invalidCopy (what : String) (failure : StepFailure) : String :=
  "copy_files step " ++ step.id ++ " has invalid " ++ what ++ " (" ++ failure.message ++ ")"

def validateStaticCopy : Except String Unit := do
  let params ← (resolveStepParams (.fromPlan plan) step.params).mapError
    (invalidCopy step "static operands")
  let source ← (runtimeValueParam params "source").mapError (invalidCopy step "source")
  require (¬ (source.typeName = "path_list" ∧ copyPolicy params = "sync"))
    (unsupportedCopy step "sync path_list has no single reviewed source boundary")
  if ← isSelectedDirectoryStep isDir step params then
    let _ ← (CopyCommitOperation.fromLegacyDirectoryPolicy (copyPolicy params)).mapError
      CopyCommitError.toText
    return
  else validatePlainCopy step params source

def validateSupportedCopyStep : Except String Unit :=
  if step.typeName ≠ "copy_files" then .ok ()
  else if hasRuntimeOutputReference step then
    require (¬ (hasRuntimeSourceOutputReference step ∧ step.appId.isSome))
      (unsupportedCopy step
        "App Target sources from runtime step outputs cannot be reviewed before execution")
  else validateStaticCopy isDir plan step

def validateSnapshotStep : Except String Unit :=
  if step.typeName ≠ "copy_files" ∨ hasRuntimeOutputReference step then .ok ()
  else do
    let params ← (resolveStepParams (.fromPlan plan) step.params).mapError (·.message)
    if ← isSelectedDirectoryStep isDir step params then
      match (plan.copyCommitSnapshots.filter fun snapshot => snapshot.stepId = step.id).length with
      | 0 => .error ("copy_files step " ++ step.id ++ " requires a pre-review copy snapshot")
      | 1 => return
      | _ => .error ("copy_files step " ++ step.id ++ " has duplicate pre-review copy snapshots")
    else return

def ownsSnapshot (snapshot : ExecutionCopyCommitSnapshot) : Bool :=
  plan.steps.any fun step => step.typeName = "copy_files" && step.id = snapshot.stepId

def rejectOrphanedSnapshots : Except String Unit :=
  require (plan.copyCommitSnapshots.all (ownsSnapshot plan))
    "execution plan contains an orphaned copy snapshot"

end

end EmuChef.Executor
