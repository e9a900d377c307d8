import EmuChef.CopyCommit.Manifest
import EmuChef.Lib.Program

/-! The Android copy-commit adapter of `copy_commit.rs` as a program over the device and
host operations it issues. -/

namespace EmuChef.CopyCommit

open Checks (require)
open Program (check)

inductive CopyCommitDestinationKind where
  | appTarget
  | sharedDevicePath
  deriving DecidableEq

structure CopyCommitRequest where
  operation : CopyCommitOperation
  sourceRoot : String
  destinationIdentity : String
  sourceManifest : List CopyManifestEntry
  destinationManifest : List CopyManifestEntry
  reviewedDeletionSet : List String
  destinationBinding : Option String
  deriving DecidableEq

inductive CopyCommitOutcome where
  | succeeded
  | partly
  | uncertain
  deriving DecidableEq

structure CopyCommitReport where
  operation : CopyCommitOperation
  destinationIdentity : String
  succeeded : Bool
  outcome : CopyCommitOutcome
  beforePaths : List String
  beforeManifest : List CopyManifestEntry
  afterPaths : List String
  afterManifest : Option (List CopyManifestEntry)
  reviewedDeletionSet : List String
  deletedPaths : List String
  copiedPaths : List String
  stagedPaths : List String
  stagingVerified : Bool
  destinationBindingVerified : Bool
  sourceDigestSha256 : String
  stagingCleanupError : Option String
  error : Option String
  internalError : Option String
  internalDeviceError : Option DeviceOperationError
  deriving DecidableEq

/-- The operations of the device boundary, and the host reads of the source tree. -/
inductive CommitOp where
  | inspectTree (root : String)
  | pathBinding (path : String)
  | createDirectory (path : String)
  | mkdirP (path : String)
  | pushFile (source destination : String)
  | removeFile (path : String)
  | removeEmptyDirectory (path : String)
  | prepareMutationHelper (stageRoot : String)
  | applySelectedRootMutation (selectedRoot destinationBinding stageRoot helperPath
      expectedEntry : String) (mutation : CopyCommitMutation)
  | cleanupMutationHelper (helperPath : String)
  | openSourceTree (sourceRoot : String)
  | scanSourceTree (sourceRoot : String)
  | stageReviewedSourceFile (relativePath expectedSha256 : String)
  deriving DecidableEq

def CommitOp.Response : CommitOp → Type
  | inspectTree _ => Except DeviceOperationError (List CopyManifestEntry)
  | pathBinding _ => Except DeviceOperationError String
  | createDirectory _ | mkdirP _ | pushFile _ _ | removeFile _ | removeEmptyDirectory _
  | applySelectedRootMutation .. | cleanupMutationHelper _ => Except DeviceOperationError Unit
  | prepareMutationHelper _ => Except DeviceOperationError String
  | openSourceTree _ => Except CopyCommitError Unit
  | scanSourceTree _ => Except CopyCommitError (List CopyManifestEntry)
  | stageReviewedSourceFile .. => Except CopyCommitError String

abbrev CommitProgram := Program CommitOp CommitOp.Response
abbrev CommitAttempt := Program.Attempt CommitOp CommitOp.Response
abbrev CommitEvent := Event CommitOp CommitOp.Response

def hostCall {α : Type} (answer : CommitProgram (Except CopyCommitError α)) :
    CommitAttempt CopyCommitError α :=
  ExceptT.mk answer

def deviceCall {α : Type} (answer : CommitProgram (Except DeviceOperationError α)) :
    CommitAttempt CopyCommitError α :=
  ExceptT.mk do
    match ← answer with
    | .ok value => pure (.ok value)
    | .error error => pure (.error (.deviceOperation error))

def issue (operation : CommitOp) : CommitProgram operation.Response :=
  Program.request operation

def inspectTree (root : String) :
    CommitProgram (Except DeviceOperationError (List CopyManifestEntry)) :=
  issue (.inspectTree root)

def pathBinding (path : String) : CommitProgram (Except DeviceOperationError String) :=
  issue (.pathBinding path)

def createDirectory (path : String) : CommitProgram (Except DeviceOperationError Unit) :=
  issue (.createDirectory path)

def mkdirP (path : String) : CommitProgram (Except DeviceOperationError Unit) :=
  issue (.mkdirP path)

def pushFile (source destination : String) : CommitProgram (Except DeviceOperationError Unit) :=
  issue (.pushFile source destination)

def removeFile (path : String) : CommitProgram (Except DeviceOperationError Unit) :=
  issue (.removeFile path)

def removeEmptyDirectory (path : String) : CommitProgram (Except DeviceOperationError Unit) :=
  issue (.removeEmptyDirectory path)

def prepareMutationHelper (stageRoot : String) :
    CommitProgram (Except DeviceOperationError String) :=
  issue (.prepareMutationHelper stageRoot)

def applySelectedRootMutation (selectedRoot destinationBinding stageRoot helperPath
    expectedEntry : String) (mutation : CopyCommitMutation) :
    CommitProgram (Except DeviceOperationError Unit) :=
  issue (.applySelectedRootMutation selectedRoot destinationBinding stageRoot helperPath
    expectedEntry mutation)

def cleanupMutationHelper (helperPath : String) :
    CommitProgram (Except DeviceOperationError Unit) :=
  issue (.cleanupMutationHelper helperPath)

def openSourceTree (sourceRoot : String) : CommitProgram (Except CopyCommitError Unit) :=
  issue (.openSourceTree sourceRoot)

def scanSourceTree (sourceRoot : String) :
    CommitProgram (Except CopyCommitError (List CopyManifestEntry)) :=
  issue (.scanSourceTree sourceRoot)

def stageReviewedSourceFile (relativePath expectedSha256 : String) :
    CommitProgram (Except CopyCommitError String) :=
  issue (.stageReviewedSourceFile relativePath expectedSha256)

structure CopyCommitAttemptFailure where
  message : String
  deviceError : Option DeviceOperationError

def CopyCommitAttemptFailure.ofMessage (message : String) : CopyCommitAttemptFailure :=
  ⟨message, none⟩

def CopyCommitAttemptFailure.device (message : String) (error : DeviceOperationError) :
    CopyCommitAttemptFailure :=
  ⟨message, some error⟩

def hexDigest (bytes : List UInt8) : String :=
  String.ofList (bytes.flatMap fun byte =>
    [Nat.digitChar (byte.toNat / 16), Nat.digitChar (byte.toNat % 16)])

section

-- The digest function of the hashing library.
variable (sha256 : List UInt8 → List UInt8)

def manifestDigest (manifest : List CopyManifestEntry) : String :=
  hexDigest (sha256 (manifestPreimage manifest))

def bindingVerification (request : CopyCommitRequest) :
    CommitProgram (Bool × Option DeviceOperationError) :=
  match request.destinationBinding with
  | none => pure (false, none)
  | some expected => do
      match ← pathBinding request.destinationIdentity with
      | .ok actual => pure (actual = expected, none)
      | .error error => pure (false, some error)

def observeAfter (request : CopyCommitRequest) (copiedPaths deletedPaths : List String)
    (stagingVerified : Bool) (failure : CopyCommitAttemptFailure) :
    CommitProgram CopyCommitReport := do
  let (bindingVerified, bindingError) ← bindingVerification request
  let deviceError := failure.deviceError <|> bindingError
  let inspected ← inspectTree request.destinationIdentity
  let report : CopyCommitReport := {
    operation := request.operation
    destinationIdentity := request.destinationIdentity
    succeeded := false
    outcome := .uncertain
    beforePaths := manifestPaths request.destinationManifest
    beforeManifest := request.destinationManifest
    afterPaths := []
    afterManifest := none
    reviewedDeletionSet := request.reviewedDeletionSet
    deletedPaths := deletedPaths
    copiedPaths := copiedPaths
    stagedPaths := if stagingVerified then manifestPaths request.sourceManifest else []
    stagingVerified := stagingVerified
    destinationBindingVerified := bindingVerified
    sourceDigestSha256 := manifestDigest sha256 request.sourceManifest
    stagingCleanupError := none
    error := some failure.message
    internalError := none
    internalDeviceError := deviceError
  }
  match inspected with
  | .ok manifest =>
      pure { report with
        outcome := if bindingVerified then .partly else .uncertain
        afterPaths := manifestPaths manifest
        afterManifest := some manifest
      }
  | .error inspectionError =>
      pure { report with
        error := some "copy result could not be verified after mutation"
        internalError := some (failure.message ++
          "; post-mutation destination inspection failed: " ++ inspectionError.message)
        internalDeviceError := deviceError <|> some inspectionError
      }

def validateAndroidDestination (path : String) : Except CopyCommitError Unit :=
  let components := TextPath.components path
  require (components.head? = some .rootDir ∧ components ≠ [.rootDir] ∧
      .curDir ∉ components ∧ .parentDir ∉ components)
    (.rejected "Android destination must be a non-root absolute path without traversal")

def uniqueStageRoot (process sequence : Nat) : String :=
  "/data/local/tmp/emuchef/t03-copy-" ++ toString process ++ "-" ++ toString sequence

def stageParent : String := "/data/local/tmp/emuchef"

def checkedChild (root relativePath : String) : Except CopyCommitError String := do
  let names ← (TextPath.components relativePath).mapM fun component =>
    match component with
    | .normal name => Except.ok name
    | _ => Except.error
        (CopyCommitError.rejected ("unsafe reviewed relative path " ++ quoted relativePath))
  require (names ≠ [])
    (.rejected ("reviewed path escaped its selected tree: " ++ quoted relativePath))
  pure (root ++ "/" ++ TextPath.join names)

inductive AndroidStageAction where
  | createDirectory (path : String)
  | pushFile (relativePath expectedSha256 destination : String)
  deriving DecidableEq

def directoryStageAction (stageRoot : String) (entry : CopyManifestEntry) :
    Except CopyCommitError AndroidStageAction := do
  pure (.createDirectory (← checkedChild stageRoot entry.relativePath))

def fileStageAction (stageRoot : String) (entry : CopyManifestEntry) :
    Except CopyCommitError AndroidStageAction := do
  let destination ← checkedChild stageRoot entry.relativePath
  match entry.sha256 with
  | none => throw (.rejected ("reviewed file lacks a digest: " ++ entry.relativePath))
  | some digest => pure (.pushFile entry.relativePath digest destination)

def entriesOfKind (kind : CopyEntryKind) (manifest : List CopyManifestEntry) :
    List CopyManifestEntry :=
  manifest.filter (·.kind = kind)

def shallowFirst (left right : String) : Bool :=
  TextPath.depth left < TextPath.depth right ||
    (TextPath.depth left = TextPath.depth right && left ≤ right)

def deepestFirst (left right : String) : Bool :=
  TextPath.depth right < TextPath.depth left ||
    (TextPath.depth left = TextPath.depth right && left ≤ right)

def androidStageActions (request : CopyCommitRequest) (stageRoot : String) :
    Except CopyCommitError (List AndroidStageAction) := do
  let components := TextPath.components stageRoot
  require (components.head? = some .rootDir ∧ .curDir ∉ components ∧ .parentDir ∉ components)
    (.rejected "Android staging root must be an absolute path without traversal")
  let directories := (entriesOfKind .directory request.sourceManifest).insertionSort
    fun left right => shallowFirst left.relativePath right.relativePath
  let created ← directories.mapM (directoryStageAction stageRoot)
  let pushed ← (sortByPath (entriesOfKind .file request.sourceManifest)).mapM
    (fileStageAction stageRoot)
  pure (.createDirectory stageRoot :: created ++ pushed)

def removeStaged (remove : String → CommitProgram (Except DeviceOperationError Unit))
    (stageRoot : String) (entry : CopyManifestEntry) : CommitAttempt CopyCommitError Unit := do
  let path ← check (checkedChild stageRoot entry.relativePath)
  deviceCall (remove path)

def cleanupStage (stageRoot : String) (manifest : List CopyManifestEntry) :
    CommitAttempt CopyCommitError Unit := do
  let observed ← deviceCall (inspectTree stageRoot)
  check (require (observed = manifest)
    (.stale "staging tree changed; explicit cleanup was skipped"))
  let entries := manifest.insertionSort
    fun left right => deepestFirst left.relativePath right.relativePath
  (entriesOfKind .file entries).forM (removeStaged removeFile stageRoot)
  (entriesOfKind .directory entries).forM (removeStaged removeEmptyDirectory stageRoot)
  deviceCall (removeEmptyDirectory stageRoot)

def checkStagedManifest (manifest reviewedManifest : List CopyManifestEntry) :
    Except CopyCommitError Unit := do
  (validateManifest manifest).mapError fun error =>
    .rejected ("staging tree is not safe to clean up: " ++ error.toText)
  let reviewedEntries := kindByPath reviewedManifest
  require (∀ entry ∈ manifest, reviewedEntries[entry.relativePath]? = some entry.kind)
    (.rejected
      "staging tree contains entries outside the reviewed source manifest; cleanup was skipped")

def cleanupStagedTree (stageRoot : String) (reviewedManifest : List CopyManifestEntry) :
    CommitAttempt CopyCommitError Unit := do
  let manifest ← deviceCall (inspectTree stageRoot)
  check (checkStagedManifest manifest reviewedManifest)
  cleanupStage stageRoot manifest

def cleanupHelper (helperPath : Option String) :
    CommitProgram (List (String × Option DeviceOperationError)) :=
  match helperPath.filter (· ≠ "") with
  | none => pure []
  | some path => do
      match ← cleanupMutationHelper path with
      | .ok () => pure []
      | .error error => pure [("helper " ++ path ++ ": " ++ error.message, some error)]

def cleanupErrors (stageRoot : String) (helperPath : Option String)
    (reviewedManifest : List CopyManifestEntry) :
    CommitProgram (List (String × Option DeviceOperationError)) := do
  let helperErrors ← cleanupHelper helperPath
  match ← (cleanupStagedTree stageRoot reviewedManifest).run with
  | .ok () => pure helperErrors
  | .error error =>
      let deviceError := match error with
        | .deviceOperation error => some error
        | _ => none
      pure (helperErrors ++ [(error.toText, deviceError)])

def pendingCleanup (request : CopyCommitRequest) (stageRoot : String)
    (errors : List (String × Option DeviceOperationError)) :
    Except CopyCommitError CopyCommitReport → CommitProgram CopyCommitReport :=
  let cleanupMessage := "cleanup pending for staging path " ++ stageRoot ++ ": " ++
    String.intercalate "; " (errors.map Prod.fst)
  let cleanupDeviceError := errors.findSome? Prod.snd
  fun
  | .ok report =>
      if report.succeeded then
        -- Destination verification completed, so cleanup remains pending work only.
        pure { report with stagingCleanupError := some cleanupMessage }
      else
        pure { report with
          succeeded := false
          outcome := .uncertain
          stagingCleanupError := some cleanupMessage
          error := report.error <|> some cleanupMessage
          internalDeviceError := report.internalDeviceError <|> cleanupDeviceError
        }
  | .error originalError => do
      let originalMessage := originalError.toText
      let deviceError := match originalError with
        | .deviceOperation error => some error
        | _ => cleanupDeviceError
      let report ← observeAfter sha256 request [] [] false ⟨originalMessage, deviceError⟩
      pure { report with
        outcome := .uncertain
        stagingCleanupError := some cleanupMessage
        error := some originalMessage
      }

def finishStagedResult (request : CopyCommitRequest) (stageRoot : String)
    (helperPath : Option String) (result : Except CopyCommitError CopyCommitReport) :
    CommitProgram (Except CopyCommitError CopyCommitReport) := do
  let errors ← cleanupErrors stageRoot helperPath request.sourceManifest
  if errors.isEmpty then pure result
  else do
    let report ← pendingCleanup sha256 request stageRoot errors result
    pure (.ok report)

inductive CommitExit where
  | failed (error : CopyCommitError)
  | reported (report : CopyCommitReport)

abbrev MutationAttempt := CommitAttempt CommitExit

def orFailed {α : Type} (checked : Except CopyCommitError α) : MutationAttempt α :=
  check (checked.mapError .failed)

structure MutationState where
  deletedPaths : List String
  copiedPaths : List String
  currentManifest : List CopyManifestEntry
  deriving DecidableEq

structure MutationContext where
  request : CopyCommitRequest
  reviewedBinding : String
  stageRoot : String
  helperPath : String

def reportFailure {α : Type} (context : MutationContext) (state : MutationState)
    (failure : CopyCommitAttemptFailure) : MutationAttempt α := do
  let report ← ExceptT.lift
    (observeAfter sha256 context.request state.copiedPaths state.deletedPaths true failure)
  throw (.reported report)

def orReported {α : Type} (context : MutationContext) (state : MutationState)
    (message : DeviceOperationError → String)
    (answer : CommitProgram (Except DeviceOperationError α)) : MutationAttempt α := do
  match ← ExceptT.lift answer with
  | .ok value => pure value
  | .error error => reportFailure sha256 context state (.device (message error) error)

def orDiffers (context : MutationContext) (state : MutationState) (holds : Bool)
    (message : String) : MutationAttempt Unit :=
  if holds then pure () else reportFailure sha256 context state (.ofMessage message)

def mutationLabel : CopyCommitMutation → String
  | .removeFile path | .removeDirectory path => "reviewed deletion " ++ path
  | .ensureDirectory path => "create reviewed directory " ++ path
  | .publishFile path _ => "publish reviewed file " ++ path

def applyMutation (context : MutationContext) (state : MutationState)
    (mutation : CopyCommitMutation) : MutationAttempt MutationState := do
  let expectedEntry ← orFailed
    (mutationEntryPrecondition state.currentManifest mutation.relativePath)
  orReported sha256 context state (fun error => mutationLabel mutation ++ " failed: " ++ error.message)
    (applySelectedRootMutation context.request.destinationIdentity context.reviewedBinding
      context.stageRoot context.helperPath expectedEntry mutation)
  let currentManifest ← orFailed
    (applyManifestMutation state.currentManifest context.request.sourceManifest mutation)
  pure { state with currentManifest := currentManifest }

def deleteReviewed (context : MutationContext) (state : MutationState) (relativePath : String) :
    MutationAttempt MutationState := do
  match findEntry context.request.destinationManifest relativePath with
  | none => throw (.failed (.rejected
      ("reviewed deletion is absent from its manifest: " ++ relativePath)))
  | some entry =>
      let mutation := match entry.kind with
        | .file => .removeFile relativePath
        | .directory => .removeDirectory relativePath
      let next ← applyMutation sha256 context state mutation
      pure { next with deletedPaths := next.deletedPaths ++ [relativePath] }

def ensureReviewed (context : MutationContext) (state : MutationState)
    (entry : CopyManifestEntry) : MutationAttempt MutationState :=
  applyMutation sha256 context state (.ensureDirectory entry.relativePath)

def publishReviewed (context : MutationContext) (state : MutationState)
    (entry : CopyManifestEntry) : MutationAttempt MutationState := do
  match entry.sha256 with
  | none => throw (.failed (.rejected ("reviewed file lacks a digest: " ++ entry.relativePath)))
  | some digest =>
      let next ← applyMutation sha256 context state (.publishFile entry.relativePath digest)
      pure { next with copiedPaths := next.copiedPaths ++ [entry.relativePath] }

def sortPaths (state : MutationState) : MutationState :=
  { state with
    deletedPaths := state.deletedPaths.insertionSort (· ≤ ·)
    copiedPaths := state.copiedPaths.insertionSort (· ≤ ·) }

def deletionOrder (request : CopyCommitRequest) : List String :=
  request.reviewedDeletionSet.insertionSort fun left right => deepestFirst left right

theorem deletionOrder_perm (request : CopyCommitRequest) :
    (deletionOrder request).Perm request.reviewedDeletionSet :=
  List.perm_insertionSort _ _

def mutateSelectedRoot (context : MutationContext) : MutationAttempt MutationState := do
  let start : MutationState := ⟨[], [], context.request.destinationManifest⟩
  let deleted ← (deletionOrder context.request).foldlM (deleteReviewed sha256 context) start
  let ensured ← (entriesOfKind .directory context.request.sourceManifest).foldlM
    (ensureReviewed sha256 context) (sortPaths deleted)
  let published ← (entriesOfKind .file context.request.sourceManifest).foldlM
    (publishReviewed sha256 context) ensured
  pure (sortPaths published)

def verifySelectedRoot (context : MutationContext) (stagedManifest : List CopyManifestEntry)
    (state : MutationState) : MutationAttempt CopyCommitReport := do
  let request := context.request
  let finalBinding ← orReported sha256 context state
    (fun _ => "selected destination binding could not be verified after mutation")
    (pathBinding request.destinationIdentity)
  let afterManifest ← orReported sha256 context state
    (fun _ => "selected destination could not be inspected after mutation")
    (inspectTree request.destinationIdentity)
  orDiffers sha256 context state (finalBinding = context.reviewedBinding)
    "selected destination path no longer names the reviewed directory after mutation"
  orDiffers sha256 context state
    (manifestContentMatches afterManifest
      (expectedManifest request.operation request.sourceManifest request.destinationManifest))
    "selected destination manifest differs from the reviewed expected tree"
  pure {
    operation := request.operation
    destinationIdentity := request.destinationIdentity
    succeeded := true
    outcome := .succeeded
    beforePaths := manifestPaths request.destinationManifest
    beforeManifest := request.destinationManifest
    afterPaths := manifestPaths afterManifest
    afterManifest := some afterManifest
    reviewedDeletionSet := request.reviewedDeletionSet
    deletedPaths := state.deletedPaths
    copiedPaths := state.copiedPaths
    stagedPaths := manifestPaths stagedManifest
    stagingVerified := true
    destinationBindingVerified := true
    sourceDigestSha256 := manifestDigest sha256 request.sourceManifest
    stagingCleanupError := none
    error := none
    internalError := none
    internalDeviceError := none
  }

def reviewedBindingOf (request : CopyCommitRequest) : Except CopyCommitError String :=
  match request.destinationBinding with
  | some binding => .ok binding
  | none => .error (.rejected "Android copy commit requires a reviewed destination binding")

def checkRequest (request : CopyCommitRequest) : Except CopyCommitError String := do
  validateAndroidDestination request.destinationIdentity
  validateManifest request.sourceManifest
  validateManifest request.destinationManifest
  let reviewedBinding ← reviewedBindingOf request
  let expectedDeletions ← reviewedDeletions request.operation request.sourceManifest
    request.destinationManifest
  require (expectedDeletions = request.reviewedDeletionSet)
    (.rejected "reviewed deletion set does not match the selected operation")
  pure reviewedBinding

def prepareStage (stageRoot : String) (request : CopyCommitRequest) :
    CommitAttempt CopyCommitError (String × List AndroidStageAction) := do
  let reviewedBinding ← check (checkRequest request)
  let initialBinding ← deviceCall (pathBinding request.destinationIdentity)
  check (require (initialBinding = reviewedBinding)
    (.stale "selected destination identity changed after review"))
  let initialManifest ← deviceCall (inspectTree request.destinationIdentity)
  check (require (initialManifest = request.destinationManifest)
    (.stale "selected destination changed after review"))
  hostCall (openSourceTree request.sourceRoot)
  let scanned ← hostCall (scanSourceTree request.sourceRoot)
  check (require (scanned = request.sourceManifest)
    (.stale "source tree changed after review"))
  deviceCall (mkdirP stageParent)
  let actions ← check (androidStageActions request stageRoot)
  check (require (actions.head? = some (.createDirectory stageRoot))
    (.rejected "Android staging plan did not begin by creating its unique root"))
  deviceCall (createDirectory stageRoot)
  pure (reviewedBinding, actions)

def runStageAction : AndroidStageAction → CommitAttempt CopyCommitError Unit
  | .createDirectory path => deviceCall (mkdirP path)
  | .pushFile relativePath expectedSha256 destination => do
      let staged ← hostCall (stageReviewedSourceFile relativePath expectedSha256)
      deviceCall (pushFile staged destination)

def changedBeforeMutation : CopyCommitError :=
  .stale "source, selected destination identity, or destination tree changed before mutation"

def recheckReviewed (reviewedBinding : String) (request : CopyCommitRequest) :
    CommitAttempt CopyCommitError Unit := do
  let scanned ← hostCall (scanSourceTree request.sourceRoot)
  check (require (scanned = request.sourceManifest) changedBeforeMutation)
  let binding ← deviceCall (pathBinding request.destinationIdentity)
  check (require (binding = reviewedBinding) changedBeforeMutation)
  let manifest ← deviceCall (inspectTree request.destinationIdentity)
  check (require (manifest = request.destinationManifest) changedBeforeMutation)

def stageReviewedTree (stageRoot reviewedBinding : String) (actions : List AndroidStageAction)
    (request : CopyCommitRequest) :
    CommitAttempt CopyCommitError (List CopyManifestEntry) := do
  (actions.drop 1).forM runStageAction
  let stagedManifest ← deviceCall (inspectTree stageRoot)
  check (require (manifestContentMatches stagedManifest request.sourceManifest = true)
    (.stale "staged Android tree does not match the reviewed source manifest"))
  recheckReviewed reviewedBinding request
  pure stagedManifest

def publishReviewedTree (context : MutationContext) (stagedManifest : List CopyManifestEntry) :
    MutationAttempt CopyCommitReport := do
  let state ← mutateSelectedRoot sha256 context
  verifySelectedRoot sha256 context stagedManifest state

def CommitExit.toResult :
    Except CommitExit CopyCommitReport → Except CopyCommitError CopyCommitReport
  | .ok report => .ok report
  | .error (.reported report) => .ok report
  | .error (.failed error) => .error error

def expectedHelperPath (stageRoot : String) : String := stageRoot ++ "-helper"

def publishWithHelper (stageRoot reviewedBinding : String) (request : CopyCommitRequest)
    (stagedManifest : List CopyManifestEntry) :
    CommitProgram (Except CopyCommitError CopyCommitReport) := do
  match ← prepareMutationHelper stageRoot with
  | .error error =>
      finishStagedResult sha256 request stageRoot (some (expectedHelperPath stageRoot))
        (.error (.deviceOperation error))
  | .ok prepared =>
      let helperPath := if prepared = "" then expectedHelperPath stageRoot else prepared
      let result ← (publishReviewedTree sha256 ⟨request, reviewedBinding, stageRoot, helperPath⟩
        stagedManifest).run
      finishStagedResult sha256 request stageRoot (some helperPath) (CommitExit.toResult result)

def commit (stageRoot : String) (request : CopyCommitRequest) :
    CommitProgram (Except CopyCommitError CopyCommitReport) := do
  match ← (prepareStage stageRoot request).run with
  | .error error => pure (.error error)
  | .ok (reviewedBinding, actions) =>
      match ← (stageReviewedTree stageRoot reviewedBinding actions request).run with
      | .error error => finishStagedResult sha256 request stageRoot none (.error error)
      | .ok stagedManifest =>
          publishWithHelper sha256 stageRoot reviewedBinding request stagedManifest

end

end EmuChef.CopyCommit
