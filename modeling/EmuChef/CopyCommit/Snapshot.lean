import EmuChef.CopyCommit.Adapter

/-! Copy state that is captured before a review, and the request that execution rebuilds
from it. -/

namespace EmuChef.CopyCommit

open Checks (require)

structure ExecutionCopyCommitSnapshot where
  stepId : String
  operation : CopyCommitOperation
  destinationKind : CopyCommitDestinationKind
  sourcePath : String
  sourceRoot : String
  sourceManifest : List CopyManifestEntry
  sourceDigestSha256 : String
  destinationIdentity : String
  fakeDeviceRoot : String
  selectedRoot : String
  destinationBinding : Option String
  destinationBeforeManifest : List CopyManifestEntry
  destinationBeforeDigestSha256 : String
  reviewedDeletionSet : List String
  deriving DecidableEq

def selectedComponent : TextPath.Component → Except CopyCommitError (Option TextPath.Component)
  | .rootDir => .ok none
  | .normal name => .ok (some (.normal name))
  | .curDir | .parentDir => .error
      (.rejected "selected destination identity contains traversal components")

def selectedPath (root devicePath : String) :
    Except CopyCommitError (List TextPath.Component) := do
  require (devicePath.toList.head? = some '/')
    (.rejected "selected destination identity must be absolute")
  let below ← (TextPath.components devicePath).mapM selectedComponent
  return TextPath.components root ++ below.reduceOption

def stripPrefix (base path : List TextPath.Component) (message : String) :
    Except CopyCommitError (List TextPath.Component) :=
  match base.isPrefixOf? path with
  | some rest => .ok rest
  | none => .error (.rejected message)

def samePath (left right : String) : Bool := TextPath.components left = TextPath.components right

structure CopyStepArguments where
  stepId : String
  sourcePath : String
  fakeDeviceRoot : String
  destinationIdentity : String
  destinationKind : CopyCommitDestinationKind
  operation : CopyCommitOperation
  deriving DecidableEq

section

-- The digest function of the hashing library, and the host's resolution of a path.
variable (sha256 : List UInt8 → List UInt8) (canonicalize : String → Except String String)

def resolvePath (what path : String) : Except CopyCommitError String :=
  (canonicalize path).mapError fun error => .rejected ("resolve " ++ what ++ ": " ++ error)

def requestForExecution (snapshot : ExecutionCopyCommitSnapshot) (step : CopyStepArguments) :
    Except CopyCommitError CopyCommitRequest := do
  require (snapshot.stepId = step.stepId ∧ samePath snapshot.sourcePath step.sourcePath ∧
      snapshot.destinationIdentity = step.destinationIdentity ∧
      snapshot.destinationKind = step.destinationKind ∧ snapshot.operation = step.operation)
    (.stale "copy step no longer matches its reviewed snapshot")
  let currentSource ← resolvePath canonicalize "source" step.sourcePath
  require (samePath currentSource snapshot.sourceRoot)
    (.stale "source path no longer identifies the reviewed source tree")
  let currentFakeRoot ← resolvePath canonicalize "fake root" step.fakeDeviceRoot
  let reviewedSelectedRelative ← stripPrefix (TextPath.components snapshot.fakeDeviceRoot)
    (TextPath.components snapshot.selectedRoot)
    "reviewed selected destination is outside its fake device root"
  let currentSelectedRoot ← selectedPath currentFakeRoot step.destinationIdentity
  let currentSelectedRelative ← stripPrefix (TextPath.components currentFakeRoot)
    currentSelectedRoot "selected destination is outside its fake device root"
  require (currentSelectedRelative = reviewedSelectedRelative)
    (.stale "selected destination no longer identifies the reviewed tree")
  require (manifestDigest sha256 snapshot.sourceManifest = snapshot.sourceDigestSha256 ∧
      manifestDigest sha256 snapshot.destinationBeforeManifest =
        snapshot.destinationBeforeDigestSha256)
    (.rejected "reviewed copy manifest digest does not match its snapshot")
  let expectedDeletions ← reviewedDeletions snapshot.operation snapshot.sourceManifest
    snapshot.destinationBeforeManifest
  require (expectedDeletions = snapshot.reviewedDeletionSet)
    (.rejected "reviewed deletion set does not match the selected operation")
  return {
    operation := snapshot.operation
    sourceRoot := snapshot.sourceRoot
    destinationIdentity := snapshot.destinationIdentity
    sourceManifest := snapshot.sourceManifest
    destinationManifest := snapshot.destinationBeforeManifest
    reviewedDeletionSet := snapshot.reviewedDeletionSet
    destinationBinding := snapshot.destinationBinding }

variable {sha256 canonicalize} {snapshot : ExecutionCopyCommitSnapshot} {step : CopyStepArguments}
  {request : CopyCommitRequest}

structure RequestedBy (snapshot : ExecutionCopyCommitSnapshot) (request : CopyCommitRequest) :
    Prop where
  operation : request.operation = snapshot.operation
  destinationIdentity : request.destinationIdentity = snapshot.destinationIdentity
  source : request.sourceManifest = snapshot.sourceManifest
  destination : request.destinationManifest = snapshot.destinationBeforeManifest
  deletions : request.reviewedDeletionSet = snapshot.reviewedDeletionSet

theorem requestedBy_of_accepted
    (accepted : requestForExecution sha256 canonicalize snapshot step = .ok request) :
    RequestedBy snapshot request := by
  simp only [requestForExecution, Checks.bind_eq_ok] at accepted
  obtain ⟨_, _, _, _, _, _, _, _, _, _, _, _, _, _, _, _, _, _, _, _, _, _, built⟩ := accepted
  cases Except.ok.inj built
  exact ⟨rfl, rfl, rfl, rfl, rfl⟩

end

end EmuChef.CopyCommit
