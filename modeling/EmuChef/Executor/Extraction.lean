import EmuChef.Executor.RuntimeState
import EmuChef.Lib.FaultyWorld
import EmuChef.Lib.LinkTree

/-! The extraction of archives in `executor.rs`: sandbox checks, declared entries, their writing and
the removal after a failure. -/

namespace EmuChef.Executor

open Checks (require)
open Program (check Handler)

/-! The files of the host. -/

abbrev HostTree := LinkTree (List UInt8)

inductive HostError where
  | missing
  | exists
  | notDirectory
  | isDirectory
  | loop
  | other
  deriving DecidableEq

/-- The file system calls of an extraction. An entry that cannot be inspected counts as no link
and as no directory. -/
inductive HostOp where
  | symlinkMetadata (path : UnixPath)
  | isDirectory (path : UnixPath)
  | makeDirectory (path : UnixPath)
  | createFile (path : UnixPath)
  | write (file : Location) (bytes : List UInt8)
  | readDirectory (path : UnixPath)
  | removeDirectoryAll (path : UnixPath)
  deriving DecidableEq

def HostOp.Response : HostOp → Type
  | symlinkMetadata _ | isDirectory _ => Bool
  | makeDirectory _ | write .. | removeDirectoryAll _ => Except HostError Unit
  | createFile _ => Except HostError Location
  | readDirectory _ => Except HostError (List String)

def HostError.ofWalk : WalkError → HostError
  | .missing => .missing
  | .notDirectory => .notDirectory
  | .loop => .loop

section

structure HostView where
  depth : Nat
  workingDirectory : Location

variable (view : HostView) (tree : HostTree)

def HostView.locate (path : UnixPath) : Except WalkError Location :=
  tree.locate view.depth view.workingDirectory path

def HostView.enter (path : UnixPath) : Except WalkError Location :=
  tree.enter view.depth view.workingDirectory path

def HostView.resolve (path : UnixPath) : Except WalkError Location :=
  tree.resolve view.depth view.depth view.workingDirectory path

def isSymlink (path : UnixPath) : Bool :=
  match view.locate tree path with
  | .ok place => (tree.linkAt place).isSome
  | .error _ => false

def makeDirectoryAt (place : Location) : Except HostError HostTree :=
  if tree.directoryAt place ∨ (tree.node place).isSome then .error .exists
  else (tree.makeDirectory place ()).mapError fun _ => .missing

def createFileAt (place : Location) : Except HostError HostTree :=
  if tree.directoryAt place then .error .isDirectory
  else (tree.publishFile place () (.regular [])).mapError fun _ => .missing

def appendAt (file : Location) (bytes : List UInt8) : Except HostError HostTree :=
  match tree.node file with
  | some (.file _ (.regular before)) =>
      (tree.publishFile file () (.regular (before ++ bytes))).mapError fun _ => .other
  | _ => .error .other

def childrenOf (place : Location) : List String :=
  tree.nodes.keys.filterMap fun path => if path.dropLast = place then path.getLast? else none

def endsInName (path : UnixPath) : Bool :=
  match path.steps.getLast? with
  | some (.name _) => true
  | _ => false

/-- What a recursive removal of the place takes. It unlinks a link, follows none beneath a
directory, and cannot take the directory itself when the path ends in a step to the parent. -/
def takes (path : UnixPath) (top place : Location) : Bool :=
  if (tree.linkAt top).isSome then place = top
  else tree.directoryAt top && top.isPrefixOf place && (endsInName path || place ≠ top)

def sweeps (path : UnixPath) (place : Location) : Bool :=
  match view.locate tree path with
  | .error _ => false
  | .ok top => takes tree path top place

def removalOutcome (path : UnixPath) : Except HostError Unit :=
  match view.locate tree path with
  | .error stop => .error (.ofWalk stop)
  | .ok top =>
      if (tree.linkAt top).isSome then .ok ()
      else if tree.directoryAt top then
        if endsInName path then .ok () else .error .other
      else if (tree.node top).isSome then .error .notDirectory else .error .missing

theorem takes_closed {path : UnixPath} {top place above : Location}
    (present : (tree.node place).isSome) (parent : TreePath.parent place = some above)
    (taken : takes tree path top above = true) : takes tree path top place = true := by
  obtain ⟨_, name, rfl⟩ := parent_eq_some.mp parent
  have directory : tree.kindAt above = some .directory := FileTree.kindAt_parent present parent
  unfold takes at taken ⊢
  by_cases isLink : (tree.linkAt top).isSome
  · rw [if_pos isLink] at taken
    obtain rfl : above = top := by simpa using taken
    obtain ⟨target, link⟩ := Option.isSome_iff_exists.mp isLink
    rw [LinkTree.linkAt] at link
    rw [FileTree.kindAt] at directory
    cases found : tree.node above with
    | none => simp [found] at directory
    | some node => cases node <;> simp [found, TreeNode.kind] at directory link
  · rw [if_neg isLink] at taken ⊢
    obtain ⟨⟨isDirectory, below⟩, _⟩ : (tree.directoryAt top = true ∧ top <+: above) ∧ _ := by
      simpa only [Bool.and_eq_true, List.isPrefixOf_iff_prefix] using taken
    have longer : above ++ [name] ≠ top := fun same => by
      have bound := below.length_le
      simp [← same] at bound
    simp [isDirectory, below.trans (List.prefix_append above [name]), longer]

theorem sweeps_closed (path : UnixPath) (place above : Location) (present : (tree.node place).isSome)
    (parent : TreePath.parent place = some above) (kept : (!sweeps view tree path place) = true) :
    (!sweeps view tree path above) = true := by
  unfold sweeps at kept ⊢
  cases located : view.locate tree path with
  | error stop => rfl
  | ok top =>
      rw [located] at kept
      dsimp only at kept ⊢
      by_contra taken
      rw [Bool.not_eq_true', Bool.not_eq_false] at taken
      rw [takes_closed tree present parent taken] at kept
      cases kept

def swept (path : UnixPath) : HostTree :=
  tree.prune (fun place => !sweeps view tree path place) (sweeps_closed view tree path)

def settle {α : Type} (value : α) :
    Except HostError HostTree → Except HostError α × HostTree
  | .ok next => (.ok value, next)
  | .error error => (.error error, tree)

def atPlace {α : Type} (found : Except WalkError Location)
    (act : Location → Except HostError α × HostTree) : Except HostError α × HostTree :=
  match found with
  | .ok place => act place
  | .error stop => (.error (.ofWalk stop), tree)

end

def hostFiles (view : HostView) : Handler HostOp HostOp.Response HostTree
  | .symlinkMetadata path, tree => (isSymlink view tree path, tree)
  | .isDirectory path, tree => ((view.enter tree path).isOk, tree)
  | .makeDirectory path, tree =>
      atPlace tree (view.locate tree path) fun place => settle tree () (makeDirectoryAt tree place)
  | .createFile path, tree =>
      atPlace tree (view.resolve tree path) fun place => settle tree place (createFileAt tree place)
  | .write file bytes, tree => settle tree () (appendAt tree file bytes)
  | .readDirectory path, tree =>
      atPlace tree (view.enter tree path) fun place => (.ok (childrenOf tree place), tree)
  | .removeDirectoryAll path, tree => (removalOutcome view tree path, swept view tree path)

def HostFails : (operation : HostOp) → operation.Response → Prop
  | .symlinkMetadata _, _ | .isDirectory _, _ => False
  | .makeDirectory _, answer | .write _ _, answer | .removeDirectoryAll _, answer =>
      ∃ error, answer = (.error error : Except HostError Unit)
  | .createFile _, answer => ∃ error, answer = (.error error : Except HostError Location)
  | .readDirectory _, answer => ∃ error, answer = (.error error : Except HostError (List String))

def Interrupted (view : HostView) (before : HostTree) :
    (operation : HostOp) → operation.Response → HostTree → Prop
  | .write file bytes, answer, after => (∃ error, answer = (.error error : Except HostError Unit)) ∧
      ∃ count, appendAt before file (bytes.take count) = .ok after
  | .removeDirectoryAll path, answer, after =>
      (∃ error, answer = (.error error : Except HostError Unit)) ∧
      ∀ place, after.node place = before.node place ∨
        (sweeps view before path place = true ∧ after.node place = none)
  | _, _, _ => False

def hostWorld (view : HostView) : FaultyWorld HostOp HostOp.Response HostTree where
  works before operation response after :=
    hostFiles view operation before = (response, after) ∨
      Interrupted view before operation response after
  fails := HostFails

/-! The program. -/

abbrev HostProgram := Program HostOp HostOp.Response
abbrev HostAttempt := Program.Attempt HostOp HostOp.Response StepFailure

def hostCall (operation : HostOp) : HostProgram operation.Response := Program.request operation

def isSymlinkCall (path : UnixPath) : HostProgram Bool := hostCall (.symlinkMetadata path)

def isDirectoryCall (path : UnixPath) : HostProgram Bool := hostCall (.isDirectory path)

def makeDirectoryCall (path : UnixPath) : HostProgram (Except HostError Unit) :=
  hostCall (.makeDirectory path)

def createFileCall (path : UnixPath) : HostProgram (Except HostError Location) :=
  hostCall (.createFile path)

def writeCall (file : Location) (bytes : List UInt8) : HostProgram (Except HostError Unit) :=
  hostCall (.write file bytes)

def readDirectoryCall (path : UnixPath) : HostProgram (Except HostError (List String)) :=
  hostCall (.readDirectory path)

def removeDirectoryAllCall (path : UnixPath) : HostProgram (Except HostError Unit) :=
  hostCall (.removeDirectoryAll path)

structure HostText where
  error : HostError → String
  display : UnixPath → String

structure SandboxRoots where
  runtimeRoot : UnixPath
  cacheRoot : UnixPath

section

variable (text : HostText)

def orStop {α : Type} (answer : HostProgram (Except HostError α)) : HostAttempt α :=
  ExceptT.mk do
    match ← answer with
    | .ok value => pure (.ok value)
    | .error error => pure (.error (.new (text.error error)))

def rejectExistingSymlink (path : UnixPath) : HostAttempt Unit := do
  let found ← ExceptT.lift (isSymlinkCall path)
  check (require (found = false)
    (.new ("symlink paths are not supported in sandbox operations: " ++ text.display path)))

def rejectSymlinkAncestor (root path : UnixPath) : HostAttempt Unit := do
  rejectExistingSymlink text root
  let root := root.normalize
  let path := path.normalize
  check (require (path.startsWith root = true)
    (.new ("sandbox path is outside root: " ++ text.display path)))
  (List.range (path.steps.length - root.steps.length)).forM fun below =>
    rejectExistingSymlink text (path.upTo (root.steps.length + below + 1))

def ensureRuntimeOrCacheWrite (roots : SandboxRoots) (path : UnixPath) : HostAttempt Unit :=
  if path.normalize.startsWith roots.runtimeRoot.normalize then do
    rejectSymlinkAncestor text roots.runtimeRoot path
    rejectExistingSymlink text path
  else if path.normalize.startsWith roots.cacheRoot.normalize then do
    rejectSymlinkAncestor text roots.cacheRoot path
    rejectExistingSymlink text path
  else throw (.new ("sandbox write rejected outside runtime/cache roots: " ++ text.display path))

def createMissing (path : UnixPath) : HostAttempt Unit := do
  let found ← ExceptT.lift (isDirectoryCall path)
  if found then pure () else orStop text (makeDirectoryCall path)

def createDirAll (path : UnixPath) : HostAttempt Unit :=
  (List.range path.steps.length).forM fun above => createMissing text (path.upTo (above + 1))

/-- An entry of an archive: what its reader gives, and the text of the error that ends it early. -/
structure ArchiveEntry where
  name : String
  isDir : Bool
  isSymlink : Bool
  chunks : List (List UInt8)
  failure : Option String
  deriving DecidableEq

abbrev Archive := Except String (List (Except String ArchiveEntry))

def rootedOrDrive (portable : List Char) : Bool :=
  match portable with
  | '/' :: _ => true
  | first :: ':' :: _ => first.isAlpha
  | _ => false

def archiveRelativeComponents (name : String) : Except StepFailure (List String) := do
  let refused := StepFailure.new ("unsafe archive entry rejected: " ++ name)
  let portable := name.toList.map fun letter => if letter = '\\' then '/' else letter
  require (rootedOrDrive portable = false) refused
  let relative ← (TextPath.components (String.ofList portable)).foldlM (fun relative component =>
    match component with
    | .normal part => .ok (relative ++ [part])
    | .curDir => .ok relative
    | .rootDir | .parentDir => .error refused) []
  require (relative ≠ []) refused
  pure relative

def endsWithSlash (name : String) : Bool := name.toList.getLast? = some '/'

structure ExtractionEntry where
  entry : ArchiveEntry
  target : UnixPath
  isDir : Bool

/-- The entries declared so far, and whether each relative path is for a directory. -/
structure Declared where
  paths : Std.ExtTreeMap (List String) Bool
  entries : List ExtractionEntry

def declareEntry (roots : SandboxRoots) (destDir : UnixPath) (declared : Declared)
    (found : Except String ArchiveEntry) : HostAttempt Declared := do
  let entry ← check (found.mapError .new)
  check (require (entry.isSymlink = false)
    (.new ("symlink archive entry rejected: " ++ entry.name)))
  let relative ← check (archiveRelativeComponents entry.name)
  let isDir := entry.isDir || endsWithSlash entry.name
  check (require (declared.paths[relative]? = none)
    (.new ("duplicate archive entry rejected: " ++ entry.name)))
  let target := (destDir.join relative).normalize
  check (require (target.startsWith destDir.normalize = true)
    (.new ("unsafe archive entry rejected: " ++ entry.name)))
  ensureRuntimeOrCacheWrite text roots target
  pure ⟨declared.paths.insert relative isDir, declared.entries ++ [⟨entry, target, isDir⟩]⟩

def pathsAbove (path : List String) : List (List String) :=
  (List.range (path.length - 1)).reverse.map fun above => path.take (above + 1)

def checkConflict (paths : Std.ExtTreeMap (List String) Bool) (path : List String) :
    Except StepFailure Unit :=
  (pathsAbove path).forM fun above => require (paths[above]? ≠ some false)
    (.new ("archive path conflict rejected: " ++ text.display (.ofNames false path)))

def declareEntries (roots : SandboxRoots) (destDir : UnixPath)
    (found : List (Except String ArchiveEntry)) : HostAttempt (List ExtractionEntry) := do
  let declared ← found.foldlM (declareEntry text roots destDir) ⟨∅, []⟩
  check (declared.paths.keys.forM (checkConflict text declared.paths))
  pure declared.entries

def copyEntry (entry : ArchiveEntry) (file : Location) : HostAttempt Unit := do
  entry.chunks.forM fun chunk => orStop text (writeCall file chunk)
  check (match entry.failure with
    | some failure => .error (.new failure)
    | none => .ok ())

def writeEntry (destDir : UnixPath) (item : ExtractionEntry) : HostAttempt Unit := do
  rejectSymlinkAncestor text destDir item.target
  rejectExistingSymlink text item.target
  if item.isDir || endsWithSlash item.entry.name then createDirAll text item.target
  else do
    createDirAll text (item.target.upTo (item.target.steps.length - 1))
    let file ← orStop text (createFileCall item.target)
    copyEntry text item.entry file

def extractedMembers (destDir : UnixPath) : HostAttempt (List UnixPath) := do
  let names ← orStop text (readDirectoryCall destDir)
  if names.isEmpty then pure [destDir]
  else pure ((names.insertionSort (· ≤ ·)).map fun name => destDir.join [name])

def extractZipToDirectoryInner (roots : SandboxRoots) (archive : Archive) (destDir : UnixPath) :
    HostAttempt (List UnixPath) := do
  ensureRuntimeOrCacheWrite text roots destDir
  let found ← check (archive.mapError .new)
  let entries ← declareEntries text roots destDir found
  createDirAll text destDir
  entries.forM (writeEntry text destDir)
  extractedMembers text destDir

def hostStagingCleanupFailure : StepFailure where
  message := "host_staging_cleanup_failed: temporary extraction staging could not be removed."
  outputs := OrderedMap.empty.insert "cleanup_report" {
    typeName := "object"
    value := .object [("classification", .string "host_staging_cleanup_failed"),
      ("status", .string "failed")]
    location := none }
  failureKind := none

def removeHostStaging (path : UnixPath) : HostProgram (Except StepFailure Unit) := do
  match ← removeDirectoryAllCall path with
  | .ok () => pure (.ok ())
  | .error .missing => pure (.ok ())
  | .error _ => pure (.error hostStagingCleanupFailure)

def combineOperationAndCleanup {α : Type} :
    Except StepFailure α → Except StepFailure Unit → Except StepFailure α
  | .ok value, .ok () => .ok value
  | .ok _, .error cleanup => .error cleanup
  | .error operation, .ok () => .error operation
  | .error operation, .error cleanup => .error { operation with
      outputs := cleanup.outputs.entries.foldl (fun outputs entry => outputs.insert entry.1 entry.2)
        operation.outputs }

def extractZipToDirectory (roots : SandboxRoots) (archive : Archive) (destDir : UnixPath) :
    HostAttempt (List UnixPath) :=
  ExceptT.mk do
    let operation ← (extractZipToDirectoryInner text roots archive destDir).run
    match operation with
    | .ok members => pure (.ok members)
    | .error failure =>
        let cleanup ← removeHostStaging destDir
        pure (combineOperationAndCleanup (.error failure) cleanup)

end

end EmuChef.Executor
