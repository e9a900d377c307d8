import EmuChef.CopyCommit.TreeLaw

/-! The copy-commit adapter over a directory of the host that stands for the device, and its
agreement with the Android adapter. -/

namespace EmuChef.CopyCommit.FakeFilesystem

open Checks (require)
open Program (check Handler)
open EmuChef.FileTree

/-- The directory that stands for the device, and the selected root beneath it. -/
structure Roots where
  fakeDeviceRoot : String
  selectedRoot : String
  deriving DecidableEq

inductive FakeOp where
  | validatePathBinding (root selected : String)
  | openSourceTree (sourceRoot : String)
  | scanTree (root : String)
  | openOrCreate (fakeRoot selectedRoot : String)
  | scanSelected
  | ensureDirectory (relativePath : String)
  | removeFile (relativePath : String)
  | removeDirectory (relativePath : String)
  | publishFile (relativePath expectedSha256 : String)
  deriving DecidableEq

/-- A file that cannot be published is answered with the text of its input or output error. -/
def FakeOp.Response : FakeOp → Type
  | scanTree _ | scanSelected => Except CopyCommitError (List CopyManifestEntry)
  | validatePathBinding .. | openSourceTree _ | openOrCreate .. | ensureDirectory _ | removeFile _
  | removeDirectory _ => Except CopyCommitError Unit
  | publishFile .. => Except String Unit

abbrev FakeProgram := Program FakeOp FakeOp.Response
abbrev FakeAttempt := Program.Attempt FakeOp FakeOp.Response

def call {α : Type} (answer : FakeProgram (Except CopyCommitError α)) :
    FakeAttempt CopyCommitError α :=
  ExceptT.mk answer

def validatePathBinding (roots : Roots) : FakeProgram (Except CopyCommitError Unit) :=
  Program.request (FakeOp.validatePathBinding roots.fakeDeviceRoot roots.selectedRoot)

def openSourceTree (sourceRoot : String) : FakeProgram (Except CopyCommitError Unit) :=
  Program.request (FakeOp.openSourceTree sourceRoot)

def scanTree (root : String) : FakeProgram (Except CopyCommitError (List CopyManifestEntry)) :=
  Program.request (FakeOp.scanTree root)

def openOrCreate (roots : Roots) : FakeProgram (Except CopyCommitError Unit) :=
  Program.request (FakeOp.openOrCreate roots.fakeDeviceRoot roots.selectedRoot)

def scanSelected : FakeProgram (Except CopyCommitError (List CopyManifestEntry)) :=
  Program.request FakeOp.scanSelected

def selectedPath (root devicePath : String) : Except CopyCommitError (List TextPath.Component) := do
  require ((TextPath.components devicePath).head? = some .rootDir)
    (.rejected "selected destination identity must be absolute")
  (TextPath.components devicePath).foldlM (fun selected component =>
    match component with
    | .rootDir => .ok selected
    | .normal part => .ok (selected ++ [.normal part])
    | .curDir | .parentDir => .error
        (.rejected "selected destination identity contains traversal components"))
    (TextPath.components root)

section

variable (roots : Roots) (request : CopyCommitRequest)

structure FakeStop where
  error : CopyCommitError
  deletedPaths : List String
  copiedPaths : List String

def stopping {α : Type} (state : MutationState) (attempt : FakeAttempt CopyCommitError α) :
    FakeAttempt FakeStop α :=
  ExceptT.mk (do return (← attempt.run).mapError fun error =>
    ⟨error, state.deletedPaths, state.copiedPaths⟩)

/-- The selected root is scanned whole, and the entry must be the one the simulation expects. -/
def verifySelectedEntry (expectedManifest : List CopyManifestEntry) (relativePath : String) :
    FakeAttempt CopyCommitError Unit := do
  let observedManifest ← call scanSelected
  check (require (findEntry observedManifest relativePath = findEntry expectedManifest relativePath)
    (.stale ("reviewed destination entry changed after review: " ++ relativePath)))

def publishFile (relativePath expectedSha256 : String) : FakeAttempt CopyCommitError Unit :=
  ExceptT.mk do
    match ← Program.request (FakeOp.publishFile relativePath expectedSha256) with
    | .ok () => pure (.ok ())
    | .error error => pure (.error
        (.io ("publish selected file " ++ relativePath ++ ": " ++ error)))

def performMutation : CopyCommitMutation → FakeAttempt CopyCommitError Unit
  | .removeFile path => call (Program.request (FakeOp.removeFile path))
  | .removeDirectory path => call (Program.request (FakeOp.removeDirectory path))
  | .ensureDirectory path => call (Program.request (FakeOp.ensureDirectory path))
  | .publishFile path digest => publishFile path digest

def deleteEntry (state : MutationState) (relativePath : String) :
    FakeAttempt FakeStop MutationState :=
  stopping state do
    match findEntry request.destinationManifest relativePath with
    | none => throw (.rejected ("reviewed deletion is absent from its manifest: " ++ relativePath))
    | some entry =>
        call (validatePathBinding roots)
        verifySelectedEntry state.currentManifest relativePath
        performMutation (deletionOf entry.kind relativePath)
        let currentManifest ← check (applyManifestMutation state.currentManifest
          request.sourceManifest (deletionOf entry.kind relativePath))
        pure { state with
          deletedPaths := state.deletedPaths ++ [relativePath]
          currentManifest := currentManifest }

def entryMutation (entry : CopyManifestEntry) : Except CopyCommitError CopyCommitMutation :=
  match entry.kind, entry.sha256 with
  | .directory, _ => .ok (.ensureDirectory entry.relativePath)
  | .file, some digest => .ok (.publishFile entry.relativePath digest)
  | .file, none => .error (.rejected ("reviewed file lacks a digest: " ++ entry.relativePath))

def copyEntry (state : MutationState) (entry : CopyManifestEntry) :
    FakeAttempt FakeStop MutationState := do
  let mutation ← stopping state do
    call (validatePathBinding roots)
    verifySelectedEntry state.currentManifest entry.relativePath
    let mutation ← check (entryMutation entry)
    performMutation mutation
    pure mutation
  let done := match entry.kind with
    | .directory => state
    | .file => { state with copiedPaths := state.copiedPaths ++ [entry.relativePath] }
  let currentManifest ← stopping done
    (check (applyManifestMutation done.currentManifest request.sourceManifest mutation))
  pure { done with currentManifest := currentManifest }

def mutationResult : FakeAttempt FakeStop (MutationState × List CopyManifestEntry) := do
  let deleted ← (deletionOrder request).foldlM (deleteEntry roots request)
    ⟨[], [], request.destinationManifest⟩
  let copied ← request.sourceManifest.foldlM (copyEntry roots request) deleted
  let afterManifest ← stopping copied do
    call (validatePathBinding roots)
    let afterManifest ← call scanSelected
    check (require (manifestContentMatches afterManifest (expectedManifest request.operation
        request.sourceManifest request.destinationManifest) = true)
      (.stale "selected destination did not match the expected post-commit manifest"))
    pure afterManifest
  pure (copied, afterManifest)

end

section

variable (sha256 : List UInt8 → List UInt8) (roots : Roots) (request : CopyCommitRequest)

def sortedPaths (paths : List String) : List String := paths.insertionSort (· ≤ ·)

def internalError : Except CopyCommitError Unit →
    Except CopyCommitError (List CopyManifestEntry) → Option String
  | .error binding, .error inspection => some ("destination binding check failed: " ++
      binding.toText ++ "; post-mutation inspection failed: " ++ inspection.toText)
  | .error binding, .ok _ => some ("destination binding check failed: " ++ binding.toText)
  | .ok (), .error inspection => some ("post-mutation destination inspection failed: " ++
      inspection.toText)
  | .ok (), .ok _ => none

def fakePostMutationReport (stop : FakeStop) : FakeProgram CopyCommitReport := do
  let binding ← validatePathBinding roots
  let after ← scanSelected
  let afterManifest := after.toOption
  pure {
    operation := request.operation
    destinationIdentity := request.destinationIdentity
    succeeded := false
    outcome := if binding.isOk && afterManifest.isSome then .partly else .uncertain
    beforePaths := manifestPaths request.destinationManifest
    beforeManifest := request.destinationManifest
    afterPaths := (afterManifest.map manifestPaths).getD []
    afterManifest := afterManifest
    reviewedDeletionSet := request.reviewedDeletionSet
    deletedPaths := sortedPaths stop.deletedPaths
    copiedPaths := sortedPaths stop.copiedPaths
    stagedPaths := []
    stagingVerified := false
    destinationBindingVerified := binding.isOk
    sourceDigestSha256 := manifestDigest sha256 request.sourceManifest
    stagingCleanupError := none
    error := some stop.error.toText
    internalError := internalError binding after
    internalDeviceError := none }

def successReport (state : MutationState) (afterManifest : List CopyManifestEntry) :
    CopyCommitReport where
  operation := request.operation
  destinationIdentity := request.destinationIdentity
  succeeded := true
  outcome := .succeeded
  beforePaths := manifestPaths request.destinationManifest
  beforeManifest := request.destinationManifest
  afterPaths := manifestPaths afterManifest
  afterManifest := some afterManifest
  reviewedDeletionSet := request.reviewedDeletionSet
  deletedPaths := sortedPaths state.deletedPaths
  copiedPaths := sortedPaths state.copiedPaths
  stagedPaths := []
  stagingVerified := false
  destinationBindingVerified := true
  sourceDigestSha256 := manifestDigest sha256 request.sourceManifest
  stagingCleanupError := none
  error := none
  internalError := none
  internalDeviceError := none

def changedBeforeMutation : CopyCommitError :=
  .stale "source or selected destination changed before mutation"

def prepare : FakeAttempt CopyCommitError Unit := do
  let selected ← check (selectedPath roots.fakeDeviceRoot request.destinationIdentity)
  check (require (selected = TextPath.components roots.selectedRoot)
    (.rejected "selected path no longer matches its reviewed destination identity"))
  call (validatePathBinding roots)
  call (openSourceTree request.sourceRoot)
  let currentSource ← call (scanTree request.sourceRoot)
  let currentDestination ← call (scanTree roots.selectedRoot)
  check (require (currentSource = request.sourceManifest)
    (.stale "source tree changed after its reviewed manifest was captured"))
  check (require (currentDestination = request.destinationManifest)
    (.stale "selected destination changed after its reviewed manifest was captured"))
  let expectedDeletions ← check
    (reviewedDeletions request.operation request.sourceManifest request.destinationManifest)
  check (require (expectedDeletions = request.reviewedDeletionSet)
    (.rejected "reviewed deletion set does not match the selected operation"))
  call (openOrCreate roots)
  call (validatePathBinding roots)
  let source ← call (scanTree request.sourceRoot)
  check (require (source = request.sourceManifest) changedBeforeMutation)
  let selected ← call scanSelected
  check (require (selected = request.destinationManifest) changedBeforeMutation)

def commit : FakeAttempt CopyCommitError CopyCommitReport := do
  prepare roots request
  match ← ExceptT.lift (mutationResult roots request).run with
  | .ok (state, afterManifest) => pure (successReport sha256 request state afterManifest)
  | .error stop => ExceptT.lift (fakePostMutationReport sha256 roots request stop)

end

/-! The schedule on an ideal file tree. -/

def answered (tree : DirectoryTree) :
    Except TreeError DirectoryTree → Except CopyCommitError Unit × DirectoryTree
  | .ok next => (.ok (), next)
  | .error _ => (.error (.io "the file system refused the mutation"), tree)

def sourceDigest (source : DirectoryTree) (path : String) : Option String :=
  match source.node path with
  | some (.file _ digest) => some digest
  | _ => none

def idealHost (freshIdentity : String → Option String) (sourceRoot : String)
    (source : DirectoryTree) : Handler FakeOp FakeOp.Response DirectoryTree
  | .validatePathBinding _ _, tree => (.ok (), tree)
  | .openSourceTree _, tree => (.ok (), tree)
  | .scanTree root, tree => (.ok (if root = sourceRoot then scan source else scan tree), tree)
  | .openOrCreate _ _, tree => (.ok (), tree)
  | .scanSelected, tree => (.ok (scan tree), tree)
  | .ensureDirectory path, tree =>
      answered tree (applyToTree freshIdentity tree (.ensureDirectory path))
  | .removeFile path, tree => answered tree (applyToTree freshIdentity tree (.removeFile path))
  | .removeDirectory path, tree =>
      answered tree (applyToTree freshIdentity tree (.removeDirectory path))
  | .publishFile path digest, tree =>
      if sourceDigest source path = some digest then
        match applyToTree freshIdentity tree (.publishFile path digest) with
        | .ok next => (.ok (), next)
        | .error _ => (.error "the file system refused the mutation", tree)
      else (.error "the source file changed", tree)

section

variable {freshIdentity : String → Option String} {sourceRoot : String}
  {roots : Roots} {request : CopyCommitRequest} {source destination before tree : DirectoryTree}

theorem attempt_stopping {σ α : Type} {handler : Handler FakeOp FakeOp.Response σ}
    {state : MutationState} {part : FakeAttempt CopyCommitError α} {start final : σ} {value : α}
    (ran : Program.attempt handler part start = (.ok value, final)) :
    Program.attempt handler (stopping state part) start = (.ok value, final) := by
  change Program.run handler (part.run >>= fun answer => pure (answer.mapError _)) start = _
  rw [Program.run_bind, show Program.run handler part.run start = _ from ran]
  rfl

theorem verifySelectedEntry_ideal {manifest : List CopyManifestEntry} {path : String}
    (tracked : Tracks manifest tree path) :
    Program.attempt (idealHost freshIdentity sourceRoot source)
      (verifySelectedEntry manifest path) tree = (.ok (), tree) := by
  have same : findEntry (scan tree) path = findEntry manifest path := by
    rw [tracked, findEntry_scan]
  have scanned : Program.attempt (idealHost freshIdentity sourceRoot source) (call scanSelected)
      tree = (.ok (scan tree), tree) := rfl
  rw [verifySelectedEntry, Program.attempt_bind_ok scanned, Checks.require_eq_ok.mpr same]
  rfl

/-- What a mutation needs besides a tree that allows it: a file is published with its digest. -/
def Sourced (source : DirectoryTree) : CopyCommitMutation → Prop
  | .publishFile path digest => sourceDigest source path = some digest
  | _ => True

theorem performMutation_ideal {mutation : CopyCommitMutation} {after : DirectoryTree}
    (known : Sourced source mutation) (changed : applyToTree freshIdentity tree mutation = .ok after) :
    Program.attempt (idealHost freshIdentity sourceRoot source) (performMutation mutation) tree =
      (.ok (), after) := by
  cases mutation with
  | removeFile path => exact congrArg (answered tree) changed
  | removeDirectory path => exact congrArg (answered tree) changed
  | ensureDirectory path => exact congrArg (answered tree) changed
  | publishFile path digest =>
      have performed : idealHost freshIdentity sourceRoot source (.publishFile path digest) tree =
          (.ok (), after) := by
        have found : sourceDigest source path = some digest := known
        simp [idealHost, found, changed]
      change Program.run _ (Program.request (FakeOp.publishFile path digest) >>= _) tree = _
      rw [Program.run_bind, Program.run_request, performed]
      rfl

theorem deleteEntry_ideal {context : MutationContext}
    (trees : ReviewedTrees context.request source destination) {passed rest : List String}
    {path : String} {state : MutationState}
    (split : deletionOrder context.request = passed ++ path :: rest)
    (held : Deleted destination passed state tree) :
    ∃ next after, Program.attempt (idealHost freshIdentity sourceRoot source)
        (deleteEntry roots context.request state path) tree = (.ok next, after) ∧
      Deleted destination (passed ++ [path]) next after ∧
      next.deletedPaths = state.deletedPaths ++ [path] ∧ next.copiedPaths = state.copiedPaths := by
  obtain ⟨node, after, present, _, removed, advances⟩ :=
    @deletion_advances tree path source destination freshIdentity context state trees passed rest
      split held
  have entry : findEntry context.request.destinationManifest path =
      some (manifestEntry path node) := by
    rw [trees.destinationScan, findEntry_scan, present, Option.map_some]
  refine ⟨_, after, attempt_stopping ?_, advances { state with
    deletedPaths := state.deletedPaths ++ [path]
    currentManifest := replaceEntry state.currentManifest path none } rfl, rfl, rfl⟩
  rw [entry]
  dsimp only
  have bound : Program.attempt (idealHost freshIdentity sourceRoot source)
      (call (validatePathBinding roots)) tree = (.ok (), tree) := rfl
  have performed := @performMutation_ideal freshIdentity sourceRoot source tree
    (deletionOf (entryKind node.kind) path) after (by cases node.kind <;> trivial) removed
  rw [Program.attempt_bind_ok bound,
    Program.attempt_bind_ok (verifySelectedEntry_ideal (held.tracks path)), manifestEntry_kind,
    Program.attempt_bind_ok performed, applyManifestMutation_deletionOf]
  rfl

/-- The entries so far were merged, directories and files as the manifest lists them. -/
structure Merged (freshIdentity : String → Option String) (source before : DirectoryTree)
    (passed : List CopyManifestEntry) (state : MutationState) (tree : DirectoryTree) : Prop where
  unique : UniquePaths state.currentManifest
  tracks : ∀ path, path ∉ manifestPaths passed → Tracks state.currentManifest tree path
  node : ∀ path, tree.node path =
    if path ∈ manifestPaths passed then mergedNode freshIdentity source before path
    else before.node path
  copied : state.copiedPaths = manifestPaths (entriesOfKind .file passed)

theorem mem_paths_scan {path : String} :
    path ∈ manifestPaths (scan source) ↔ (source.node path).isSome := by
  rw [manifestPaths, List.mem_map, Option.isSome_iff_exists]
  constructor
  · rintro ⟨entry, member, rfl⟩
    obtain ⟨node, found, _⟩ := mem_scan.mp member
    exact ⟨node, found⟩
  · rintro ⟨node, found⟩
    exact ⟨manifestEntry path node, mem_scan.mpr ⟨node, by simpa using found, by simp⟩, by simp⟩

theorem kind_mergedNode (compatible : Compatible source before) {path : String}
    {wanted : DirectoryNode} (inSource : source.node path = some wanted) :
    (mergedNode freshIdentity source before path).map TreeNode.kind = some wanted.kind := by
  rw [mergedNode, inSource]
  cases wanted with
  | file identity digest => rfl
  | directory identity =>
      cases found : before.node path with
      | none => rfl
      | some kept => simpa using compatible path _ kept inSource found

theorem merge_advances (compatible : Compatible source before)
    {passed rest : List CopyManifestEntry} {entry : CopyManifestEntry} {state : MutationState}
    (split : scan source = passed ++ entry :: rest)
    (held : Merged freshIdentity source before passed state tree) :
    ∃ mutation after, entryMutation entry = .ok mutation ∧
      mutation.relativePath = entry.relativePath ∧ Sourced source mutation ∧
      applyToTree freshIdentity tree mutation = .ok after ∧
      ∀ query, after.node query = if query = entry.relativePath then
        mergedNode freshIdentity source before query else tree.node query := by
  have member : entry ∈ scan source := by simp [split]
  obtain ⟨wanted, inSource, made⟩ := mem_scan.mp member
  have listed : entry.relativePath ∈ manifestPaths (scan source) := List.mem_map_of_mem member
  have notPassed : entry.relativePath ∉ manifestPaths passed := by
    rw [passed_iff_lt_of_sorted (scan_sorted source) split listed]
    exact lt_irrefl _
  have here : tree.node entry.relativePath = before.node entry.relativePath := by
    rw [held.node, if_neg notPassed]
  have placed : tree.parentIsDirectory entry.relativePath = true := by
    apply parentIsDirectory_of_ancestors
    intro above higher
    have upper := kindAt_ancestor (Option.isSome_of_eq_some inSource) higher
    obtain ⟨upperNode, upperFound, upperKind⟩ := Option.map_eq_some_iff.mp upper
    have upperPassed : above ∈ manifestPaths passed :=
      (passed_iff_lt_of_sorted (scan_sorted source) split
        (mem_paths_scan.mpr (by rw [upperFound, Option.isSome_some]))).mpr higher.lt
    rw [FileTree.kindAt, held.node, if_pos upperPassed, kind_mergedNode compatible upperFound,
      upperKind]
  have sameKind : ∀ kind, tree.kindAt entry.relativePath = some kind → kind = wanted.kind := by
    intro kind found
    rw [FileTree.kindAt, here] at found
    obtain ⟨node, present, rfl⟩ := Option.map_eq_some_iff.mp found
    exact compatible _ wanted node inSource present
  have isNamed := source.named _ wanted inSource
  cases wanted with
  | directory identity =>
      obtain ⟨after, ensured, nodes⟩ := FileTree.makeDirectory_ok
        (freshIdentity entry.relativePath) isNamed placed (fun found => by cases sameKind _ found)
      refine ⟨.ensureDirectory entry.relativePath, after, ?_, rfl, trivial, ensured, fun query => ?_⟩
      · rw [← made]
        rfl
      · rw [nodes]
        by_cases same : query = entry.relativePath
        · rw [if_pos same, if_pos same, same, here, mergedNode, inSource]
        · rw [if_neg same, if_neg same]
  | file identity digest =>
      obtain ⟨after, published, nodes⟩ := FileTree.publishFile_ok
        (freshIdentity entry.relativePath) digest isNamed placed (fun found => by cases sameKind _ found)
      refine ⟨.publishFile entry.relativePath digest, after, ?_, rfl, ?_, published, fun query => ?_⟩
      · rw [← made]
        rfl
      · rw [Sourced, sourceDigest, inSource]
      · rw [nodes]
        by_cases same : query = entry.relativePath
        · rw [if_pos same, if_pos same, same, mergedNode, inSource]
        · rw [if_neg same, if_neg same]

theorem exists_simulation {mutation : CopyCommitMutation} {manifest : List CopyManifestEntry}
    (known : Sourced source mutation) :
    ∃ next, applyManifestMutation manifest (scan source) mutation = .ok next := by
  cases mutation with
  | removeFile path => exact ⟨_, rfl⟩
  | removeDirectory path => exact ⟨_, rfl⟩
  | ensureDirectory path =>
      simp only [applyManifestMutation]
      split <;> exact ⟨_, rfl⟩
  | publishFile path digest =>
      have found : sourceDigest source path = some digest := known
      cases inSource : source.node path with
      | none => simp [sourceDigest, inSource] at found
      | some node =>
          simp only [applyManifestMutation, findEntry_scan, inSource, Option.map_some]
          exact ⟨_, rfl⟩

theorem copyEntry_ideal (sourceScan : request.sourceManifest = scan source)
    (compatible : Compatible source before) {passed rest : List CopyManifestEntry}
    {entry : CopyManifestEntry} {state : MutationState}
    (split : scan source = passed ++ entry :: rest)
    (held : Merged freshIdentity source before passed state tree) :
    ∃ next after, Program.attempt (idealHost freshIdentity sourceRoot source)
        (copyEntry roots request state entry) tree = (.ok next, after) ∧
      Merged freshIdentity source before (passed ++ [entry]) next after ∧
      next.deletedPaths = state.deletedPaths := by
  obtain ⟨mutation, after, made, named, known, changed, nodes⟩ :=
    merge_advances compatible split held
  have notPassed : entry.relativePath ∉ manifestPaths passed := by
    rw [passed_iff_lt_of_sorted (scan_sorted source) split (List.mem_map_of_mem (by simp [split]))]
    exact lt_irrefl _
  obtain ⟨manifest, simulated⟩ := @exists_simulation source mutation state.currentManifest known
  have elsewhere := applyManifestMutation_ok held.unique simulated
  have mutated : Program.attempt (idealHost freshIdentity sourceRoot source) (do
      call (validatePathBinding roots)
      verifySelectedEntry state.currentManifest entry.relativePath
      let mutation ← check (entryMutation entry)
      performMutation mutation
      pure mutation) tree = (.ok mutation, after) := by
    have bound : Program.attempt (idealHost freshIdentity sourceRoot source)
        (call (validatePathBinding roots)) tree = (.ok (), tree) := rfl
    rw [Program.attempt_bind_ok bound,
      Program.attempt_bind_ok (verifySelectedEntry_ideal (held.tracks _ notPassed)), made]
    exact Program.attempt_bind_ok (performMutation_ideal known changed)
  have counted : ∀ done : MutationState, done.currentManifest = state.currentManifest →
      Program.attempt (idealHost freshIdentity sourceRoot source)
        (stopping done (check (applyManifestMutation done.currentManifest request.sourceManifest
          mutation))) after = (.ok manifest, after) := by
    intro done same
    refine attempt_stopping ?_
    rw [same, sourceScan, simulated]
    rfl
  have merged : ∀ next : MutationState, next.currentManifest = manifest →
      next.copiedPaths = manifestPaths (entriesOfKind .file (passed ++ [entry])) →
      Merged freshIdentity source before (passed ++ [entry]) next after := by
    rintro next rfl copied
    refine ⟨elsewhere.1, fun path untouched => ?_, fun path => ?_, copied⟩
    · rw [manifestPaths_append_singleton, not_or] at untouched
      have different : path ≠ mutation.relativePath := named ▸ untouched.2
      exact tracks_elsewhere held.unique simulated (by rw [nodes, if_neg untouched.2]) different
        (held.tracks path untouched.1)
    · rw [nodes]
      by_cases same : path = entry.relativePath
      · simp [same, manifestPaths_append_singleton]
      · simp [same, manifestPaths_append_singleton, held.node]
  rw [copyEntry, Program.attempt_bind_ok (attempt_stopping mutated)]
  dsimp only
  cases kind : entry.kind with
  | directory =>
      refine ⟨{ state with currentManifest := manifest }, after, ?_, merged _ rfl ?_, rfl⟩
      · dsimp only
        rw [Program.attempt_bind_ok (counted state rfl)]
        rfl
      · simp [entriesOfKind, List.filter_append, kind, held.copied]
  | file =>
      refine ⟨{ state with
        copiedPaths := state.copiedPaths ++ [entry.relativePath]
        currentManifest := manifest }, after, ?_, merged _ rfl ?_, rfl⟩
      · dsimp only
        rw [Program.attempt_bind_ok (counted { state with
          copiedPaths := state.copiedPaths ++ [entry.relativePath] } rfl)]
        rfl
      · simp [entriesOfKind, List.filter_append, kind, held.copied, manifestPaths]

theorem mutationResult_ideal {context : MutationContext}
    (trees : ReviewedTrees context.request source destination) :
    ∃ state after, Program.attempt (idealHost freshIdentity sourceRoot source)
        (mutationResult roots context.request) destination = (.ok (state, scan after), after) ∧
      (∀ path, contentAt after path =
        expectedContent context.request.operation source destination path) ∧
      sortedPaths state.deletedPaths = sortedPaths context.request.reviewedDeletionSet ∧
      state.copiedPaths = manifestPaths (entriesOfKind .file (scan source)) := by
  obtain ⟨deletedState, before, deletedRun, deleted, allDeleted, noneCopied⟩ :=
    deletions_run trees fun passed path rest state tree =>
      @deleteEntry_ideal freshIdentity sourceRoot roots source destination tree context trees passed
        rest path state
  have beforeNode : ∀ path, before.node path =
      if path ∈ context.request.reviewedDeletionSet then none else destination.node path := by
    intro path
    rw [deleted.node]
    simp only [(deletionOrder_perm context.request).mem_iff]
  have compatible : Compatible source before := by
    intro path wanted found inSource inBefore
    rw [beforeNode] at inBefore
    split at inBefore
    next => simp at inBefore
    next survives => exact kindAt_survivor trees.reviewed inSource inBefore survives
  have start : Merged freshIdentity source before [] deletedState before :=
    ⟨deleted.unique, fun path _ => deleted.tracks path, by simp [manifestPaths],
      by rw [noneCopied]; rfl⟩
  obtain ⟨state, after, mergedRun, merged, kept⟩ :
      ∃ state after, Program.attempt (idealHost freshIdentity sourceRoot source)
        ((scan source).foldlM (copyEntry roots context.request) deletedState) before =
          (.ok state, after) ∧
      Merged freshIdentity source before (scan source) state after ∧
      state.deletedPaths = deletedState.deletedPaths := by
    refine @Program.attempt_foldlM_ok _ _ _ _ _ _ _ _ _ _ _ (fun passed state tree =>
      Merged freshIdentity source before passed state tree ∧
        state.deletedPaths = deletedState.deletedPaths) ⟨start, rfl⟩ ?_
    rintro passed entry rest current tree split ⟨held, same⟩
    obtain ⟨next, after, ran, advanced, unchanged⟩ :=
      copyEntry_ideal trees.sourceScan compatible split held
    exact ⟨next, after, ran, advanced, unchanged.trans same⟩
  have afterNode : ∀ path, after.node path = mergedNode freshIdentity source before path := by
    intro path
    rw [merged.node]
    split
    next => rfl
    next absent =>
      rw [mem_paths_scan, Option.not_isSome_iff_eq_none] at absent
      rw [mergedNode, absent]
  have contents := contentAt_mergedNode trees beforeNode compatible afterNode
  have verified : Program.attempt (idealHost freshIdentity sourceRoot source) (do
      call (validatePathBinding roots)
      let afterManifest ← call scanSelected
      check (require (manifestContentMatches afterManifest (expectedManifest context.request.operation
          context.request.sourceManifest context.request.destinationManifest) = true)
        (.stale "selected destination did not match the expected post-commit manifest"))
      pure afterManifest) after = (.ok (scan after), after) := by
    have bound : Program.attempt (idealHost freshIdentity sourceRoot source)
        (call (validatePathBinding roots)) after = (.ok (), after) := rfl
    have scanned : Program.attempt (idealHost freshIdentity sourceRoot source) (call scanSelected)
        after = (.ok (scan after), after) := rfl
    rw [Program.attempt_bind_ok bound, Program.attempt_bind_ok scanned,
      Checks.require_eq_ok.mpr (manifestContentMatches_of_contents trees contents)]
    rfl
  refine ⟨state, after, ?_, contents, ?_, merged.copied⟩
  · rw [← trees.sourceScan] at mergedRun
    rw [mutationResult, Program.attempt_bind_ok deletedRun, Program.attempt_bind_ok mergedRun,
      Program.attempt_bind_ok (attempt_stopping verified)]
    rfl
  · rw [kept, allDeleted]
    exact insertionSort_eq_of_perm (deletionOrder_perm _)

end

/-- Both schedules complete from the same destination, leave the same content and report the same
paths. -/
theorem adapters_agree {sha256 : List UInt8 → List UInt8} {context : MutationContext}
    {source destination : DirectoryTree} (roots : Roots)
    (androidIdentity hostIdentity : String → Option String)
    (trees : ReviewedTrees context.request source destination) :
    ∃ android androidTree fake fakeTree,
      Program.attempt (idealDevice androidIdentity) (mutateSelectedRoot sha256 context) destination =
        (.ok android, androidTree) ∧
      Program.attempt (idealHost hostIdentity context.request.sourceRoot source)
        (mutationResult roots context.request) destination =
          (.ok (fake, scan fakeTree), fakeTree) ∧
      (∀ path, contentAt fakeTree path = contentAt androidTree path) ∧
      (successReport sha256 context.request fake (scan fakeTree)).deletedPaths =
        android.deletedPaths ∧
      (successReport sha256 context.request fake (scan fakeTree)).copiedPaths =
        android.copiedPaths := by
  obtain ⟨android, before, androidTree, androidRun, beforeNode, compatible, androidNode, androidDeleted,
    androidCopied⟩ := @mutateSelectedRoot_tree source destination sha256 androidIdentity context trees
  obtain ⟨fake, fakeTree, fakeRun, fakeContents, fakeDeleted, fakeCopied⟩ :=
    @mutationResult_ideal hostIdentity context.request.sourceRoot roots source destination context trees
  refine ⟨android, androidTree, fake, fakeTree, androidRun, fakeRun, fun path => ?_, ?_, ?_⟩
  · rw [fakeContents, contentAt_mergedNode trees beforeNode compatible androidNode]
  · exact fakeDeleted.trans androidDeleted.symm
  · rw [androidCopied, ← fakeCopied]
    rfl

theorem adapters_agree_sample : ∃ android androidTree fake fakeTree,
    Program.attempt (idealDevice fun path => some ("device " ++ path))
        (mutateSelectedRoot (fun bytes => bytes) ⟨sampleRequest, "binding", "/stage", "/helper"⟩)
          sampleDestination = (.ok android, androidTree) ∧
      Program.attempt (idealHost (fun path => some ("host " ++ path)) "/host/source" sampleSource)
        (mutationResult ⟨"/fake", "/fake/sdcard/Games"⟩ sampleRequest) sampleDestination =
          (.ok (fake, scan fakeTree), fakeTree) ∧
      (∀ path, contentAt fakeTree path = contentAt androidTree path) ∧
      (successReport (fun bytes => bytes) sampleRequest fake (scan fakeTree)).deletedPaths =
        android.deletedPaths ∧
      (successReport (fun bytes => bytes) sampleRequest fake (scan fakeTree)).copiedPaths =
        android.copiedPaths :=
  adapters_agree _ _ _ ⟨identified_iff.mpr (by decide), rfl, rfl, by decide⟩

end EmuChef.CopyCommit.FakeFilesystem
