import EmuChef.CopyCommit.Adapter
import Mathlib.Data.Prod.Lex

/-! What the mutation schedule of a reviewed commit makes of a directory tree when the
device behaves as an ideal file tree. -/

namespace EmuChef.CopyCommit

open EmuChef.FileTree

abbrev DirectoryTree := FileTree String String (Option String)

abbrev DirectoryNode := TreeNode String (Option String)

def manifestEntry (path : String) : DirectoryNode → CopyManifestEntry
  | .directory identity => ⟨path, .directory, none, identity⟩
  | .file identity digest => ⟨path, .file, some digest, identity⟩

def scan (tree : DirectoryTree) : List CopyManifestEntry :=
  tree.listing.map fun entry => manifestEntry entry.1 entry.2

def entryKind : TreeNodeKind → CopyEntryKind
  | .directory => .directory
  | .file => .file

def observedEntry (tree : DirectoryTree) (path : String) : String :=
  match tree.node path with
  | none => "absent"
  | some (.directory identity) => "directory|" ++ identity.getD ""
  | some (.file identity digest) => "file|" ++ identity.getD "" ++ "|" ++ digest

def applyToTree (freshIdentity : String → Option String) (tree : DirectoryTree) :
    CopyCommitMutation → Except TreeError DirectoryTree
  | .ensureDirectory path => tree.makeDirectory path (freshIdentity path)
  | .removeFile path => tree.unlinkFile path
  | .removeDirectory path => tree.removeDirectory path
  | .publishFile path digest => tree.publishFile path (freshIdentity path) digest

def outsideSchedule : DeviceOperationError := ⟨.other, "not a mutation of the selected root"⟩

/-- A device whose selected root is an ideal file tree. A mutation is refused unless the
tree holds the expected entry and the file system allows it. -/
def idealDevice (freshIdentity : String → Option String) :
    Program.Handler CommitOp CommitOp.Response DirectoryTree
  | .applySelectedRootMutation _ _ _ _ expectedEntry mutation, tree =>
      if observedEntry tree mutation.relativePath = expectedEntry then
        match applyToTree freshIdentity tree mutation with
        | .ok next => (.ok (), next)
        | .error _ => (.error ⟨.commandFailed, "the file system refused the mutation"⟩, tree)
      else (.error ⟨.commandFailed, "the expected entry changed"⟩, tree)
  | .inspectTree _, tree => (.ok (scan tree), tree)
  | .pathBinding _, tree => (.error outsideSchedule, tree)
  | .createDirectory _, tree => (.error outsideSchedule, tree)
  | .mkdirP _, tree => (.error outsideSchedule, tree)
  | .pushFile _ _, tree => (.error outsideSchedule, tree)
  | .removeFile _, tree => (.error outsideSchedule, tree)
  | .removeEmptyDirectory _, tree => (.error outsideSchedule, tree)
  | .prepareMutationHelper _, tree => (.error outsideSchedule, tree)
  | .cleanupMutationHelper _, tree => (.error outsideSchedule, tree)
  | .openSourceTree _, tree => (.error (.deviceOperation outsideSchedule), tree)
  | .scanSourceTree _, tree => (.error (.deviceOperation outsideSchedule), tree)
  | .stageReviewedSourceFile _ _, tree => (.error (.deviceOperation outsideSchedule), tree)

/-! Scans of trees. -/

@[simp] theorem manifestEntry_relativePath (path : String) (node : DirectoryNode) :
    (manifestEntry path node).relativePath = path := by
  cases node <;> rfl

@[simp] theorem manifestEntry_kind (path : String) (node : DirectoryNode) :
    (manifestEntry path node).kind = entryKind node.kind := by
  cases node <;> rfl

variable {tree : DirectoryTree}

theorem mem_scan {entry : CopyManifestEntry} :
    entry ∈ scan tree ↔ ∃ node, tree.node entry.relativePath = some node ∧
      manifestEntry entry.relativePath node = entry := by
  simp only [scan, List.mem_map, Prod.exists, tree.mem_listing]
  constructor
  · rintro ⟨path, node, found, rfl⟩
    exact ⟨node, by simpa using found, by simp⟩
  · rintro ⟨node, found, made⟩
    exact ⟨_, node, found, made⟩

theorem scan_sorted (tree : DirectoryTree) : SortedPaths (scan tree) := by
  rw [SortedPaths, scan, List.pairwise_map]
  simpa using tree.listing_sorted

theorem uniquePaths_scan (tree : DirectoryTree) : UniquePaths (scan tree) :=
  (scan_sorted tree).unique

theorem findEntry_scan (tree : DirectoryTree) (path : String) :
    findEntry (scan tree) path = (tree.node path).map (manifestEntry path) := by
  apply Option.ext
  intro entry
  rw [findEntry_eq_some (uniquePaths_scan tree), mem_scan, Option.map_eq_some_iff]
  constructor
  · rintro ⟨⟨node, found, made⟩, rfl⟩
    exact ⟨node, found, made⟩
  · rintro ⟨node, found, rfl⟩
    exact ⟨⟨node, by simpa using found, by simp⟩, by simp⟩

theorem kindByPath_scan (tree : DirectoryTree) (path : String) :
    (kindByPath (scan tree))[path]? = (tree.kindAt path).map entryKind := by
  rw [kindByPath_get (uniquePaths_scan tree), findEntry_scan, FileTree.kindAt]
  cases tree.node path <;> simp

theorem entryKind_injective {left right : TreeNodeKind} :
    entryKind left = entryKind right ↔ left = right := by
  cases left <;> cases right <;> simp [entryKind]

/-! The reviewed deletion set of two scanned trees. -/

def Deletes (operation : CopyCommitOperation) (source destination : DirectoryTree)
    (path : String) : Prop :=
  match operation with
  | .addUpdate => False
  | .replace => (destination.node path).isSome
  | .mirror => (destination.node path).isSome ∧ source.kindAt path ≠ destination.kindAt path

variable {path : String}

theorem hasSourceFileAncestor_scan {source : DirectoryTree} (isNamed : TextPath.named path = true)
    (beneath : hasSourceFileAncestor (kindByPath (scan source)) path = true) :
    source.node path = none := by
  have nonempty : ∃ first rest, path.toList = first :: rest ∧ first ≠ '/' := by
    cases chars : path.toList with
    | nil => simp [TextPath.named, TextPath.parts, chars, TextPath.isName] at isNamed
    | cons first rest =>
        refine ⟨first, rest, rfl, ?_⟩
        rintro rfl
        simp [TextPath.named, TextPath.parts, chars, SlashPath.splitOn_cons,
          TextPath.isName] at isNamed
  obtain ⟨first, rest, chars, notSlash⟩ := nonempty
  have read := SlashPath.scanPrefixes_splitOn '/' first rest notSlash
  simp only [hasSourceFileAncestor, TextPath.parts, chars, read, List.any_eq_true] at beneath
  obtain ⟨above, taken, found⟩ := beneath
  have member := List.all_eq_true.mp List.all_takeWhile _ taken
  have listed := (List.takeWhile_subset _) taken
  simp only [List.map_append, List.map_cons, List.map_nil, List.mem_append,
    List.mem_singleton] at listed
  have different : above ≠ path := by simpa using member
  have whole : String.ofList (first :: rest) = path := by rw [← chars, String.ofList_toList]
  rcases listed with higher | same
  · have higher : TextPath.Ancestor above path :=
      TextPath.mem_ancestors.mp (by simpa [TextPath.ancestors, chars] using higher)
    by_contra present
    have directory := kindAt_ancestor (Option.isSome_iff_ne_none.mpr present)
      (TextPath.tree_ancestor_iff.mpr higher)
    simp [kindByPath_scan, directory, entryKind] at found
  · exact absurd (same.trans whole) different

variable {source destination : DirectoryTree} {operation : CopyCommitOperation}

theorem shouldDelete_scan {node : DirectoryNode} (present : destination.node path = some node) :
    shouldDelete operation (kindByPath (scan source)) (manifestEntry path node) = true ↔
      Deletes operation source destination path := by
  have isNamed : TextPath.named path = true := destination.named path node present
  cases operation with
  | addUpdate => simp [shouldDelete, Deletes]
  | replace => simp [shouldDelete, Deletes, present]
  | mirror =>
      have kinds : (kindByPath (scan source))[path]? = some (entryKind node.kind) ↔
          source.kindAt path = destination.kindAt path := by
        rw [kindByPath_scan, FileTree.kindAt, FileTree.kindAt, present]
        cases source.node path <;> simp [entryKind_injective]
      simp only [shouldDelete, manifestEntry_relativePath, manifestEntry_kind, Deletes, present,
        Option.isSome_some, true_and, kinds, Bool.or_eq_true, Bool.not_eq_true',
        decide_eq_false_iff_not]
      constructor
      · rintro (different | beneath)
        · exact different
        · have absent := hasSourceFileAncestor_scan isNamed beneath
          simp [FileTree.kindAt, absent, present]
      · exact .inl

theorem mem_reviewedDeletions_scan {deletions : List String}
    (reviewed : reviewedDeletions operation (scan source) (scan destination) = .ok deletions)
    : path ∈ deletions ↔ Deletes operation source destination path := by
  rw [(reviewedDeletions_eq_ok reviewed).1, List.mem_insertionSort, List.mem_map]
  constructor
  · rintro ⟨entry, kept, rfl⟩
    obtain ⟨member, deleted⟩ := List.mem_filter.mp kept
    obtain ⟨node, found, made⟩ := mem_scan.mp member
    exact (shouldDelete_scan found).mp (by rwa [made])
  · intro deletes
    have present : (destination.node path).isSome := by
      cases operation with
      | addUpdate => exact deletes.elim
      | replace => exact deletes
      | mirror => exact deletes.1
    obtain ⟨node, found⟩ := Option.isSome_iff_exists.mp present
    refine ⟨manifestEntry path node, List.mem_filter.mpr ⟨?_, ?_⟩, by simp⟩
    · exact mem_scan.mpr ⟨node, by simpa using found, by simp⟩
    · exact (shouldDelete_scan found).mpr deletes

theorem Deletes.present (deletes : Deletes operation source destination path) :
    (destination.node path).isSome := by
  cases operation with
  | addUpdate => exact deletes.elim
  | replace => exact deletes
  | mirror => exact deletes.1

theorem Deletes.beneath {path below : String} (deletes : Deletes operation source destination path)
    (higher : FileTree.Ancestor path below) (present : (destination.node below).isSome) :
    Deletes operation source destination below := by
  cases operation with
  | addUpdate => exact deletes.elim
  | replace => exact present
  | mirror =>
      refine ⟨present, fun same => deletes.2 ?_⟩
      have sourcePresent : (source.node below).isSome := by
        have kind : (source.kindAt below).isSome := by
          rw [same]
          simpa [FileTree.kindAt] using present
        simpa [FileTree.kindAt] using kind
      rw [kindAt_ancestor sourcePresent higher, kindAt_ancestor present higher]

theorem kindAt_survivor {deletions : List String}
    (reviewed : reviewedDeletions operation (scan source) (scan destination) = .ok deletions)
    {wanted found : DirectoryNode} (inSource : source.node path = some wanted)
    (inDestination : destination.node path = some found) (survives : path ∉ deletions) :
    found.kind = wanted.kind := by
  rw [mem_reviewedDeletions_scan reviewed] at survives
  cases operation with
  | addUpdate =>
      have valid := Checks.forM_eq_ok.mp ((reviewedDeletions_eq_ok reviewed).2 rfl)
        (manifestEntry path wanted) (mem_scan.mpr ⟨wanted, by simpa using inSource, by simp⟩)
      by_contra different
      obtain ⟨_, same, _⟩ := Checks.bind_eq_ok.mp valid
      rw [Checks.require_eq_ok] at same
      simp [kindByPath_scan, FileTree.kindAt, inDestination, entryKind_injective, different]
        at same
  | replace => simp [Deletes, inDestination] at survives
  | mirror =>
      have same : source.kindAt path = destination.kindAt path := by
        simpa [Deletes, inDestination] using survives
      simpa [FileTree.kindAt, inSource, inDestination] using same.symm

/-! One reviewed mutation on an ideal device. -/

def Tracks (manifest : List CopyManifestEntry) (tree : DirectoryTree) (path : String) : Prop :=
  findEntry manifest path = (tree.node path).map (manifestEntry path)

def Identified (tree : DirectoryTree) : Prop :=
  ∀ path node, tree.node path = some node → node.identity.isSome

theorem identified_iff :
    Identified tree ↔ ∀ entry ∈ scan tree, entry.entryIdentity.isSome = true := by
  constructor
  · intro identified entry member
    obtain ⟨node, found, made⟩ := mem_scan.mp member
    have known := identified _ node found
    rw [← made]
    cases node <;> exact known
  · intro identified path node found
    have known := identified (manifestEntry path node)
      (mem_scan.mpr ⟨node, by simpa using found, by simp⟩)
    cases node <;> exact known

theorem mutationEntryPrecondition_tracked {manifest : List CopyManifestEntry}
    (tracked : Tracks manifest tree path)
    (identified : ∀ node, tree.node path = some node → node.identity.isSome) :
    mutationEntryPrecondition manifest path = .ok (observedEntry tree path) := by
  unfold mutationEntryPrecondition observedEntry
  rw [tracked]
  cases found : tree.node path with
  | none => rfl
  | some node =>
      have known := identified node found
      cases node with
      | directory identity =>
          cases identity with
          | none => simp [TreeNode.identity] at known
          | some identity => rfl
      | file identity digest =>
          cases identity with
          | none => simp [TreeNode.identity] at known
          | some identity => rfl

section

variable {sha256 : List UInt8 → List UInt8} {freshIdentity : String → Option String}
  {context : MutationContext} {state : MutationState}

theorem applyMutation_idealDevice {mutation : CopyCommitMutation} {tree after : DirectoryTree}
    {manifest : List CopyManifestEntry}
    (tracked : Tracks state.currentManifest tree mutation.relativePath)
    (identified : ∀ node, tree.node mutation.relativePath = some node → node.identity.isSome)
    (changed : applyToTree freshIdentity tree mutation = .ok after)
    (simulated : applyManifestMutation state.currentManifest context.request.sourceManifest
      mutation = .ok manifest) :
    Program.attempt (idealDevice freshIdentity)
        (applyMutation sha256 context state mutation) tree =
      (.ok { state with currentManifest := manifest }, after) := by
  have expected := mutationEntryPrecondition_tracked tracked identified
  have performed : idealDevice freshIdentity (.applySelectedRootMutation
      context.request.destinationIdentity context.reviewedBinding context.stageRoot
      context.helperPath (observedEntry tree mutation.relativePath) mutation) tree =
      (.ok (), after) := by
    simp [idealDevice, changed]
  have answered : Program.attempt (idealDevice freshIdentity) (ExceptT.lift
      (applySelectedRootMutation context.request.destinationIdentity context.reviewedBinding
        context.stageRoot context.helperPath (observedEntry tree mutation.relativePath)
        mutation) : MutationAttempt _) tree = (.ok (.ok ()), after) :=
    congrArg (fun answer => (Except.ok answer.1, answer.2)) performed
  have mutated : Program.attempt (idealDevice freshIdentity) (orReported sha256 context state
      (fun error => mutationLabel mutation ++ " failed: " ++ error.message)
      (applySelectedRootMutation context.request.destinationIdentity context.reviewedBinding
        context.stageRoot context.helperPath (observedEntry tree mutation.relativePath)
        mutation)) tree = (.ok (), after) :=
    Program.attempt_bind_ok answered
  simp only [applyMutation, orFailed, expected, simulated]
  exact (Program.attempt_bind_ok rfl).trans ((Program.attempt_bind_ok mutated).trans rfl)

structure Deleted (destination : DirectoryTree) (passed : List String) (state : MutationState)
    (tree : DirectoryTree) : Prop where
  unique : UniquePaths state.currentManifest
  tracks : ∀ path, Tracks state.currentManifest tree path
  node : ∀ path, tree.node path = if path ∈ passed then none else destination.node path

theorem pairwise_insertionSort_key {α κ : Type} [LinearOrder κ] (key : α → κ)
    {before : α → α → Prop} [DecidableRel before]
    (same : ∀ left right, before left right ↔ key left ≤ key right) (items : List α) :
    (items.insertionSort before).Pairwise before := by
  have total : Std.Total before := ⟨fun left right => by
    rw [same, same]
    exact le_total _ _⟩
  have transitive : IsTrans α before := ⟨fun first second third upper lower => by
    rw [same] at upper lower ⊢
    exact upper.trans lower⟩
  exact List.pairwise_insertionSort _ _

def deepestKey (path : String) : Lex (Natᵒᵈ × String) :=
  toLex (OrderDual.toDual (TextPath.depth path), path)

theorem deepestFirst_iff {left right : String} :
    deepestFirst left right = true ↔ deepestKey left ≤ deepestKey right := by
  simp only [deepestFirst, deepestKey, Prod.Lex.toLex_le_toLex, Bool.or_eq_true, Bool.and_eq_true,
    decide_eq_true_eq, OrderDual.toDual_lt_toDual, EmbeddingLike.apply_eq_iff_eq]

theorem deletionOrder_sorted (request : CopyCommitRequest) :
    (deletionOrder request).Pairwise fun left right => deepestFirst left right = true :=
  pairwise_insertionSort_key deepestKey (fun _ _ => deepestFirst_iff) _

theorem beneath_deleted_first {request : CopyCommitRequest} {passed rest : List String}
    {path below : String} (split : deletionOrder request = passed ++ path :: rest)
    (higher : TextPath.Ancestor path below) (deleted : below ∈ request.reviewedDeletionSet) :
    below ∈ passed := by
  have deeper := higher.depth_lt
  have listed := (deletionOrder_perm request).mem_iff.mpr deleted
  rw [split, List.mem_append, List.mem_cons] at listed
  rcases listed with before | same | after
  · exact before
  · rw [same] at deeper
    omega
  · have sorted := deletionOrder_sorted request
    rw [split, List.pairwise_append, List.pairwise_cons] at sorted
    have order := sorted.2.1.1 below after
    simp only [deepestFirst, Bool.or_eq_true, Bool.and_eq_true, decide_eq_true_eq] at order
    omega

structure ReviewedTrees (request : CopyCommitRequest) (source destination : DirectoryTree) :
    Prop where
  identified : Identified destination
  sourceScan : request.sourceManifest = scan source
  destinationScan : request.destinationManifest = scan destination
  reviewed : reviewedDeletions request.operation (scan source) (scan destination) =
    .ok request.reviewedDeletionSet

def deletionOf (kind : CopyEntryKind) (path : String) : CopyCommitMutation :=
  match kind with
  | .file => .removeFile path
  | .directory => .removeDirectory path

@[simp] theorem relativePath_deletionOf (kind : CopyEntryKind) (path : String) :
    (deletionOf kind path).relativePath = path := by
  cases kind <;> rfl

theorem applyManifestMutation_deletionOf {manifest source : List CopyManifestEntry}
    (kind : CopyEntryKind) (path : String) :
    applyManifestMutation manifest source (deletionOf kind path) =
      .ok (replaceEntry manifest path none) := by
  cases kind <;> rfl

theorem deletion_advances
    (trees : ReviewedTrees context.request source destination) {passed rest : List String}
    (split : deletionOrder context.request = passed ++ path :: rest)
    (held : Deleted destination passed state tree) :
    ∃ node after, destination.node path = some node ∧ tree.node path = some node ∧
      applyToTree freshIdentity tree (deletionOf (entryKind node.kind) path) = .ok after ∧
      ∀ next : MutationState, next.currentManifest = replaceEntry state.currentManifest path none →
        Deleted destination (passed ++ [path]) next after := by
  have listed : path ∈ context.request.reviewedDeletionSet :=
    (deletionOrder_perm context.request).mem_iff.mp (by simp [split])
  have deletes := (mem_reviewedDeletions_scan trees.reviewed).mp listed
  obtain ⟨node, present⟩ := Option.isSome_iff_exists.mp deletes.present
  have notPassed : path ∉ passed := by
    have distinct := nodup_reviewedDeletions (uniquePaths_scan destination) trees.reviewed
    rw [← (deletionOrder_perm context.request).nodup_iff, split] at distinct
    exact fun before => (List.nodup_append.mp distinct).2.2 path before path (by simp) rfl
  have here : tree.node path = some node := by rw [held.node, if_neg notPassed, present]
  have childless : tree.hasChild path = false := by
    apply FileTree.hasChild_eq_false
    intro below higher
    rw [held.node]
    split
    next => rfl
    next survives =>
      by_contra found
      have inside := deletes.beneath higher (Option.isSome_iff_ne_none.mpr found)
      exact survives (beneath_deleted_first split (TextPath.tree_ancestor_iff.mp higher)
        ((mem_reviewedDeletions_scan trees.reviewed).mpr inside))
  obtain ⟨after, removed, nodes⟩ : ∃ after,
      applyToTree freshIdentity tree (deletionOf (entryKind node.kind) path) = .ok after ∧
      ∀ query, after.node query = if query = path then none else tree.node query := by
    cases node with
    | directory identity =>
        have kind : tree.kindAt path = some .directory := by
          simp [FileTree.kindAt, here, TreeNode.kind]
        exact FileTree.removeDirectory_ok kind childless
    | file identity digest =>
        have kind : tree.kindAt path = some .file := by
          simp [FileTree.kindAt, here, TreeNode.kind]
        exact FileTree.unlinkFile_ok kind
  refine ⟨node, after, present, here, removed, fun next simulated => ⟨?_, ?_, ?_⟩⟩
  · rw [simulated]
    exact uniquePaths_replaceEntry held.unique (by simp)
  · intro query
    rw [Tracks, simulated, findEntry_replaceEntry held.unique (by simp), nodes, held.tracks query]
    split <;> rfl
  · intro query
    rw [nodes, held.node]
    by_cases same : query = path <;> simp [same]

theorem deleteReviewed_idealDevice
    (trees : ReviewedTrees context.request source destination) {passed rest : List String}
    (split : deletionOrder context.request = passed ++ path :: rest)
    (held : Deleted destination passed state tree) :
    ∃ next after, Program.attempt (idealDevice freshIdentity)
        (deleteReviewed sha256 context state path) tree = (.ok next, after) ∧
      Deleted destination (passed ++ [path]) next after ∧
      next.deletedPaths = state.deletedPaths ++ [path] ∧ next.copiedPaths = state.copiedPaths := by
  obtain ⟨node, after, present, here, removed, advances⟩ := deletion_advances trees split held
  have entry : findEntry context.request.destinationManifest path =
      some (manifestEntry path node) := by
    rw [trees.destinationScan, findEntry_scan, present, Option.map_some]
  have identified : ∀ found, tree.node path = some found → found.identity.isSome := by
    intro found same
    exact trees.identified path found (present.trans (here.symm.trans same))
  have applied := @applyMutation_idealDevice sha256 freshIdentity context state
    (deletionOf (entryKind node.kind) path) tree after _
    (by rw [relativePath_deletionOf]; exact held.tracks path)
    (by rw [relativePath_deletionOf]; exact identified) removed
    (applyManifestMutation_deletionOf _ _)
  refine ⟨_, after, ?_, advances { state with
    deletedPaths := state.deletedPaths ++ [path]
    currentManifest := replaceEntry state.currentManifest path none } rfl, rfl, rfl⟩
  unfold deleteReviewed
  rw [entry]
  dsimp only
  rw [manifestEntry_kind]
  cases kind : node.kind with
  | directory =>
      rw [kind] at applied
      exact Program.attempt_bind_ok applied
  | file =>
      rw [kind] at applied
      exact Program.attempt_bind_ok applied

theorem mem_paths_entriesOfKind {kind : CopyEntryKind} :
    path ∈ manifestPaths (entriesOfKind kind (scan tree)) ↔
      ∃ node, tree.node path = some node ∧ entryKind node.kind = kind := by
  simp only [manifestPaths, entriesOfKind, List.mem_map, List.mem_filter, mem_scan,
    decide_eq_true_eq]
  constructor
  · rintro ⟨entry, ⟨⟨node, found, made⟩, isKind⟩, rfl⟩
    exact ⟨node, found, by rw [← isKind, ← made, manifestEntry_kind]⟩
  · rintro ⟨node, found, isKind⟩
    exact ⟨manifestEntry path node, ⟨⟨node, by simpa using found, by simp⟩, by simpa using isKind⟩,
      by simp⟩

variable {entry : CopyManifestEntry}

theorem passed_iff_lt_of_sorted {listing passed rest : List CopyManifestEntry}
    (ascending : SortedPaths listing)
    (split : listing = passed ++ entry :: rest) (listed : path ∈ manifestPaths listing) :
    path ∈ manifestPaths passed ↔ path < entry.relativePath := by
  have sorted : (manifestPaths listing).Pairwise (· < ·) := List.pairwise_map.mpr ascending
  rw [split, manifestPaths, List.map_append, List.map_cons] at sorted listed
  rw [List.pairwise_append, List.pairwise_cons] at sorted
  constructor
  · exact fun before => sorted.2.2 path before entry.relativePath (by simp)
  · intro lower
    rcases List.mem_append.mp listed with before | here
    · exact before
    · rcases List.mem_cons.mp here with same | after
      · exact absurd lower (by simp [same])
      · exact absurd lower (not_lt_of_gt (sorted.2.1.1 path after))

variable {passed rest : List CopyManifestEntry}

theorem passed_iff_lt {kind : CopyEntryKind}
    (split : entriesOfKind kind (scan tree) = passed ++ entry :: rest)
    (listed : path ∈ manifestPaths (entriesOfKind kind (scan tree))) :
    path ∈ manifestPaths passed ↔ path < entry.relativePath :=
  passed_iff_lt_of_sorted ((scan_sorted tree).sublist List.filter_sublist) split listed

structure Ensured (freshIdentity : String → Option String) (before : DirectoryTree)
    (passed : List CopyManifestEntry) (state : MutationState) (tree : DirectoryTree) :
    Prop where
  unique : UniquePaths state.currentManifest
  tracks : ∀ path, path ∉ manifestPaths passed → Tracks state.currentManifest tree path
  node : ∀ path, tree.node path =
    if path ∈ manifestPaths passed then
      some ((before.node path).getD (.directory (freshIdentity path)))
    else before.node path

def Compatible (source before : DirectoryTree) : Prop :=
  ∀ path wanted found, source.node path = some wanted → before.node path = some found →
    found.kind = wanted.kind

theorem manifestPaths_append_singleton {passed : List CopyManifestEntry} :
    path ∈ manifestPaths (passed ++ [entry]) ↔
      path ∈ manifestPaths passed ∨ path = entry.relativePath := by
  simp [manifestPaths]

theorem tracks_elsewhere {manifest next source : List CopyManifestEntry}
    {mutation : CopyCommitMutation} {tree after : DirectoryTree} (unique : UniquePaths manifest)
    (simulated : applyManifestMutation manifest source mutation = .ok next)
    (kept : after.node path = tree.node path) (different : path ≠ mutation.relativePath)
    (tracked : Tracks manifest tree path) : Tracks next after path := by
  rw [Tracks, (applyManifestMutation_ok unique simulated).2 path different, kept]
  exact tracked

variable {before : DirectoryTree}

theorem ensureReviewed_idealDevice
    (compatible : Compatible source before) (identified : Identified before)
    (split : entriesOfKind .directory (scan source) = passed ++ entry :: rest)
    (held : Ensured freshIdentity before passed state tree) :
    ∃ next after, Program.attempt (idealDevice freshIdentity)
        (ensureReviewed sha256 context state entry) tree = (.ok next, after) ∧
      Ensured freshIdentity before (passed ++ [entry]) next after ∧
      next.deletedPaths = state.deletedPaths ∧ next.copiedPaths = state.copiedPaths := by
  have listed : entry.relativePath ∈ manifestPaths (entriesOfKind .directory (scan source)) :=
    List.mem_map_of_mem (by simp [split])
  obtain ⟨wanted, inSource, isDirectory⟩ := mem_paths_entriesOfKind.mp listed
  have notPassed : entry.relativePath ∉ manifestPaths passed := by
    rw [passed_iff_lt split listed]
    exact lt_irrefl _
  have here : tree.node entry.relativePath = before.node entry.relativePath := by
    rw [held.node, if_neg notPassed]
  have directory : wanted.kind = .directory := entryKind_injective.mp isDirectory
  have placed : tree.parentIsDirectory entry.relativePath = true := by
    apply parentIsDirectory_of_ancestors
    intro above higher
    have upper := kindAt_ancestor (Option.isSome_of_eq_some inSource) higher
    obtain ⟨upperNode, upperFound, upperKind⟩ := Option.map_eq_some_iff.mp upper
    have upperPassed : above ∈ manifestPaths passed :=
      (passed_iff_lt split (mem_paths_entriesOfKind.mpr
        ⟨upperNode, upperFound, by rw [upperKind]; rfl⟩)).mpr higher.lt
    rw [FileTree.kindAt, held.node, if_pos upperPassed]
    cases found : before.node above with
    | none => rfl
    | some node =>
        have same := compatible above upperNode node upperFound found
        simp [same, upperKind]
  have notFile : tree.kindAt entry.relativePath ≠ some .file := by
    rw [FileTree.kindAt, here]
    cases found : before.node entry.relativePath with
    | none => simp
    | some node =>
        have same := compatible _ wanted node inSource found
        simp [same, directory]
  obtain ⟨after, made, nodes⟩ := FileTree.makeDirectory_ok
    (freshIdentity entry.relativePath) (source.named _ wanted inSource) placed notFile
  obtain ⟨manifest, simulated⟩ : ∃ manifest, applyManifestMutation state.currentManifest
      context.request.sourceManifest (.ensureDirectory entry.relativePath) = .ok manifest := by
    simp only [applyManifestMutation]
    split <;> exact ⟨_, rfl⟩
  have known : ∀ node, tree.node entry.relativePath = some node → node.identity.isSome :=
    fun node found => identified _ node (here ▸ found)
  refine ⟨_, after, applyMutation_idealDevice (held.tracks _ notPassed) known made simulated,
    ⟨(applyManifestMutation_ok held.unique simulated).1, ?_, ?_⟩, rfl, rfl⟩
  · intro path untouched
    rw [manifestPaths_append_singleton, not_or] at untouched
    exact tracks_elsewhere held.unique simulated (by rw [nodes, if_neg untouched.2])
      untouched.2 (held.tracks path untouched.1)
  · intro path
    rw [nodes]
    by_cases same : path = entry.relativePath
    · simp [same, manifestPaths_append_singleton, here]
    · simp [same, manifestPaths_append_singleton, held.node]

def republished (identity : Option String) : DirectoryNode → DirectoryNode
  | .directory _ => .directory identity
  | .file _ digest => .file identity digest

structure Published (freshIdentity : String → Option String) (source before : DirectoryTree)
    (passed : List CopyManifestEntry) (state : MutationState) (tree : DirectoryTree) :
    Prop where
  unique : UniquePaths state.currentManifest
  tracks : ∀ path, source.kindAt path ≠ some .directory → path ∉ manifestPaths passed →
    Tracks state.currentManifest tree path
  node : ∀ path, tree.node path =
    if path ∈ manifestPaths passed then
      (source.node path).map (republished (freshIdentity path))
    else before.node path

theorem publishReviewed_idealDevice (sourceScan : context.request.sourceManifest = scan source)
    (directories : ∀ path, source.kindAt path = some .directory →
      before.kindAt path = some .directory)
    (compatible : Compatible source before)
    (identified : ∀ path node, source.kindAt path = some .file → before.node path = some node →
      node.identity.isSome) (split : entriesOfKind .file (scan source) = passed ++ entry :: rest)
    (held : Published freshIdentity source before passed state tree) :
    ∃ next after, Program.attempt (idealDevice freshIdentity)
        (publishReviewed sha256 context state entry) tree = (.ok next, after) ∧
      Published freshIdentity source before (passed ++ [entry]) next after ∧
      next.deletedPaths = state.deletedPaths ∧
      next.copiedPaths = state.copiedPaths ++ [entry.relativePath] := by
  have entryListed : entry ∈ entriesOfKind .file (scan source) := by simp [split]
  have listed : entry.relativePath ∈ manifestPaths (entriesOfKind .file (scan source)) :=
    List.mem_map_of_mem entryListed
  obtain ⟨wanted, inSource, isFile⟩ := mem_paths_entriesOfKind.mp listed
  obtain ⟨identity, digest, rfl⟩ : ∃ identity digest, wanted = .file identity digest := by
    cases wanted with
    | directory identity => simp [TreeNode.kind, entryKind] at isFile
    | file identity digest => exact ⟨identity, digest, rfl⟩
  have made : manifestEntry entry.relativePath (.file identity digest) = entry := by
    obtain ⟨node, found, made⟩ := mem_scan.mp (List.mem_filter.mp entryListed).1
    rw [inSource] at found
    exact Option.some.inj found ▸ made
  have notPassed : entry.relativePath ∉ manifestPaths passed := by
    rw [passed_iff_lt split listed]
    exact lt_irrefl _
  have here : tree.node entry.relativePath = before.node entry.relativePath := by
    rw [held.node, if_neg notPassed]
  have sourceKind : source.kindAt entry.relativePath = some .file := by
    simp [FileTree.kindAt, inSource, TreeNode.kind]
  have placed : tree.parentIsDirectory entry.relativePath = true := by
    apply parentIsDirectory_of_ancestors
    intro above higher
    have upper := kindAt_ancestor (Option.isSome_of_eq_some inSource) higher
    have upperOutside : above ∉ manifestPaths passed := by
      intro inside
      have upperListed : above ∈ manifestPaths (entriesOfKind .file (scan source)) := by
        rw [split, manifestPaths, List.map_append, List.mem_append]
        exact .inl inside
      obtain ⟨node, found, isKind⟩ := mem_paths_entriesOfKind.mp upperListed
      have kind : node.kind = .directory := by simpa [FileTree.kindAt, found] using upper
      simp [kind, entryKind] at isKind
    rw [FileTree.kindAt, held.node, if_neg upperOutside]
    exact directories above upper
  have notDirectory : tree.kindAt entry.relativePath ≠ some .directory := by
    rw [FileTree.kindAt, here]
    cases found : before.node entry.relativePath with
    | none => simp
    | some node =>
        have same : node.kind = .file := compatible _ _ node inSource found
        simp [same]
  obtain ⟨after, published, nodes⟩ := FileTree.publishFile_ok
    (freshIdentity entry.relativePath) digest (source.named _ _ inSource) placed notDirectory
  obtain ⟨manifest, simulated⟩ : ∃ manifest, applyManifestMutation state.currentManifest
      context.request.sourceManifest (.publishFile entry.relativePath digest) = .ok manifest := by
    simp only [applyManifestMutation, sourceScan, findEntry_scan, inSource, Option.map_some]
    exact ⟨_, rfl⟩
  have known : ∀ node, tree.node entry.relativePath = some node → node.identity.isSome :=
    fun node found => identified _ node sourceKind (here ▸ found)
  have entryDigest : entry.sha256 = some digest := by rw [← made]; rfl
  have notSourceDirectory : source.kindAt entry.relativePath ≠ some .directory := by
    simp [sourceKind]
  have tracked : Tracks state.currentManifest tree
      (CopyCommitMutation.publishFile entry.relativePath digest).relativePath :=
    held.tracks _ notSourceDirectory notPassed
  simp only [publishReviewed, entryDigest]
  refine ⟨_, after, Program.attempt_bind_ok
      (applyMutation_idealDevice tracked known published simulated),
    ⟨(applyManifestMutation_ok held.unique simulated).1, ?_, ?_⟩, rfl, rfl⟩
  · intro path notDirectory untouched
    rw [manifestPaths_append_singleton, not_or] at untouched
    exact tracks_elsewhere held.unique simulated (by rw [nodes, if_neg untouched.2])
      untouched.2 (held.tracks path notDirectory untouched.1)
  · intro path
    rw [nodes]
    by_cases same : path = entry.relativePath
    · simp [same, manifestPaths_append_singleton, inSource, republished]
    · simp [same, manifestPaths_append_singleton, held.node]

def mergedNode (freshIdentity : String → Option String) (source before : DirectoryTree)
    (path : String) : Option DirectoryNode :=
  match source.node path with
  | none => before.node path
  | some (.directory _) => some ((before.node path).getD (.directory (freshIdentity path)))
  | some (.file _ digest) => some (.file (freshIdentity path) digest)

theorem deleted_start (trees : ReviewedTrees context.request source destination) :
    Deleted destination [] ⟨[], [], context.request.destinationManifest⟩ destination :=
  ⟨trees.destinationScan ▸ uniquePaths_scan destination,
    fun path => trees.destinationScan ▸ findEntry_scan destination path, by simp⟩

theorem deletions_run {Op : Type} {Response : Op → Type} {ε : Type}
    {handler : Program.Handler Op Response DirectoryTree}
    {delete : MutationState → String → Program.Attempt Op Response ε MutationState}
    (trees : ReviewedTrees context.request source destination)
    (each : ∀ passed path rest state tree, deletionOrder context.request = passed ++ path :: rest →
      Deleted destination passed state tree → ∃ next after,
        Program.attempt handler (delete state path) tree = (.ok next, after) ∧
          Deleted destination (passed ++ [path]) next after ∧
            next.deletedPaths = state.deletedPaths ++ [path] ∧ next.copiedPaths = state.copiedPaths) :
    ∃ state tree, Program.attempt handler ((deletionOrder context.request).foldlM delete
        ⟨[], [], context.request.destinationManifest⟩) destination = (.ok state, tree) ∧
      Deleted destination (deletionOrder context.request) state tree ∧
      state.deletedPaths = deletionOrder context.request ∧ state.copiedPaths = [] := by
  refine @Program.attempt_foldlM_ok _ _ _ _ _ _ _ _ _ _ _ (fun passed state tree =>
    Deleted destination passed state tree ∧ state.deletedPaths = passed ∧ state.copiedPaths = [])
    ⟨deleted_start trees, rfl, rfl⟩ ?_
  rintro passed path rest state tree split ⟨held, listed, none⟩
  obtain ⟨next, after, ran, advanced, deletes, copies⟩ := each passed path rest state tree split held
  exact ⟨next, after, ran, advanced, by rw [deletes, listed], copies.trans none⟩

theorem directories_idealDevice (state : MutationState)
    (compatible : Compatible source before) (identified : Identified before)
    (unique : UniquePaths state.currentManifest)
    (tracks : ∀ path, Tracks state.currentManifest before path) :
    ∃ next tree, Program.attempt (idealDevice freshIdentity)
        ((entriesOfKind .directory (scan source)).foldlM (ensureReviewed sha256 context) state)
          before = (.ok next, tree) ∧
      Ensured freshIdentity before (entriesOfKind .directory (scan source)) next tree ∧
      next.deletedPaths = state.deletedPaths ∧ next.copiedPaths = state.copiedPaths := by
  have start : Ensured freshIdentity before [] state before :=
    ⟨unique, fun path _ => tracks path, by simp [manifestPaths]⟩
  refine @Program.attempt_foldlM_ok _ _ _ _ _ _ _ _ _ _ _ (fun passed next tree =>
    Ensured freshIdentity before passed next tree ∧ next.deletedPaths = state.deletedPaths ∧
      next.copiedPaths = state.copiedPaths) ⟨start, rfl, rfl⟩ ?_
  rintro passed entry rest current tree split ⟨held, deletes, copies⟩
  obtain ⟨next, after, ran, advanced, sameDeletes, sameCopies⟩ :=
    ensureReviewed_idealDevice compatible identified split held
  exact ⟨next, after, ran, advanced, sameDeletes.trans deletes, sameCopies.trans copies⟩

theorem files_idealDevice (sourceScan : context.request.sourceManifest = scan source)
    (directories : ∀ path, source.kindAt path = some .directory →
      before.kindAt path = some .directory)
    (compatible : Compatible source before)
    (identified : ∀ path node, source.kindAt path = some .file → before.node path = some node →
      node.identity.isSome)
    (unique : UniquePaths state.currentManifest)
    (tracks : ∀ path, source.kindAt path ≠ some .directory →
      Tracks state.currentManifest before path) :
    ∃ next tree, Program.attempt (idealDevice freshIdentity)
        ((entriesOfKind .file (scan source)).foldlM (publishReviewed sha256 context) state)
          before = (.ok next, tree) ∧
      Published freshIdentity source before (entriesOfKind .file (scan source)) next tree ∧
      next.deletedPaths = state.deletedPaths ∧
      next.copiedPaths = state.copiedPaths ++ manifestPaths (entriesOfKind .file (scan source)) := by
  have start : Published freshIdentity source before [] state before :=
    ⟨unique, fun path notDirectory _ => tracks path notDirectory, by simp [manifestPaths]⟩
  refine @Program.attempt_foldlM_ok _ _ _ _ _ _ _ _ _ _ _ (fun passed next tree =>
    Published freshIdentity source before passed next tree ∧
      next.deletedPaths = state.deletedPaths ∧
      next.copiedPaths = state.copiedPaths ++ manifestPaths passed)
    ⟨start, rfl, by simp [manifestPaths]⟩ ?_
  rintro passed entry rest current tree split ⟨held, deletes, copies⟩
  obtain ⟨next, after, ran, advanced, sameDeletes, moreCopies⟩ :=
    publishReviewed_idealDevice sourceScan directories compatible identified split held
  refine ⟨next, after, ran, advanced, sameDeletes.trans deletes, ?_⟩
  rw [moreCopies, copies, List.append_assoc, manifestPaths, manifestPaths, List.map_append]
  rfl

theorem mem_paths_directories : path ∈ manifestPaths (entriesOfKind .directory (scan tree)) ↔
      tree.kindAt path = some .directory := by
  rw [mem_paths_entriesOfKind, FileTree.kindAt, Option.map_eq_some_iff]
  simp only [show CopyEntryKind.directory = entryKind .directory from rfl, entryKind_injective]

theorem mem_paths_files :
    path ∈ manifestPaths (entriesOfKind .file (scan tree)) ↔ tree.kindAt path = some .file := by
  rw [mem_paths_entriesOfKind, FileTree.kindAt, Option.map_eq_some_iff]
  simp only [show CopyEntryKind.file = entryKind .file from rfl, entryKind_injective]

theorem insertionSort_eq_of_perm {left right : List String} (same : left.Perm right) :
    left.insertionSort (· ≤ ·) = right.insertionSort (· ≤ ·) :=
  List.Perm.eq_of_pairwise (fun _ _ _ _ => le_antisymm) (List.pairwise_insertionSort _ _)
    (List.pairwise_insertionSort _ _)
    ((List.perm_insertionSort _ _).trans (same.trans (List.perm_insertionSort _ _).symm))

theorem mutateSelectedRoot_tree (trees : ReviewedTrees context.request source destination) :
    ∃ state before after, Program.attempt (idealDevice freshIdentity)
        (mutateSelectedRoot sha256 context) destination = (.ok state, after) ∧
      (∀ path, before.node path =
        if path ∈ context.request.reviewedDeletionSet then none else destination.node path) ∧
      Compatible source before ∧
      (∀ path, after.node path = mergedNode freshIdentity source before path) ∧
      state.deletedPaths = context.request.reviewedDeletionSet.insertionSort (· ≤ ·) ∧
      state.copiedPaths = (manifestPaths (entriesOfKind .file (scan source))).insertionSort (· ≤ ·) := by
  obtain ⟨deletedState, before, deletedRun, deleted, allDeleted, noneCopied⟩ :=
    deletions_run trees fun _ _ _ _ _ => deleteReviewed_idealDevice trees
  have beforeNode : ∀ path, before.node path =
      if path ∈ context.request.reviewedDeletionSet then none else destination.node path := by
    intro path
    rw [deleted.node]
    simp only [(deletionOrder_perm context.request).mem_iff]
  have compatible : Compatible source before := by
    intro path wanted found inSource inBefore
    rw [beforeNode] at inBefore
    split at inBefore
    next => simp at inBefore
    next survives => exact kindAt_survivor trees.reviewed inSource inBefore survives
  have identified : Identified before := by
    intro path node inBefore
    rw [beforeNode] at inBefore
    split at inBefore
    next => simp at inBefore
    next => exact trees.identified path node inBefore
  obtain ⟨ensuredState, middle, ensuredRun, ensured, keptDeleted, keptCopied⟩ := directories_idealDevice
    (sortPaths deletedState) compatible identified deleted.unique deleted.tracks
  have middleNode : ∀ path, middle.node path =
      if source.kindAt path = some .directory then
        some ((before.node path).getD (.directory (freshIdentity path)))
      else before.node path := by
    intro path
    rw [ensured.node]
    exact if_congr mem_paths_directories rfl rfl
  have middleKind : ∀ path, source.kindAt path = some .directory →
      middle.kindAt path = some .directory := by
    intro path wanted
    obtain ⟨node, inSource, isDirectory⟩ := Option.map_eq_some_iff.mp wanted
    rw [FileTree.kindAt, middleNode, if_pos wanted]
    cases found : before.node path with
    | none => rfl
    | some kept => simp [compatible path node kept inSource found, isDirectory]
  have middleCompatible : Compatible source middle := by
    intro path wanted found inSource inMiddle
    by_cases isDirectory : source.kindAt path = some .directory
    · have kind := middleKind path isDirectory
      rw [FileTree.kindAt, inMiddle] at kind
      rw [FileTree.kindAt, inSource] at isDirectory
      exact (Option.some.inj kind).trans (Option.some.inj isDirectory).symm
    · rw [middleNode, if_neg isDirectory] at inMiddle
      exact compatible path wanted found inSource inMiddle
  have middleIdentified : ∀ path node, source.kindAt path = some .file →
      middle.node path = some node → node.identity.isSome := by
    intro path node isFile inMiddle
    rw [middleNode, if_neg (by simp [isFile])] at inMiddle
    exact identified path node inMiddle
  obtain ⟨publishedState, after, publishedRun, published, stillDeleted, allCopied⟩ :=
    files_idealDevice trees.sourceScan
    middleKind middleCompatible middleIdentified ensured.unique
    fun path notDirectory => ensured.tracks path (mem_paths_directories.not.mpr notDirectory)
  refine ⟨sortPaths publishedState, before, after, ?_, beforeNode, compatible, fun path => ?_, ?_, ?_⟩
  · rw [← trees.sourceScan] at ensuredRun publishedRun
    unfold mutateSelectedRoot
    rw [Program.attempt_bind_ok deletedRun, Program.attempt_bind_ok ensuredRun,
      Program.attempt_bind_ok publishedRun, Program.attempt_pure]
  · rw [published.node, middleNode, mergedNode]
    cases inSource : source.node path with
    | none =>
        have absent : source.kindAt path = none := by simp [FileTree.kindAt, inSource]
        simp [mem_paths_files, absent]
    | some node =>
        have kind : source.kindAt path = some node.kind := by simp [FileTree.kindAt, inSource]
        cases node <;> simp [mem_paths_files, kind, TreeNode.kind, republished]
  · refine insertionSort_eq_of_perm ?_
    rw [stillDeleted, keptDeleted, sortPaths, allDeleted]
    exact (List.perm_insertionSort _ _).trans (deletionOrder_perm _)
  · rw [sortPaths, allCopied, keptCopied, sortPaths, noneCopied]
    rfl

def contentAt (tree : DirectoryTree) (path : String) :
    Option (String × CopyEntryKind × Option String) :=
  (tree.node path).map fun node => (manifestEntry path node).content

theorem contentAt_scan (tree : DirectoryTree) (path : String) :
    (findEntry (scan tree) path).map (·.content) = contentAt tree path := by
  rw [findEntry_scan, Option.map_map]
  rfl

def expectedContent (operation : CopyCommitOperation) (source destination : DirectoryTree)
    (path : String) : Option (String × CopyEntryKind × Option String) :=
  match operation with
  | .replace | .mirror => contentAt source path
  | .addUpdate => (contentAt source path).or (contentAt destination path)

theorem contentAt_mergedNode {source destination before after : DirectoryTree}
    (trees : ReviewedTrees context.request source destination)
    (beforeNode : ∀ path, before.node path =
      if path ∈ context.request.reviewedDeletionSet then none else destination.node path)
    (compatible : Compatible source before)
    (afterNode : ∀ path, after.node path = mergedNode freshIdentity source before path)
    (path : String) :
    contentAt after path =
      expectedContent context.request.operation source destination path := by
  have deleted : path ∈ context.request.reviewedDeletionSet ↔
      Deletes context.request.operation source destination path :=
    mem_reviewedDeletions_scan trees.reviewed
  cases inSource : source.node path with
  | some node =>
      have merged : contentAt after path = contentAt source path := by
        rw [contentAt, afterNode, mergedNode, inSource, contentAt, inSource]
        cases node with
        | file identity digest => rfl
        | directory identity =>
            cases found : before.node path with
            | none => rfl
            | some kept =>
                have same : kept.kind = .directory := compatible path _ kept inSource found
                cases kept with
                | directory => rfl
                | file => simp [TreeNode.kind] at same
      have present : ∃ content, contentAt source path = some content := by
        simp [contentAt, inSource]
      obtain ⟨content, isContent⟩ := present
      cases operation : context.request.operation <;>
        simp [expectedContent, merged, isContent]
  | none =>
      have merged : contentAt after path = contentAt before path := by
        rw [contentAt, afterNode, mergedNode, inSource, contentAt]
      have absent : contentAt source path = none := by simp [contentAt, inSource]
      rw [merged, contentAt, beforeNode]
      cases operation : context.request.operation with
      | addUpdate =>
          have kept : path ∉ context.request.reviewedDeletionSet := by
            rw [deleted, operation]
            exact id
          rw [expectedContent, absent, if_neg kept]
          rfl
      | replace =>
          rw [operation] at deleted
          cases found : destination.node path with
          | none => simp [expectedContent, absent]
          | some node =>
              have gone := deleted.mpr (by simp [Deletes, found])
              simp [expectedContent, absent, gone]
      | mirror =>
          rw [operation] at deleted
          cases found : destination.node path with
          | none => simp [expectedContent, absent]
          | some node =>
              have gone := deleted.mpr (by simp [Deletes, FileTree.kindAt, found, inSource])
              simp [expectedContent, absent, gone]

theorem findEntry_expectedManifest_scan (operation : CopyCommitOperation)
    (source destination : DirectoryTree) (path : String) :
    (findEntry (expectedManifest operation (scan source) (scan destination)) path).map
        (·.content) = expectedContent operation source destination path := by
  cases operation with
  | replace => exact contentAt_scan source path
  | mirror => exact contentAt_scan source path
  | addUpdate =>
      rw [findEntry_overlay (uniquePaths_scan source) (uniquePaths_scan destination),
        expectedContent, ← contentAt_scan, ← contentAt_scan]
      cases findEntry (scan source) path <;> rfl

theorem expectedManifest_scan_sorted (operation : CopyCommitOperation)
    (source destination : DirectoryTree) :
    SortedPaths (expectedManifest operation (scan source) (scan destination)) := by
  cases operation with
  | replace => exact scan_sorted source
  | mirror => exact scan_sorted source
  | addUpdate => exact overlay_sorted (uniquePaths_scan source) (uniquePaths_scan destination)

theorem manifestContentMatches_of_contents {source destination after : DirectoryTree}
    (trees : ReviewedTrees context.request source destination)
    (contents : ∀ path, contentAt after path =
      expectedContent context.request.operation source destination path) :
    manifestContentMatches (scan after) (expectedManifest context.request.operation
      context.request.sourceManifest context.request.destinationManifest) = true := by
  rw [manifestContentMatches_iff, trees.sourceScan, trees.destinationScan]
  refine content_eq_of_findEntry (scan_sorted after)
    (expectedManifest_scan_sorted _ source destination) fun path => ?_
  rw [contentAt_scan, contents, findEntry_expectedManifest_scan]

/-- The reviewed schedule never fails against an ideal file tree, and the tree it leaves
lists the expected manifest. -/
theorem mutateSelectedRoot_idealDevice (trees : ReviewedTrees context.request source destination) :
    ∃ state after, Program.attempt (idealDevice freshIdentity)
        (mutateSelectedRoot sha256 context) destination = (.ok state, after) ∧
      manifestContentMatches (scan after) (expectedManifest context.request.operation
        context.request.sourceManifest context.request.destinationManifest) = true ∧
      ∀ path, contentAt after path =
        expectedContent context.request.operation source destination path := by
  obtain ⟨state, before, after, ran, beforeNode, compatible, afterNode, _, _⟩ :=
    mutateSelectedRoot_tree trees
  have contents := contentAt_mergedNode trees beforeNode compatible afterNode
  exact ⟨state, after, ran, manifestContentMatches_of_contents trees contents, contents⟩

end

def emptyTree : DirectoryTree := ⟨∅, by simp, by simp⟩

def sampleSource : DirectoryTree :=
  ((emptyTree.put "bios" (.file none "d1") (by decide) (by decide) (by decide)).put
    "saves" (.directory none) (by decide) (by decide) (by decide)).put
    "saves/slot" (.file none "d2") (by decide) (by decide) (by decide)

def sampleDestination : DirectoryTree :=
  ((emptyTree.put "bios" (.directory (some "i1")) (by decide) (by decide) (by decide)).put
    "bios/old" (.file (some "i2") "d3") (by decide) (by decide) (by decide)).put
    "saves" (.file (some "i3") "d4") (by decide) (by decide) (by decide)

def sampleRequest : CopyCommitRequest where
  operation := .mirror
  sourceRoot := "/host/source"
  destinationIdentity := "/sdcard/Games"
  sourceManifest := scan sampleSource
  destinationManifest := scan sampleDestination
  reviewedDeletionSet := ["bios", "bios/old", "saves"]
  destinationBinding := some "binding"

theorem mutateSelectedRoot_idealDevice_sample :
    ∃ state after, Program.attempt (idealDevice fun path => some ("new " ++ path))
        (mutateSelectedRoot (fun bytes => bytes) ⟨sampleRequest, "binding", "/stage", "/helper"⟩)
          sampleDestination = (.ok state, after) ∧
      manifestContentMatches (scan after) (expectedManifest .mirror (scan sampleSource)
        (scan sampleDestination)) = true ∧
      ∀ path, contentAt after path =
        expectedContent .mirror sampleSource sampleDestination path :=
  mutateSelectedRoot_idealDevice ⟨identified_iff.mpr (by decide), rfl, rfl, by decide⟩

end EmuChef.CopyCommit
