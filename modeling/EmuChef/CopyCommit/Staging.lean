import EmuChef.CopyCommit.Digest
import EmuChef.CopyCommit.Reporting
import EmuChef.CopyCommit.TreeLaw

/-! Every interrupted stage of a reviewed source is taken away again, and nothing else is. -/

namespace EmuChef.CopyCommit

open Program (check attempt Handler)
open EmuChef.FileTree (kindAt_ancestor parentIsDirectory_of_ancestors)
open TextPath (Ancestor named)

/-! The device. -/

def deviceKey (path : String) : String := TextPath.join (TextPath.names path)

def relativeTo (root path : String) : Option String :=
  (Split.stripLead (root.toList ++ ['/']) path.toList).map String.ofList

def scanBeneath (tree : DirectoryTree) (root : String) : List CopyManifestEntry :=
  tree.listing.filterMap fun entry =>
    (relativeTo root entry.1).map fun path => manifestEntry path entry.2

def makeDirectories (freshIdentity : String → Option String) (tree : DirectoryTree)
    (path : String) : Except TreeError DirectoryTree :=
  (TextPath.ancestors path ++ [path]).foldlM
    (fun tree path => tree.makeDirectory path (freshIdentity path)) tree

def refused : DeviceOperationError := ⟨.commandFailed, "the file system refused the operation"⟩

def settled (tree : DirectoryTree) :
    Except TreeError DirectoryTree → Except DeviceOperationError Unit × DirectoryTree
  | .ok next => (.ok (), next)
  | .error _ => (.error refused, tree)

/-- A device whose files are an ideal tree. The host keeps a staged source file under its
digest, and a forced removal accepts that there is no file. -/
def stageDevice (freshIdentity : String → Option String) :
    Handler CommitOp CommitOp.Response DirectoryTree
  | .inspectTree root, tree =>
      if tree.kindAt (deviceKey root) = some .directory then
        (.ok (scanBeneath tree (deviceKey root)), tree)
      else (.error refused, tree)
  | .createDirectory path, tree =>
      if (tree.node (deviceKey path)).isSome then (.error refused, tree)
      else settled tree (tree.makeDirectory (deviceKey path) (freshIdentity (deviceKey path)))
  | .mkdirP path, tree => settled tree (makeDirectories freshIdentity tree (deviceKey path))
  | .pushFile source destination, tree =>
      settled tree
        (tree.publishFile (deviceKey destination) (freshIdentity (deviceKey destination)) source)
  | .removeFile path, tree =>
      if (tree.node (deviceKey path)).isSome then settled tree (tree.unlinkFile (deviceKey path))
      else (.ok (), tree)
  | .removeEmptyDirectory path, tree => settled tree (tree.removeDirectory (deviceKey path))
  | .stageReviewedSourceFile _ expectedSha256, tree => (.ok expectedSha256, tree)
  | .pathBinding _, tree => (.error outsideSchedule, tree)
  | .prepareMutationHelper _, tree => (.error outsideSchedule, tree)
  | .applySelectedRootMutation .., tree => (.error outsideSchedule, tree)
  | .cleanupMutationHelper _, tree => (.error outsideSchedule, tree)
  | .openSourceTree _, tree => (.error (.deviceOperation outsideSchedule), tree)
  | .scanSourceTree _, tree => (.error (.deviceOperation outsideSchedule), tree)

theorem relativeTo_eq_some {root path relative : String} :
    relativeTo root path = some relative ↔ path = root ++ "/" ++ relative := by
  rw [relativeTo, Option.map_eq_some_iff, ← String.toList_inj, TextPath.toList_under]
  constructor
  · rintro ⟨rest, stripped, rfl⟩
    simpa using Split.stripLead_eq_some.mp stripped
  · intro split
    exact ⟨relative.toList, Split.stripLead_eq_some.mpr (by simpa using split), by simp⟩

theorem mem_scanBeneath {tree : DirectoryTree} {root : String} {entry : CopyManifestEntry} :
    entry ∈ scanBeneath tree root ↔
      ∃ node, tree.node (root ++ "/" ++ entry.relativePath) = some node ∧
        manifestEntry entry.relativePath node = entry := by
  simp only [scanBeneath, List.mem_filterMap, Option.map_eq_some_iff, Prod.exists,
    tree.mem_listing, relativeTo_eq_some]
  constructor
  · rintro ⟨path, node, found, relative, rfl, rfl⟩
    exact ⟨node, by simpa using found, by simp⟩
  · rintro ⟨node, found, made⟩
    exact ⟨_, node, found, entry.relativePath, rfl, made⟩

theorem uniquePaths_scanBeneath (tree : DirectoryTree) (root : String) :
    UniquePaths (scanBeneath tree root) := by
  rw [UniquePaths, manifestPaths, List.nodup_iff_pairwise_ne, List.pairwise_map, scanBeneath,
    List.pairwise_filterMap]
  refine tree.listing_sorted.imp fun {left right} before => ?_
  intro first firstMade second secondMade same
  obtain ⟨path, leads, rfl⟩ := Option.map_eq_some_iff.mp firstMade
  obtain ⟨other, otherLeads, rfl⟩ := Option.map_eq_some_iff.mp secondMade
  rw [manifestEntry_relativePath, manifestEntry_relativePath] at same
  rw [relativeTo_eq_some] at leads otherLeads
  exact before.ne (by rw [leads, otherLeads, same])

theorem deviceKey_under {root relative : String} (rootNamed : named (deviceKey root) = true)
    (isNamed : named relative = true) :
    deviceKey (root ++ "/" ++ relative) = deviceKey root ++ "/" ++ relative := by
  have rootSome : TextPath.names root ≠ [] := by
    intro none
    rw [deviceKey, none] at rootNamed
    exact absurd rootNamed (by decide)
  rw [deviceKey, TextPath.names_under, TextPath.join_append rootSome (TextPath.names_ne_nil isNamed),
    TextPath.join_names isNamed, deviceKey]

theorem makeDirectory_present {freshIdentity : String → Option String} {tree : DirectoryTree}
    {path : String} (directory : tree.kindAt path = some .directory) :
    tree.makeDirectory path (freshIdentity path) = .ok tree := by
  obtain ⟨node, found, _⟩ := Option.map_eq_some_iff.mp directory
  have placed : tree.parentIsDirectory path = true :=
    parentIsDirectory_of_ancestors fun upper leads =>
      kindAt_ancestor (Option.isSome_of_eq_some found) leads
  have isNamed : TreePath.named path = true := tree.named path node found
  simp [FileTree.makeDirectory, isNamed, placed, directory]

theorem makeDirectories_of_ancestors {freshIdentity : String → Option String} {tree : DirectoryTree}
    {path : String} (above : ∀ upper, Ancestor upper path → tree.kindAt upper = some .directory) :
    makeDirectories freshIdentity tree path = tree.makeDirectory path (freshIdentity path) := by
  have kept : ∀ paths : List String, (∀ upper ∈ paths, tree.kindAt upper = some .directory) →
      paths.foldlM (fun tree path => tree.makeDirectory path (freshIdentity path)) tree =
        .ok tree := by
    intro paths
    induction paths with
    | nil => exact fun _ => rfl
    | cons upper rest ih =>
        intro all
        rw [List.foldlM_cons, makeDirectory_present (all upper List.mem_cons_self)]
        exact ih fun other member => all other (List.mem_cons_of_mem _ member)
  rw [makeDirectories, List.foldlM_append,
    kept _ fun upper member => above upper (TextPath.mem_ancestors.mp member)]
  change (tree.makeDirectory path (freshIdentity path) >>= fun tree => pure tree) = _
  exact bind_pure _

/-! Manifests that pass validation. -/

theorem checkedChild_of_canonical {relative : String}
    (canonical : checkedRelative (TextPath.components relative) = .ok relative) (root : String) :
    checkedChild root relative = .ok (root ++ "/" ++ relative) := by
  obtain ⟨names, mapped, rest⟩ := Checks.bind_eq_ok.mp canonical
  obtain ⟨_, nonempty, joined⟩ := Checks.bind_eq_ok.mp rest
  have split := checkedComponents_names (Checks.mapM_eq_ok.mp mapped)
  have whole : TextPath.join names = relative := Except.ok.inj joined
  unfold checkedChild
  rw [split]
  refine Checks.bind_eq_ok.mpr ⟨names, ?_, Checks.bind_eq_ok.mpr
    ⟨(), Checks.require_eq_ok.mpr (Checks.require_eq_ok.mp nonempty), by rw [whole]; rfl⟩⟩
  rw [Checks.mapM_eq_ok, List.forall₂_map_left_iff, List.forall₂_same]
  exact fun _ _ => rfl

theorem UniquePaths.perm {left right : List CopyManifestEntry} (unique : UniquePaths right)
    (same : left.Perm right) : UniquePaths left :=
  (same.map _).nodup_iff.mpr unique

theorem UniquePaths.once {passed rest : List CopyManifestEntry} {entry : CopyManifestEntry}
    (unique : UniquePaths (passed ++ entry :: rest)) :
    entry.relativePath ∉ manifestPaths passed ∧ entry.relativePath ∉ manifestPaths rest := by
  rw [UniquePaths, manifestPaths, List.map_append, List.map_cons, List.nodup_append,
    List.nodup_cons] at unique
  exact ⟨fun inside => unique.2.2 _ inside _ List.mem_cons_self rfl, unique.2.1.1⟩

structure ValidEntries (manifest : List CopyManifestEntry) : Prop where
  unique : UniquePaths manifest
  canonical : ∀ entry ∈ manifest,
    checkedRelative (TextPath.components entry.relativePath) = .ok entry.relativePath
  digest : ∀ entry ∈ manifest, validateDigest entry = .ok ()

theorem validateEntry_of_fresh {kinds : Std.ExtTreeMap String CopyEntryKind}
    {entry : CopyManifestEntry}
    (canonical : checkedRelative (TextPath.components entry.relativePath) = .ok entry.relativePath)
    (fresh : kinds[entry.relativePath]? = none) (digest : validateDigest entry = .ok ()) :
    validateEntry kinds entry = .ok (kinds.insert entry.relativePath entry.kind) := by
  refine Checks.bind_eq_ok.mpr ⟨_, canonical, ?_⟩
  refine Checks.bind_eq_ok.mpr ⟨(), Checks.require_eq_ok.mpr rfl, ?_⟩
  refine Checks.bind_eq_ok.mpr ⟨(), Checks.require_eq_ok.mpr fresh, ?_⟩
  exact Checks.bind_eq_ok.mpr ⟨(), digest, rfl⟩

theorem ValidEntries.read {remaining passed : List CopyManifestEntry}
    {kinds : Std.ExtTreeMap String CopyEntryKind} (valid : ValidEntries (passed ++ remaining))
    (known : ∀ path, kinds[path]? = (findEntry passed path).map (·.kind)) :
    ∃ final : Std.ExtTreeMap String CopyEntryKind,
      remaining.foldlM validateEntry kinds = .ok final ∧
        ∀ path, final[path]? = (findEntry (passed ++ remaining) path).map (·.kind) := by
  induction remaining generalizing passed kinds with
  | nil => exact ⟨kinds, rfl, by simpa using known⟩
  | cons entry rest ih =>
      have member : entry ∈ passed ++ entry :: rest := by simp
      have fresh : findEntry passed entry.relativePath = none := by
        rw [findEntry_eq_none]
        intro other inside same
        exact valid.unique.once.1 (same ▸ List.mem_map_of_mem inside)
      have checked := @validateEntry_of_fresh kinds entry (valid.canonical entry member)
        (by simp [known, fresh]) (valid.digest entry member)
      obtain ⟨final, folded, read⟩ := @ih (passed ++ [entry]) (kinds.insert entry.relativePath entry.kind)
        (by simpa using valid) fun path => by
          rw [FileTree.getElem?_insert_eq, findEntry, List.find?_append]
          split
          next same =>
            rw [same, show passed.find? _ = none from fresh]
            simp
          next different =>
            rw [known, findEntry]
            cases passed.find? fun entry => decide (entry.relativePath = path) with
            | some found => rfl
            | none => simp [Ne.symm different]
      rw [List.foldlM_cons, checked]
      exact ⟨final, folded, by simpa using read⟩

theorem ValidEntries.validateManifest {manifest : List CopyManifestEntry}
    (valid : ValidEntries manifest)
    (clear : ∀ above ∈ manifest, above.kind = .file → ∀ entry ∈ manifest,
      ¬Ancestor above.relativePath entry.relativePath) :
    validateManifest manifest = .ok () := by
  obtain ⟨kinds, folded, known⟩ := @ValidEntries.read manifest [] ∅ valid (by simp [findEntry])
  refine Checks.bind_eq_ok.mpr ⟨kinds, folded, Checks.forM_eq_ok.mpr fun entry member => ?_⟩
  refine Checks.forM_eq_ok.mpr fun count inside => Checks.require_eq_ok.mpr fun file => ?_
  rw [known, Option.map_eq_some_iff] at file
  obtain ⟨above, found, isFile⟩ := file
  obtain ⟨aboveMember, path⟩ := (findEntry_eq_some valid.unique).mp found
  refine clear above aboveMember isFile entry member ?_
  have short : count + 1 < (TextPath.parts entry.relativePath).length := by
    have := List.mem_range.mp inside
    omega
  rw [path, Ancestor, String.toList_ofList]
  exact SlashPath.ancestor_of_take '/' (by omega) short

theorem validEntries_of_validateManifest {manifest : List CopyManifestEntry}
    (valid : validateManifest manifest = .ok ()) : ValidEntries manifest :=
  ⟨(validManifest_of_validateManifest valid).unique,
    (validManifest_of_validateManifest valid).canonical, validateDigest_of_validateManifest valid⟩

/-! Stages. -/

section

variable {root : String} {before after next : DirectoryTree} {entries rest : List CopyManifestEntry}
  {entry : CopyManifestEntry}

structure Staged (root : String) (before : DirectoryTree) (entries : List CopyManifestEntry)
    (after : DirectoryTree) : Prop where
  absent : before.node root = none
  isDirectory : after.kindAt root = some .directory
  held : ∀ entry ∈ entries, ∃ node,
    after.node (root ++ "/" ++ entry.relativePath) = some node ∧
      (manifestEntry entry.relativePath node).content = entry.content
  others : ∀ path, path ≠ root →
    (∀ entry ∈ entries, path ≠ root ++ "/" ++ entry.relativePath) →
      after.node path = before.node path

section

variable (staged : Staged root before entries after)

include staged

theorem Staged.absent_beneath {path : String}
    (higher : Ancestor root path) : before.node path = none := by
  by_contra present
  have directory := kindAt_ancestor (Option.isSome_iff_ne_none.mpr present)
    (TextPath.tree_ancestor_iff.mpr higher)
  simp [FileTree.kindAt, staged.absent] at directory

theorem Staged.mem_of_present {path : String}
    (higher : Ancestor root path) (present : (after.node path).isSome) :
    ∃ entry ∈ entries, path = root ++ "/" ++ entry.relativePath := by
  by_contra none
  have same := staged.others path higher.lt.ne' fun entry member equal =>
    none ⟨entry, member, equal⟩
  rw [same, staged.absent_beneath higher] at present
  cases present

theorem Staged.kindAt (member : entry ∈ entries) :
    ∃ node, after.node (root ++ "/" ++ entry.relativePath) = some node ∧
      entryKind node.kind = entry.kind := by
  obtain ⟨node, found, same⟩ := staged.held entry member
  have kinds := congrArg (fun content => content.2.1) same
  exact ⟨node, found, by simpa [CopyManifestEntry.content] using kinds⟩

theorem Staged.congr {other : List CopyManifestEntry}
    (same : ∀ entry, entry ∈ other ↔ entry ∈ entries) : Staged root before other after :=
  ⟨staged.absent, staged.isDirectory, fun entry member => staged.held entry ((same entry).mp member),
    fun path different fresh => staged.others path different fun entry member =>
      fresh entry ((same entry).mpr member)⟩

theorem Staged.scanned : Staged root before (scanBeneath after root) after := by
  refine ⟨staged.absent, staged.isDirectory, fun entry member => ?_, fun path different fresh => ?_⟩
  · obtain ⟨node, found, made⟩ := mem_scanBeneath.mp member
    exact ⟨node, found, by rw [made]⟩
  · refine staged.others path different fun entry member equal => ?_
    obtain ⟨node, found, _⟩ := staged.held entry member
    refine fresh (manifestEntry entry.relativePath node) ?_ (by simpa using equal)
    exact mem_scanBeneath.mpr ⟨node, by simpa using found, by simp⟩

theorem Staged.content_of_mem (member : entry ∈ scanBeneath after root) :
    ∃ wanted ∈ entries, wanted.content = entry.content := by
  obtain ⟨node, found, made⟩ := mem_scanBeneath.mp member
  obtain ⟨wanted, inside, path⟩ :=
    staged.mem_of_present TextPath.ancestor_root (Option.isSome_of_eq_some found)
  obtain ⟨held, heldFound, same⟩ := staged.held wanted inside
  have samePath : entry.relativePath = wanted.relativePath := TextPath.under_inj.mp path
  rw [← samePath] at heldFound same
  rw [found] at heldFound
  obtain rfl := Option.some.inj heldFound
  exact ⟨wanted, inside, by rw [← same, made]⟩

theorem Staged.childless {path : String} (within : root = path ∨ Ancestor root path)
    (alone : ∀ entry ∈ entries, ¬Ancestor path (root ++ "/" ++ entry.relativePath)) :
    after.hasChild path = false := by
  by_contra holds
  obtain ⟨child, present, parent⟩ := FileTree.hasChild_iff.mp (by simpa using holds)
  have lower : Ancestor path child := TextPath.parent_ancestor parent
  have higher : Ancestor root child := by
    rcases within with rfl | above
    · exact lower
    · exact above.trans lower
  obtain ⟨entry, member, rfl⟩ := staged.mem_of_present higher present
  exact alone entry member lower

theorem Staged.grow {node : DirectoryNode} (isNew : entry.relativePath ∉ manifestPaths entries)
    (content : (manifestEntry entry.relativePath node).content = entry.content)
    (changed : ∀ path, next.node path =
      if path = root ++ "/" ++ entry.relativePath then some node else after.node path) :
    Staged root before (entries ++ [entry]) next := by
  refine ⟨staged.absent, ?_, fun other member => ?_, fun path different fresh => ?_⟩
  · have notRoot : root ≠ root ++ "/" ++ entry.relativePath := TextPath.ancestor_root.lt.ne
    rw [FileTree.kindAt, changed, if_neg notRoot]
    exact staged.isDirectory
  · rcases List.mem_append.mp member with earlier | here
    · have notHere : other.relativePath ≠ entry.relativePath := fun same =>
        isNew (same ▸ List.mem_map_of_mem earlier)
      rw [changed, if_neg fun same => notHere (TextPath.under_inj.mp same)]
      exact staged.held other earlier
    · obtain rfl := List.mem_singleton.mp here
      exact ⟨node, by rw [changed, if_pos rfl], content⟩
  · rw [changed, if_neg (fresh entry (by simp))]
    exact staged.others path different fun other member => fresh other (by simp [member])

end

theorem Staged.shrink (staged : Staged root before (entry :: rest) after)
    (gone : entry.relativePath ∉ manifestPaths rest)
    (changed : ∀ path, next.node path =
      if path = root ++ "/" ++ entry.relativePath then none else after.node path) :
    Staged root before rest next := by
  refine ⟨staged.absent, ?_, fun other member => ?_, fun path different fresh => ?_⟩
  · have notRoot : root ≠ root ++ "/" ++ entry.relativePath := TextPath.ancestor_root.lt.ne
    rw [FileTree.kindAt, changed, if_neg notRoot]
    exact staged.isDirectory
  · have notHere : other.relativePath ≠ entry.relativePath := fun same =>
      gone (same ▸ List.mem_map_of_mem member)
    rw [changed, if_neg fun same => notHere (TextPath.under_inj.mp same)]
    exact staged.held other (List.mem_cons_of_mem _ member)
  · rw [changed]
    split
    next same => rw [same, staged.absent_beneath TextPath.ancestor_root]
    next notHere =>
      refine staged.others path different fun other member => ?_
      rcases List.mem_cons.mp member with rfl | later
      · exact notHere
      · exact fresh other later

theorem Staged.close (staged : Staged root before [] after)
    (changed : ∀ path, next.node path = if path = root then none else after.node path) :
    next = before := by
  refine FileTree.ext_node fun path => ?_
  rw [changed]
  split
  next same => rw [same, staged.absent]
  next different => exact staged.others path different (by simp)

end

/-! One operation of a stage on the device. -/

section

variable {freshIdentity : String → Option String} {stageRoot : String}
  {before after : DirectoryTree} {entries rest : List CopyManifestEntry}
  {entry : CopyManifestEntry}

theorem attempt_deviceCall {σ α : Type} {device : Handler CommitOp CommitOp.Response σ}
    {answer : CommitProgram (Except DeviceOperationError α)} {world next : σ} {value : α} :
    attempt device (deviceCall answer) world = (.ok value, next) ↔
      Program.run device answer world = (.ok value, next) := by
  change Program.run device (answer >>= _) world = _ ↔ _
  rw [Program.run_bind]
  rcases Program.run device answer world with ⟨outcome, final⟩
  cases outcome with
  | ok found =>
      change (Except.ok found, final) = _ ↔ _
      simp
  | error stop =>
      change (Except.error (CopyCommitError.deviceOperation stop), final) = _ ↔ _
      simp

theorem settled_eq_ok {tree next : DirectoryTree} {result : Except TreeError DirectoryTree} :
    settled tree result = (.ok (), next) ↔ result = .ok next := by
  cases result <;> simp [settled]

theorem run_mkdirP (path : String) :
    Program.run (stageDevice freshIdentity) (mkdirP path) after =
      settled after (makeDirectories freshIdentity after (deviceKey path)) :=
  Program.run_request (stageDevice freshIdentity) (CommitOp.mkdirP path) after

theorem run_pushFile (source destination : String) :
    Program.run (stageDevice freshIdentity) (pushFile source destination) after =
      settled after (after.publishFile (deviceKey destination)
        (freshIdentity (deviceKey destination)) source) :=
  Program.run_request (stageDevice freshIdentity) (CommitOp.pushFile source destination) after

theorem run_removeFile {path : String} (present : (after.node (deviceKey path)).isSome) :
    Program.run (stageDevice freshIdentity) (removeFile path) after =
      settled after (after.unlinkFile (deviceKey path)) :=
  if_pos present

theorem run_removeEmptyDirectory (path : String) :
    Program.run (stageDevice freshIdentity) (removeEmptyDirectory path) after =
      settled after (after.removeDirectory (deviceKey path)) :=
  Program.run_request (stageDevice freshIdentity) (CommitOp.removeEmptyDirectory path) after

theorem run_inspectTree {path : String}
    (directory : after.kindAt (deviceKey path) = some .directory) :
    Program.run (stageDevice freshIdentity) (inspectTree path) after =
      (.ok (scanBeneath after (deviceKey path)), after) :=
  if_pos directory

def stageAction (stageRoot : String) (entry : CopyManifestEntry) : AndroidStageAction :=
  match entry.kind with
  | .directory => .createDirectory (stageRoot ++ "/" ++ entry.relativePath)
  | .file => .pushFile entry.relativePath (entry.sha256.getD "")
      (stageRoot ++ "/" ++ entry.relativePath)

def stagedNode (identity : Option String) (entry : CopyManifestEntry) : DirectoryNode :=
  match entry.kind with
  | .directory => .directory identity
  | .file => .file identity (entry.sha256.getD "")

theorem content_stagedNode {identity : Option String} (digest : validateDigest entry = .ok ()) :
    (manifestEntry entry.relativePath (stagedNode identity entry)).content = entry.content := by
  obtain ⟨plain, known, _⟩ := validateDigest_ok digest
  cases kind : entry.kind with
  | directory => simp [stagedNode, manifestEntry, CopyManifestEntry.content, kind, plain kind]
  | file =>
      obtain ⟨sha256, found⟩ := Option.isSome_iff_exists.mp (known kind)
      simp [stagedNode, manifestEntry, CopyManifestEntry.content, kind, found]

theorem Staged.directories {root relative : String} (staged : Staged root before entries after)
    (above : ∀ upper, Ancestor upper relative →
      after.kindAt (root ++ "/" ++ upper) = some .directory) :
    ∀ upper, Ancestor upper (root ++ "/" ++ relative) → after.kindAt upper = some .directory := by
  intro upper higher
  obtain ⟨node, found, _⟩ := Option.map_eq_some_iff.mp staged.isDirectory
  rcases TextPath.ancestor_under.mp higher with aboveRoot | rfl | ⟨inner, rfl, lower⟩
  · exact kindAt_ancestor (Option.isSome_of_eq_some found) (TextPath.tree_ancestor_iff.mpr aboveRoot)
  · exact staged.isDirectory
  · exact above inner lower

theorem runStageAction_staged (rootNamed : named (deviceKey stageRoot) = true)
    (staged : Staged (deviceKey stageRoot) before entries after)
    (isNamed : named entry.relativePath = true) (digest : validateDigest entry = .ok ())
    (isNew : entry.relativePath ∉ manifestPaths entries)
    (above : ∀ upper, Ancestor upper entry.relativePath →
      after.kindAt (deviceKey stageRoot ++ "/" ++ upper) = some .directory) :
    ∃ next, attempt (stageDevice freshIdentity) (runStageAction (stageAction stageRoot entry)) after =
      (.ok (), next) ∧ Staged (deviceKey stageRoot) before (entries ++ [entry]) next := by
  have key := deviceKey_under rootNamed isNamed
  have directories := staged.directories above
  have wholeNamed : TreePath.named (deviceKey stageRoot ++ "/" ++ entry.relativePath) = true := by
    change TextPath.named _ = true
    rw [TextPath.named_under, rootNamed, isNamed]
    rfl
  have placed : after.parentIsDirectory (deviceKey stageRoot ++ "/" ++ entry.relativePath) = true :=
    parentIsDirectory_of_ancestors fun upper higher =>
      directories upper (TextPath.tree_ancestor_iff.mp higher)
  have absent : after.node (deviceKey stageRoot ++ "/" ++ entry.relativePath) = none := by
    by_contra present
    obtain ⟨other, member, same⟩ := staged.mem_of_present TextPath.ancestor_root
      (Option.isSome_iff_ne_none.mpr present)
    exact isNew (TextPath.under_inj.mp same ▸ List.mem_map_of_mem member)
  have noKind : after.kindAt (deviceKey stageRoot ++ "/" ++ entry.relativePath) = none := by
    rw [FileTree.kindAt, absent]
    rfl
  let identity := freshIdentity (deviceKey stageRoot ++ "/" ++ entry.relativePath)
  suffices done : ∃ next, attempt (stageDevice freshIdentity)
      (runStageAction (stageAction stageRoot entry)) after = (.ok (), next) ∧
      ∀ path, next.node path = if path = deviceKey stageRoot ++ "/" ++ entry.relativePath then
        some (stagedNode identity entry) else after.node path by
    obtain ⟨next, ran, changed⟩ := done
    exact ⟨next, ran, staged.grow isNew (content_stagedNode digest) changed⟩
  cases kind : entry.kind with
  | directory =>
      obtain ⟨next, made, changed⟩ := FileTree.makeDirectory_ok identity wholeNamed placed
        (by simp [noKind])
      refine ⟨next, ?_, by simpa [absent, stagedNode, kind] using changed⟩
      simp only [stageAction, kind, runStageAction]
      refine attempt_deviceCall.mpr ?_
      rw [run_mkdirP, key, makeDirectories_of_ancestors directories, made]
      rfl
  | file =>
      obtain ⟨next, published, changed⟩ := FileTree.publishFile_ok identity
        (entry.sha256.getD "") wholeNamed placed (by simp [noKind])
      refine ⟨next, ?_, by simpa [stagedNode, kind] using changed⟩
      simp only [stageAction, kind, runStageAction]
      have read : attempt (stageDevice freshIdentity)
          (hostCall (stageReviewedSourceFile entry.relativePath (entry.sha256.getD ""))) after =
          (.ok (entry.sha256.getD ""), after) := rfl
      rw [Program.attempt_bind_ok read]
      refine attempt_deviceCall.mpr ?_
      rw [run_pushFile, key, published]
      rfl

end

/-! The orders of staging and of cleanup. -/

theorem entriesOfKind_perm (manifest : List CopyManifestEntry) :
    (entriesOfKind .directory manifest ++ entriesOfKind .file manifest).Perm manifest := by
  have files : entriesOfKind .file manifest =
      manifest.filter fun entry => !decide (entry.kind = .directory) := by
    refine List.filter_congr fun entry _ => ?_
    cases entry.kind <;> rfl
  rw [files, entriesOfKind]
  exact List.filter_append_perm _ _

def stageOrder (manifest : List CopyManifestEntry) : List CopyManifestEntry :=
  (entriesOfKind .directory manifest).insertionSort
      (fun left right => shallowFirst left.relativePath right.relativePath) ++
    sortByPath (entriesOfKind .file manifest)

theorem stageOrder_perm (manifest : List CopyManifestEntry) :
    (stageOrder manifest).Perm manifest :=
  ((List.perm_insertionSort _ _).append (List.perm_insertionSort _ _)).trans
    (entriesOfKind_perm manifest)

def cleanupOrder (manifest : List CopyManifestEntry) : List CopyManifestEntry :=
  manifest.insertionSort fun left right => deepestFirst left.relativePath right.relativePath

theorem directories_shallowFirst (entries : List CopyManifestEntry) :
    (entries.insertionSort fun left right => shallowFirst left.relativePath right.relativePath).Pairwise
      fun earlier later => ¬Ancestor later.relativePath earlier.relativePath := by
  have compared (left right : CopyManifestEntry) :
      shallowFirst left.relativePath right.relativePath = true ↔
        toLex (TextPath.depth left.relativePath, left.relativePath) ≤
          toLex (TextPath.depth right.relativePath, right.relativePath) := by
    simp only [shallowFirst, Prod.Lex.toLex_le_toLex, Bool.or_eq_true, Bool.and_eq_true,
      decide_eq_true_eq]
  have sorted := pairwise_insertionSort_key _ compared entries
  refine sorted.imp fun before higher => ?_
  have deeper := higher.depth_lt
  simp only [shallowFirst, Bool.or_eq_true, Bool.and_eq_true, decide_eq_true_eq] at before
  omega

theorem cleanupOrder_deepestFirst (entries : List CopyManifestEntry) :
    (cleanupOrder entries).Pairwise
      fun earlier later => ¬Ancestor earlier.relativePath later.relativePath := by
  have sorted := pairwise_insertionSort_key
    (fun entry : CopyManifestEntry => deepestKey entry.relativePath)
    (fun _ _ => deepestFirst_iff) entries
  refine sorted.imp fun before higher => ?_
  have deeper := higher.depth_lt
  simp only [deepestFirst, Bool.or_eq_true, Bool.and_eq_true, decide_eq_true_eq] at before
  omega

structure ScannedSource (source : DirectoryTree) (manifest : List CopyManifestEntry) : Prop where
  scanned : manifest = scan source
  valid : validateManifest manifest = .ok ()

section

variable {source : DirectoryTree} {manifest passed rest : List CopyManifestEntry}
  {entry : CopyManifestEntry}

variable (reviewed : ScannedSource source manifest)

include reviewed

theorem ScannedSource.named (member : entry ∈ manifest) : named entry.relativePath = true := by
  obtain ⟨node, found, _⟩ := mem_scan.mp (reviewed.scanned ▸ member)
  exact source.named _ node found

theorem ScannedSource.ancestor
    (member : entry ∈ manifest) {upper : String} (higher : Ancestor upper entry.relativePath) :
    ∃ above ∈ manifest, above.relativePath = upper ∧ above.kind = .directory := by
  obtain ⟨node, found, _⟩ := mem_scan.mp (reviewed.scanned ▸ member)
  have directory := kindAt_ancestor (Option.isSome_of_eq_some found)
    (TextPath.tree_ancestor_iff.mpr higher)
  obtain ⟨above, present, isDirectory⟩ := Option.map_eq_some_iff.mp directory
  refine ⟨manifestEntry upper above, ?_, by simp, by simp [isDirectory, entryKind]⟩
  rw [reviewed.scanned]
  exact mem_scan.mpr ⟨above, by simpa using present, by simp⟩

theorem ScannedSource.file_clear {file : CopyManifestEntry}
    (fileMember : file ∈ manifest) (isFile : file.kind = .file) (member : entry ∈ manifest) :
    ¬Ancestor file.relativePath entry.relativePath := by
  intro higher
  obtain ⟨above, inside, same, isDirectory⟩ := reviewed.ancestor member higher
  have unique := (validManifest_of_validateManifest reviewed.valid).unique
  rw [unique.eq_of_path inside fileMember same, isFile] at isDirectory
  cases isDirectory

theorem ScannedSource.order : (stageOrder manifest).Pairwise fun earlier later =>
      ¬Ancestor later.relativePath earlier.relativePath := by
  have member : ∀ {kind : CopyEntryKind} {entry}, entry ∈ entriesOfKind kind manifest →
      entry ∈ manifest ∧ entry.kind = kind := fun inside => by
    simpa [entriesOfKind] using inside
  rw [stageOrder, List.pairwise_append]
  refine ⟨directories_shallowFirst _, ?_, fun earlier before later after => ?_⟩
  · refine List.pairwise_of_forall_mem_list fun earlier before later after => ?_
    obtain ⟨laterIn, isFile⟩ := member (mem_sortByPath.mp after)
    exact reviewed.file_clear laterIn isFile (member (mem_sortByPath.mp before)).1
  · obtain ⟨laterIn, isFile⟩ := member (mem_sortByPath.mp after)
    exact reviewed.file_clear laterIn isFile (member ((List.mem_insertionSort _).mp before)).1

theorem ScannedSource.above_first
    (split : stageOrder manifest = passed ++ entry :: rest) {upper : String}
    (higher : Ancestor upper entry.relativePath) :
    ∃ above ∈ passed, above.relativePath = upper ∧ above.kind = .directory := by
  have entryIn : entry ∈ manifest := (stageOrder_perm manifest).mem_iff.mp (by simp [split])
  obtain ⟨above, aboveIn, rfl, isDirectory⟩ := reviewed.ancestor entryIn higher
  refine ⟨above, ?_, rfl, isDirectory⟩
  have listed := (stageOrder_perm manifest).mem_iff.mpr aboveIn
  have ordered := reviewed.order
  rw [split, List.pairwise_append, List.pairwise_cons] at ordered
  rw [split, List.mem_append, List.mem_cons] at listed
  rcases listed with before | rfl | after
  · exact before
  · exact absurd higher.lt (lt_irrefl _)
  · exact absurd higher (ordered.2.1.1 above after)

end

/-! The staging run. -/

section

variable {freshIdentity : String → Option String} {stageRoot : String}
  {source before after tree : DirectoryTree} {request : CopyCommitRequest}
  {actions taken : List AndroidStageAction}

theorem androidStageActions_eq (valid : ValidEntries request.sourceManifest)
    (planned : androidStageActions request stageRoot = .ok actions) :
    actions = .createDirectory stageRoot ::
      (stageOrder request.sourceManifest).map (stageAction stageRoot) := by
  have child : ∀ entry ∈ request.sourceManifest,
      checkedChild stageRoot entry.relativePath = .ok (stageRoot ++ "/" ++ entry.relativePath) :=
    fun entry member => checkedChild_of_canonical (valid.canonical entry member) stageRoot
  have created : ((entriesOfKind .directory request.sourceManifest).insertionSort
      fun left right => shallowFirst left.relativePath right.relativePath).mapM
        (directoryStageAction stageRoot) =
      .ok (((entriesOfKind .directory request.sourceManifest).insertionSort
        fun left right => shallowFirst left.relativePath right.relativePath).map
          (stageAction stageRoot)) := by
    rw [Checks.mapM_eq_ok, List.forall₂_map_right_iff, List.forall₂_same]
    intro entry member
    obtain ⟨inside, kind⟩ := List.mem_filter.mp ((List.mem_insertionSort _).mp member)
    rw [directoryStageAction, child entry inside, stageAction, of_decide_eq_true kind]
    rfl
  have pushed : (sortByPath (entriesOfKind .file request.sourceManifest)).mapM
      (fileStageAction stageRoot) =
      .ok ((sortByPath (entriesOfKind .file request.sourceManifest)).map
        (stageAction stageRoot)) := by
    rw [Checks.mapM_eq_ok, List.forall₂_map_right_iff, List.forall₂_same]
    intro entry member
    obtain ⟨inside, kind⟩ := List.mem_filter.mp (mem_sortByPath.mp member)
    obtain ⟨_, known, _⟩ := validateDigest_ok (valid.digest entry inside)
    obtain ⟨digest, found⟩ := Option.isSome_iff_exists.mp (known (of_decide_eq_true kind))
    rw [fileStageAction, child entry inside, stageAction, of_decide_eq_true kind, found]
    rfl
  obtain ⟨_, _, planned⟩ := Checks.bind_eq_ok.mp planned
  obtain ⟨made, isMade, planned⟩ := Checks.bind_eq_ok.mp planned
  obtain ⟨sent, isSent, planned⟩ := Checks.bind_eq_ok.mp planned
  obtain rfl := Except.ok.inj (created.symm.trans isMade)
  obtain rfl := Except.ok.inj (pushed.symm.trans isSent)
  rw [← Except.ok.inj planned, stageOrder, List.map_append, List.cons_append]

theorem staged_of_createDirectory
    (created : attempt (stageDevice freshIdentity) (deviceCall (createDirectory stageRoot)) before =
      (.ok (), after)) :
    named (deviceKey stageRoot) = true ∧ Staged (deviceKey stageRoot) before [] after := by
  have ran : (if (before.node (deviceKey stageRoot)).isSome then (.error refused, before)
      else settled before (before.makeDirectory (deviceKey stageRoot)
        (freshIdentity (deviceKey stageRoot)))) = (.ok (), after) :=
    attempt_deviceCall.mp created
  split at ran
  next => cases ran
  next absent =>
    have absent : before.node (deviceKey stageRoot) = none := by simpa using absent
    have changed := FileTree.node_of_makeDirectory absent (settled_eq_ok.mp ran)
    have found := changed (deviceKey stageRoot)
    rw [if_pos rfl] at found
    refine ⟨after.named _ _ found, absent, ?_, by simp, fun path different _ => ?_⟩
    · rw [FileTree.kindAt, found]
      rfl
    · rw [changed, if_neg different]

theorem stage_entries (rootNamed : named (deviceKey stageRoot) = true)
    (reviewed : ScannedSource source request.sourceManifest)
    (staged : Staged (deviceKey stageRoot) before [] after)
    {entries later : List CopyManifestEntry}
    (order : stageOrder request.sourceManifest = entries ++ later) :
    ∃ final, attempt (stageDevice freshIdentity)
        ((entries.map (stageAction stageRoot)).forM runStageAction) after = (.ok (), final) ∧
      Staged (deviceKey stageRoot) before entries final := by
  have valid := validEntries_of_validateManifest reviewed.valid
  have mapped : (entries.map (stageAction stageRoot)).forM runStageAction =
      entries.forM fun entry => runStageAction (stageAction stageRoot entry) := List.forM_map
  rw [mapped]
  refine Program.attempt_forM_ok staged fun passed entry rest tree split held => ?_
  have whole : stageOrder request.sourceManifest = passed ++ entry :: (rest ++ later) := by
    simp [order, split]
  have member : entry ∈ request.sourceManifest :=
    (stageOrder_perm _).mem_iff.mp (by simp [whole])
  have unique : UniquePaths (passed ++ entry :: (rest ++ later)) :=
    whole ▸ valid.unique.perm (stageOrder_perm _)
  refine runStageAction_staged rootNamed held (reviewed.named member) (valid.digest entry member)
    unique.once.1 fun upper higher => ?_
  obtain ⟨above, inside, rfl, isDirectory⟩ := reviewed.above_first whole higher
  obtain ⟨node, found, kind⟩ := held.kindAt inside
  rw [FileTree.kindAt, found, Option.map_some, Option.some.injEq]
  exact entryKind_injective.mp (kind.trans isDirectory)

end

/-! The cleanup run. -/

section

variable {freshIdentity : String → Option String} {stageRoot path : String}
  {before after : DirectoryTree} {manifest items rest tail : List CopyManifestEntry}
  {entry : CopyManifestEntry}

def TakesAway (freshIdentity : String → Option String)
    (remove : CommitProgram (Except DeviceOperationError Unit)) (tree : DirectoryTree)
    (path : String) : Prop :=
  ∃ next, Program.run (stageDevice freshIdentity) remove tree = (.ok (), next) ∧
    ∀ query, next.node query = if query = path then none else tree.node query

theorem Staged.removeFile {root : String} (staged : Staged root before (entry :: rest) after)
    (isFile : entry.kind = .file) (key : deviceKey path = root ++ "/" ++ entry.relativePath) :
    TakesAway freshIdentity (removeFile path) after (root ++ "/" ++ entry.relativePath) := by
  obtain ⟨node, found, kind⟩ := staged.kindAt List.mem_cons_self
  have file : after.kindAt (root ++ "/" ++ entry.relativePath) = some .file := by
    rw [FileTree.kindAt, found, Option.map_some, Option.some.injEq]
    exact entryKind_injective.mp (kind.trans isFile)
  obtain ⟨next, removed, changed⟩ := FileTree.unlinkFile_ok file
  refine ⟨next, ?_, changed⟩
  rw [run_removeFile (by simp [key, found]), key]
  exact settled_eq_ok.mpr removed

theorem Staged.removeEmptyDirectory {root : String}
    (staged : Staged root before (entry :: rest) after) (isDirectory : entry.kind = .directory)
    (alone : ∀ other ∈ rest, ¬Ancestor entry.relativePath other.relativePath)
    (key : deviceKey path = root ++ "/" ++ entry.relativePath) :
    TakesAway freshIdentity (removeEmptyDirectory path) after
      (root ++ "/" ++ entry.relativePath) := by
  obtain ⟨node, found, kind⟩ := staged.kindAt List.mem_cons_self
  have directory : after.kindAt (root ++ "/" ++ entry.relativePath) = some .directory := by
    rw [FileTree.kindAt, found, Option.map_some, Option.some.injEq]
    exact entryKind_injective.mp (kind.trans isDirectory)
  have childless : after.hasChild (root ++ "/" ++ entry.relativePath) = false := by
    refine staged.childless (.inr TextPath.ancestor_root) fun other member higher => ?_
    have lower : Ancestor entry.relativePath other.relativePath :=
      TextPath.ancestor_under_under.mp higher
    rcases List.mem_cons.mp member with rfl | later
    · exact lt_irrefl _ lower.lt
    · exact alone other later lower
  obtain ⟨next, removed, changed⟩ := FileTree.removeDirectory_ok directory childless
  refine ⟨next, ?_, changed⟩
  rw [run_removeEmptyDirectory, key]
  exact settled_eq_ok.mpr removed

theorem Staged.removeAll {remove : String → CommitProgram (Except DeviceOperationError Unit)}
    (rootNamed : named (deviceKey stageRoot) = true)
    (staged : Staged (deviceKey stageRoot) before (items ++ tail) after)
    (unique : UniquePaths (items ++ tail))
    (canonical : ∀ entry ∈ items,
      checkedRelative (TextPath.components entry.relativePath) = .ok entry.relativePath)
    (isNamed : ∀ entry ∈ items, named entry.relativePath = true)
    (removes : ∀ passed entry rest state path, items = passed ++ entry :: rest →
      deviceKey path = deviceKey stageRoot ++ "/" ++ entry.relativePath →
      Staged (deviceKey stageRoot) before (entry :: (rest ++ tail)) state →
      TakesAway freshIdentity (remove path) state
        (deviceKey stageRoot ++ "/" ++ entry.relativePath)) :
    ∃ final, attempt (stageDevice freshIdentity) (items.forM (removeStaged remove stageRoot)) after =
        (.ok (), final) ∧ Staged (deviceKey stageRoot) before tail final := by
  have run := @Program.attempt_forM_ok _ _ _ _ _ (stageDevice freshIdentity)
    (removeStaged remove stageRoot) items after
    (fun passed state => ∃ rest, items = passed ++ rest ∧
      Staged (deviceKey stageRoot) before (rest ++ tail) state) ⟨items, rfl, staged⟩ ?_
  · obtain ⟨final, ran, rest, split, held⟩ := run
    obtain rfl : rest = [] := by simpa using split
    exact ⟨final, ran, held⟩
  intro passed entry rest state split holds
  obtain ⟨remaining, same, held⟩ := holds
  obtain rfl : remaining = entry :: rest := List.append_cancel_left (same.symm.trans split)
  have inside : entry ∈ items := by simp [split]
  have once : UniquePaths (passed ++ entry :: (rest ++ tail)) := by
    simpa [split] using unique
  have key := deviceKey_under rootNamed (isNamed entry inside)
  obtain ⟨next, removed, changed⟩ := removes passed entry rest state _ split key held
  refine ⟨next, ?_, rest, by simp [split], held.shrink once.once.2 changed⟩
  rw [removeStaged, checkedChild_of_canonical (canonical entry inside) stageRoot]
  exact attempt_deviceCall.mpr removed

theorem cleanupOrder_perm (manifest : List CopyManifestEntry) :
    (entriesOfKind .file (cleanupOrder manifest) ++
      entriesOfKind .directory (cleanupOrder manifest)).Perm manifest :=
  List.perm_append_comm.trans ((entriesOfKind_perm _).trans (List.perm_insertionSort _ _))

theorem cleanupStage_staged (rootNamed : named (deviceKey stageRoot) = true)
    (staged : Staged (deviceKey stageRoot) before manifest after)
    (valid : ValidEntries manifest)
    (isNamed : ∀ entry ∈ manifest, named entry.relativePath = true)
    (observed : scanBeneath after (deviceKey stageRoot) = manifest) :
    attempt (stageDevice freshIdentity) (cleanupStage stageRoot manifest) after =
      (.ok (), before) := by
  have order := cleanupOrder_perm manifest
  have unique := valid.unique.perm order
  have member : ∀ {kind : CopyEntryKind} {entry}, entry ∈ entriesOfKind kind (cleanupOrder manifest) →
      entry ∈ manifest ∧ entry.kind = kind := fun inside =>
    ⟨(List.mem_insertionSort _).mp (List.mem_filter.mp inside).1,
      of_decide_eq_true (List.mem_filter.mp inside).2⟩
  obtain ⟨middle, filesRan, directoriesLeft⟩ := @Staged.removeAll freshIdentity stageRoot before
    after (entriesOfKind .file (cleanupOrder manifest))
    (entriesOfKind .directory (cleanupOrder manifest)) removeFile rootNamed
    (staged.congr fun entry => order.mem_iff) unique
    (fun entry inside => valid.canonical entry (member inside).1)
    (fun entry inside => isNamed entry (member inside).1)
    fun passed entry rest state path split key held =>
      held.removeFile (member (by simp [split])).2 key
  obtain ⟨last, directoriesRan, rootLeft⟩ := @Staged.removeAll freshIdentity stageRoot before
    middle (entriesOfKind .directory (cleanupOrder manifest)) [] removeEmptyDirectory rootNamed
    (by simpa using directoriesLeft)
    (by
      rw [UniquePaths, manifestPaths, List.map_append] at unique
      simpa [UniquePaths, manifestPaths] using (List.nodup_append.mp unique).2.1)
    (fun entry inside => valid.canonical entry (member inside).1)
    (fun entry inside => isNamed entry (member inside).1)
    fun passed entry rest state path split key held => by
      have deepest := (cleanupOrder_deepestFirst manifest).filter (·.kind = .directory)
      rw [show (cleanupOrder manifest).filter _ = _ from split, List.pairwise_append,
        List.pairwise_cons] at deepest
      exact held.removeEmptyDirectory (member (by simp [split])).2
        (by simpa using deepest.2.1.1) key
  have closed : TakesAway freshIdentity (removeEmptyDirectory stageRoot) last
      (deviceKey stageRoot) := by
    obtain ⟨next, removed, changed⟩ := FileTree.removeDirectory_ok rootLeft.isDirectory
      (rootLeft.childless (.inl rfl) (by simp))
    refine ⟨next, ?_, changed⟩
    rw [run_removeEmptyDirectory]
    exact settled_eq_ok.mpr removed
  obtain ⟨next, removed, changed⟩ := closed
  obtain rfl := rootLeft.close changed
  have inspected : attempt (stageDevice freshIdentity) (deviceCall (inspectTree stageRoot)) after =
      (.ok manifest, after) := attempt_deviceCall.mpr (observed ▸ run_inspectTree staged.isDirectory)
  rw [cleanupStage, Program.attempt_bind_ok inspected, Checks.require_eq_ok.mpr rfl]
  refine (Program.attempt_bind_ok rfl).trans ?_
  exact (Program.attempt_bind_ok filesRan).trans ((Program.attempt_bind_ok directoriesRan).trans
    (attempt_deviceCall.mpr removed))

theorem validateDigest_congr {left right : CopyManifestEntry} (same : left.content = right.content) :
    validateDigest left = validateDigest right := by
  obtain ⟨path, kind, sha256⟩ : left.relativePath = right.relativePath ∧ left.kind = right.kind ∧
      left.sha256 = right.sha256 := by simpa [CopyManifestEntry.content] using same
  rw [validateDigest, validateDigest, path, kind, sha256]

variable {source : DirectoryTree}

theorem Staged.checked {root : String} {entries : List CopyManifestEntry}
    (reviewed : ScannedSource source manifest) (staged : Staged root before entries after)
    (within : ∀ entry ∈ entries, entry ∈ manifest) :
    ValidEntries (scanBeneath after root) ∧
      (∀ entry ∈ scanBeneath after root, named entry.relativePath = true) ∧
      checkStagedManifest (scanBeneath after root) manifest = .ok () := by
  have valid := validEntries_of_validateManifest reviewed.valid
  have wanted : ∀ entry ∈ scanBeneath after root, ∃ known ∈ manifest,
      known.content = entry.content ∧ known.relativePath = entry.relativePath := by
    intro entry member
    obtain ⟨known, inside, same⟩ := staged.content_of_mem member
    exact ⟨known, within known inside, same, congrArg Prod.fst same⟩
  have observed : ValidEntries (scanBeneath after root) := by
    refine ⟨uniquePaths_scanBeneath after root, fun entry member => ?_, fun entry member => ?_⟩
    · obtain ⟨known, inside, _, path⟩ := wanted entry member
      exact path ▸ valid.canonical known inside
    · obtain ⟨known, inside, same, _⟩ := wanted entry member
      exact validateDigest_congr same ▸ valid.digest known inside
  refine ⟨observed, fun entry member => ?_, ?_⟩
  · obtain ⟨known, inside, _, path⟩ := wanted entry member
    exact path ▸ reviewed.named inside
  have clear : ∀ above ∈ scanBeneath after root, above.kind = .file →
      ∀ entry ∈ scanBeneath after root, ¬Ancestor above.relativePath entry.relativePath := by
    intro above aboveIn isFile entry member higher
    obtain ⟨known, inside, _, path⟩ := wanted entry member
    obtain ⟨file, fileInside, same, filePath⟩ := wanted above aboveIn
    refine reviewed.file_clear fileInside ?_ inside (filePath ▸ path ▸ higher)
    exact (congrArg (fun content => content.2.1) same).trans isFile
  have safe := observed.validateManifest clear
  rw [checkStagedManifest, safe]
  refine Checks.bind_eq_ok.mpr ⟨(), rfl, Checks.require_eq_ok.mpr fun entry member => ?_⟩
  obtain ⟨known, inside, same, path⟩ := wanted entry member
  rw [kindByPath_get valid.unique, (findEntry_eq_some valid.unique).mpr ⟨inside, path⟩]
  exact congrArg (fun content => some content.2.1) same

theorem cleanupStagedTree_staged {entries : List CopyManifestEntry}
    (rootNamed : named (deviceKey stageRoot) = true) (reviewed : ScannedSource source manifest)
    (staged : Staged (deviceKey stageRoot) before entries after)
    (within : ∀ entry ∈ entries, entry ∈ manifest) :
    attempt (stageDevice freshIdentity) (cleanupStagedTree stageRoot manifest) after =
      (.ok (), before) := by
  obtain ⟨valid, isNamed, checked⟩ := staged.checked reviewed within
  have inspected : attempt (stageDevice freshIdentity) (deviceCall (inspectTree stageRoot)) after =
      (.ok (scanBeneath after (deviceKey stageRoot)), after) :=
    attempt_deviceCall.mpr (run_inspectTree staged.isDirectory)
  rw [cleanupStagedTree, Program.attempt_bind_ok inspected, checked]
  exact (Program.attempt_bind_ok rfl).trans
    (cleanupStage_staged rootNamed staged.scanned valid isNamed rfl)

theorem exists_of_kindByPath {path : String} {kind : CopyEntryKind}
    (found : (kindByPath manifest)[path]? = some kind) :
    ∃ known ∈ manifest, known.relativePath = path ∧ known.kind = kind := by
  have general : ∀ before : Std.ExtTreeMap String CopyEntryKind,
      (before.insertMany (manifest.map fun entry => (entry.relativePath, entry.kind)))[path]? =
        some kind →
      before[path]? = some kind ∨
        ∃ known ∈ manifest, known.relativePath = path ∧ known.kind = kind := by
    clear found
    induction manifest with
    | nil => exact fun before found => .inl (by simpa using found)
    | cons entry rest ih =>
        intro before found
        rw [List.map_cons, Std.ExtTreeMap.insertMany_cons] at found
        rcases ih _ found with here | ⟨known, member, same⟩
        · rw [FileTree.getElem?_insert_eq] at here
          split at here
          next equal => exact .inr ⟨entry, by simp, equal.symm, Option.some.inj here⟩
          next => exact .inl here
        · exact .inr ⟨known, by simp [member], same⟩
  rw [kindByPath, Std.ExtTreeMap.ofList_eq_insertMany_empty] at found
  rcases general ∅ found with impossible | known
  · simp at impossible
  · exact known

theorem cleanupStagedTree_foreign {σ : Type} {device : Handler CommitOp CommitOp.Response σ}
    {world next : σ} {observed : List CopyManifestEntry}
    (answered : Program.run device (inspectTree stageRoot) world = (.ok observed, next))
    {entry : CopyManifestEntry} (member : entry ∈ observed)
    (foreign : ∀ known ∈ manifest, known.relativePath = entry.relativePath →
      known.kind ≠ entry.kind) :
    ∃ stop, attempt device (cleanupStagedTree stageRoot manifest) world = (.error stop, next) ∧
      (Program.trace device (cleanupStagedTree stageRoot manifest).run world).map (·.operation) =
        [.inspectTree stageRoot] := by
  obtain ⟨stop, rejected⟩ : ∃ stop, checkStagedManifest observed manifest = .error stop := by
    cases checked : checkStagedManifest observed manifest with
    | error stop => exact ⟨stop, rfl⟩
    | ok value =>
        obtain ⟨_, _, known⟩ := Checks.bind_eq_ok.mp checked
        obtain ⟨found, inside, path, kind⟩ :=
          exists_of_kindByPath (Checks.require_eq_ok.mp known entry member)
        exact absurd kind (foreign found inside path)
  have inspected : attempt device (deviceCall (inspectTree stageRoot)) world =
      (.ok observed, next) := attempt_deviceCall.mpr answered
  refine ⟨stop, ?_, ?_⟩
  · rw [cleanupStagedTree, Program.attempt_bind_ok inspected, rejected]
    rfl
  · change (Program.trace device ((deviceCall (inspectTree stageRoot)).run >>= ExceptT.bindCont
      fun manifest' => check (checkStagedManifest manifest' manifest) >>= fun _ =>
        cleanupStage stageRoot manifest') world).map (·.operation) = _
    have asked : Program.trace device (deviceCall (inspectTree stageRoot)).run world =
        [⟨.inspectTree stageRoot, (device (.inspectTree stageRoot) world).1⟩] := by
      change Program.trace device (inspectTree stageRoot >>= _) world = _
      rw [Program.trace_bind, answered]
      rfl
    rw [Program.trace_bind, show Program.run device (deviceCall (inspectTree stageRoot)).run world =
      _ from inspected, asked]
    change (_ ++ Program.trace device (check (checkStagedManifest observed manifest) >>= fun _ =>
      cleanupStage stageRoot observed).run next).map _ = _
    rw [rejected]
    rfl

end

/-- Wherever staging stops, the cleanup takes the whole stage away and nothing else; a stage with an
entry that was not reviewed is left as it is. -/
theorem cleanupStagedTree_complete :
    (∀ {freshIdentity : String → Option String} {stageRoot : String}
      {source tree rooted : DirectoryTree} {request : CopyCommitRequest}
      {actions taken : List AndroidStageAction},
      ScannedSource source request.sourceManifest →
      androidStageActions request stageRoot = .ok actions →
      attempt (stageDevice freshIdentity) (deviceCall (createDirectory stageRoot)) tree =
        (.ok (), rooted) →
      taken <+: actions.drop 1 →
      ∃ staged, attempt (stageDevice freshIdentity) (taken.forM runStageAction) rooted =
          (.ok (), staged) ∧
        attempt (stageDevice freshIdentity) (cleanupStagedTree stageRoot request.sourceManifest)
          staged = (.ok (), tree)) ∧
    (∀ {σ : Type} {device : Handler CommitOp CommitOp.Response σ} {world next : σ}
      {stageRoot : String} {observed reviewedManifest : List CopyManifestEntry}
      {entry : CopyManifestEntry},
      Program.run device (inspectTree stageRoot) world = (.ok observed, next) →
      entry ∈ observed →
      (∀ known ∈ reviewedManifest, known.relativePath = entry.relativePath →
        known.kind ≠ entry.kind) →
      ∃ stop, attempt device (cleanupStagedTree stageRoot reviewedManifest) world =
          (.error stop, next) ∧
        (Program.trace device (cleanupStagedTree stageRoot reviewedManifest).run world).map
          (·.operation) = [.inspectTree stageRoot]) := by
  refine ⟨?_, fun answered member foreign => cleanupStagedTree_foreign answered member foreign⟩
  intro freshIdentity stageRoot source tree rooted request actions taken reviewed planned created stops
  obtain ⟨rootNamed, empty⟩ := staged_of_createDirectory created
  rw [androidStageActions_eq (validEntries_of_validateManifest reviewed.valid) planned,
    List.drop_one, List.tail_cons] at stops
  obtain ⟨left, split⟩ := stops
  obtain ⟨entries, later, order, rfl, _⟩ := List.map_eq_append_iff.mp split.symm
  obtain ⟨staged, ran, held⟩ := stage_entries rootNamed reviewed empty order
  refine ⟨staged, ran, cleanupStagedTree_staged rootNamed reviewed held fun entry member => ?_⟩
  exact (stageOrder_perm _).mem_iff.mp (by simp [order, member])

def stagedSource : DirectoryTree :=
  (emptyTree.put "states" (.directory none) (by decide) (by decide) (by decide)).put
    "states/slot" (.file none (String.ofList (List.replicate 64 'e'))) (by decide) (by decide)
    (by decide)

def plainDevice : DirectoryTree :=
  emptyTree.put "data" (.directory none) (by decide) (by decide) (by decide)

def createdDevice : DirectoryTree :=
  (attempt (stageDevice fun _ => none) (deviceCall (createDirectory "/data/stage")) plainDevice).2

def foreignDevice : DirectoryTree :=
  (plainDevice.put "data/stage" (.directory none) (by decide) (by decide) (by decide)).put
    "data/stage/states" (.file none "d1") (by decide) (by decide) (by decide)

def stagedRequest : CopyCommitRequest := { sampleRequest with sourceManifest := scan stagedSource }

theorem scannedSource_stagedRequest : ScannedSource stagedSource stagedRequest.sourceManifest :=
  ⟨rfl, by decide +kernel⟩

theorem cleanupStagedTree_complete_sample :
    (∃ staged, attempt (stageDevice fun _ => none)
        ([AndroidStageAction.createDirectory "/data/stage/states"].forM runStageAction) createdDevice =
          (.ok (), staged) ∧
      attempt (stageDevice fun _ => none)
        (cleanupStagedTree "/data/stage" stagedRequest.sourceManifest) staged =
          (.ok (), plainDevice)) ∧
    ∃ stop, attempt (stageDevice fun _ => none)
        (cleanupStagedTree "/data/stage" stagedRequest.sourceManifest) foreignDevice =
          (.error stop, foreignDevice) ∧
      (Program.trace (stageDevice fun _ => none)
        (cleanupStagedTree "/data/stage" stagedRequest.sourceManifest).run foreignDevice).map (·.operation) =
          [.inspectTree "/data/stage"] :=
  ⟨cleanupStagedTree_complete.1 scannedSource_stagedRequest
      (show androidStageActions stagedRequest "/data/stage" = .ok
        [.createDirectory "/data/stage", .createDirectory "/data/stage/states",
          .pushFile "states/slot" (String.ofList (List.replicate 64 'e')) "/data/stage/states/slot"] by
        decide +kernel)
      (Prod.ext (by decide +kernel) rfl) ⟨_, rfl⟩,
    cleanupStagedTree_complete.2 (run_inspectTree (by decide +kernel))
      (show (⟨"states", .file, some "d1", none⟩ : CopyManifestEntry) ∈ _ by decide +kernel)
      (by decide +kernel)⟩

end EmuChef.CopyCommit
