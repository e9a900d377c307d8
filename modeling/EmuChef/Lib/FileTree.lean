import Mathlib.Data.List.Sort
import Mathlib.Logic.Relation
import Mathlib.Order.Compare
import Std.Data.ExtTreeMap

/-! An ideal file tree below one root: every named path has a parent that is a directory of the
tree, and operations report what a file system reports. -/

namespace EmuChef

/-- Paths below a root: a path without a parent lies directly below the root. -/
class TreePath (π : Type) [LinearOrder π] where
  parent : π → Option π
  named : π → Bool
  parent_lt {path above : π} : parent path = some above → above < path
  parent_named {path above : π} : named path = true → parent path = some above →
    named above = true

inductive TreeNode (δ ι : Type) where
  | directory (identity : ι)
  | file (identity : ι) (content : δ)
  deriving DecidableEq

inductive TreeNodeKind where
  | directory
  | file
  deriving DecidableEq

inductive TreeError where
  | invalidPath
  | missing
  | parentNotDirectory
  | wrongKind
  | notEmpty
  deriving DecidableEq

namespace TreeNode

variable {δ ι : Type}

def kind : TreeNode δ ι → TreeNodeKind
  | directory _ => .directory
  | file _ _ => .file

def identity : TreeNode δ ι → ι
  | directory identity => identity
  | file identity _ => identity

end TreeNode

structure FileTree (π δ ι : Type) [LinearOrder π] [TreePath π] where
  nodes : Std.ExtTreeMap π (TreeNode δ ι)
  named : ∀ (path : π) (node : TreeNode δ ι), nodes[path]? = some node →
    TreePath.named path = true
  rooted : ∀ (path : π) (node : TreeNode δ ι) (above : π), nodes[path]? = some node →
    TreePath.parent path = some above → nodes[above]?.map TreeNode.kind = some .directory

namespace FileTree

variable {π δ ι : Type} [LinearOrder π] [TreePath π]

def empty : FileTree π δ ι := ⟨∅, by simp, by simp⟩

def node (tree : FileTree π δ ι) (path : π) : Option (TreeNode δ ι) :=
  tree.nodes[path]?

def kindAt (tree : FileTree π δ ι) (path : π) : Option TreeNodeKind :=
  (tree.node path).map TreeNode.kind

def listing (tree : FileTree π δ ι) : List (π × TreeNode δ ι) :=
  tree.nodes.toList

def Ancestor (above path : π) : Prop :=
  Relation.TransGen (fun upper lower => TreePath.parent lower = some upper) above path

theorem Ancestor.lt {above path : π} (higher : Ancestor above path) : above < path := by
  induction higher with
  | single parent => exact TreePath.parent_lt parent
  | tail _ parent ih => exact ih.trans (TreePath.parent_lt parent)

variable {tree : FileTree π δ ι} {path : π}

theorem mem_listing (tree : FileTree π δ ι) {node : TreeNode δ ι} :
    (path, node) ∈ tree.listing ↔ tree.node path = some node :=
  Std.ExtTreeMap.mem_toList_iff_getElem?_eq_some

theorem listing_sorted (tree : FileTree π δ ι) :
    tree.listing.Pairwise fun left right => left.1 < right.1 :=
  Std.ExtTreeMap.ordered_keys_toList.imp fun before => compare_lt_iff_lt.mp before

theorem kindAt_parent {path above : π}
    (present : (tree.node path).isSome) (parent : TreePath.parent path = some above) :
    tree.kindAt above = some .directory := by
  obtain ⟨node, found⟩ := Option.isSome_iff_exists.mp present
  exact tree.rooted path node above found parent

theorem kindAt_ancestor {path above : π}
    (present : (tree.node path).isSome) (higher : Ancestor above path) :
    tree.kindAt above = some .directory := by
  induction higher with
  | single parent => exact kindAt_parent present parent
  | tail _ parent ih =>
      have upper := kindAt_parent present parent
      exact ih (by simpa [kindAt] using Option.isSome_of_eq_some upper)

def parentIsDirectory (tree : FileTree π δ ι) (path : π) : Bool :=
  match TreePath.parent path with
  | none => true
  | some above => tree.kindAt above = some .directory

def hasChild (tree : FileTree π δ ι) (path : π) : Bool :=
  tree.nodes.keys.any fun child => TreePath.parent child = some path

theorem hasChild_iff : tree.hasChild path = true ↔
      ∃ child, (tree.node child).isSome ∧ TreePath.parent child = some path := by
  simp only [hasChild, List.any_eq_true, Std.ExtTreeMap.mem_keys, decide_eq_true_eq, node]
  simp only [Std.ExtTreeMap.mem_iff_isSome_getElem?]

omit [TreePath π] in
theorem getElem?_insert_eq {β : Type} (nodes : Std.ExtTreeMap π β) (path query : π) (node : β) :
    (nodes.insert path node)[query]? = if query = path then some node else nodes[query]? := by
  rw [Std.ExtTreeMap.getElem?_insert]
  by_cases same : query = path
  · simp [same]
  · simp [same, Ne.symm same]

omit [TreePath π] in
theorem getElem?_erase_eq {β : Type} (nodes : Std.ExtTreeMap π β) (path query : π) :
    (nodes.erase path)[query]? = if query = path then none else nodes[query]? := by
  rw [Std.ExtTreeMap.getElem?_erase]
  by_cases same : query = path
  · simp [same]
  · simp [same, Ne.symm same]

/-- Put a node at a named path whose parent is a directory. A directory is never turned
into a file, since files have no entries below them. -/
def put (tree : FileTree π δ ι) (path : π) (new : TreeNode δ ι)
    (isNamed : TreePath.named path = true) (placed : tree.parentIsDirectory path = true)
    (keeps : tree.kindAt path = some .directory → new.kind = .directory) :
    FileTree π δ ι where
  nodes := tree.nodes.insert path new
  named query found present := by
    rw [getElem?_insert_eq] at present
    split at present
    next same => exact same ▸ isNamed
    next => exact tree.named query found present
  rooted query found above present parent := by
    have aboveDirectory : tree.kindAt above = some .directory := by
      rw [getElem?_insert_eq] at present
      split at present
      next same =>
        subst same
        simpa [parentIsDirectory, parent] using placed
      next => exact tree.rooted query found above present parent
    rw [getElem?_insert_eq]
    split
    next same =>
      subst same
      simp [keeps aboveDirectory]
    next => exact aboveDirectory

def drop (tree : FileTree π δ ι) (path : π) (childless : tree.hasChild path = false) :
    FileTree π δ ι where
  nodes := tree.nodes.erase path
  named query found present := by
    rw [getElem?_erase_eq] at present
    split at present
    next => simp at present
    next => exact tree.named query found present
  rooted query found above present parent := by
    rw [getElem?_erase_eq] at present
    split at present
    next => simp at present
    next =>
      have different : above ≠ path := by
        rintro rfl
        have child : tree.hasChild above = true :=
          hasChild_iff.mpr ⟨query, Option.isSome_of_eq_some present, parent⟩
        simp [childless] at child
      rw [getElem?_erase_eq, if_neg different]
      exact tree.rooted query found above present parent

@[simp] theorem node_put (tree : FileTree π δ ι) (path query : π) (new : TreeNode δ ι)
    (isNamed placed keeps) :
    (tree.put path new isNamed placed keeps).node query =
      if query = path then some new else tree.node query :=
  getElem?_insert_eq ..

@[simp] theorem node_drop (tree : FileTree π δ ι) (path query : π) (childless) :
    (tree.drop path childless).node query = if query = path then none else tree.node query :=
  getElem?_erase_eq ..

theorem ext_node {left right : FileTree π δ ι} (same : ∀ path, left.node path = right.node path) :
    left = right := by
  have nodes : left.nodes = right.nodes := Std.ExtTreeMap.ext_getElem? same
  cases left
  cases right
  simpa using nodes

def makeDirectory (tree : FileTree π δ ι) (path : π) (identity : ι) :
    Except TreeError (FileTree π δ ι) :=
  if isNamed : TreePath.named path = true then
    if placed : tree.parentIsDirectory path = true then
      match tree.kindAt path with
      | some .directory => .ok tree
      | some .file => .error .wrongKind
      | none => .ok (tree.put path (.directory identity) isNamed placed fun _ => rfl)
    else .error .parentNotDirectory
  else .error .invalidPath

def publishFile (tree : FileTree π δ ι) (path : π) (identity : ι) (content : δ) :
    Except TreeError (FileTree π δ ι) :=
  if isNamed : TreePath.named path = true then
    if placed : tree.parentIsDirectory path = true then
      if isDirectory : tree.kindAt path = some .directory then .error .wrongKind
      else .ok (tree.put path (.file identity content) isNamed placed
        fun found => absurd found isDirectory)
    else .error .parentNotDirectory
  else .error .invalidPath

def removeDirectory (tree : FileTree π δ ι) (path : π) : Except TreeError (FileTree π δ ι) :=
  match tree.kindAt path with
  | none => .error .missing
  | some .file => .error .wrongKind
  | some .directory =>
      if childless : tree.hasChild path = false then .ok (tree.drop path childless)
      else .error .notEmpty

def unlinkFile (tree : FileTree π δ ι) (path : π) : Except TreeError (FileTree π δ ι) :=
  match tree.kindAt path with
  | none => .error .missing
  | some .directory => .error .wrongKind
  | some .file =>
      if childless : tree.hasChild path = false then .ok (tree.drop path childless)
      else .error .notEmpty

theorem hasChild_eq_false_of_file
    (file : tree.kindAt path = some .file) : tree.hasChild path = false := by
  by_contra holds
  obtain ⟨child, present, parent⟩ := hasChild_iff.mp (by simpa using holds)
  simp [kindAt_parent present parent] at file

theorem makeDirectory_ok (identity : ι)
    (isNamed : TreePath.named path = true) (placed : tree.parentIsDirectory path = true)
    (notFile : tree.kindAt path ≠ some .file) :
    ∃ made, tree.makeDirectory path identity = .ok made ∧ ∀ query, made.node query =
      if query = path then some ((tree.node path).getD (.directory identity))
      else tree.node query := by
  simp only [makeDirectory, isNamed, placed, ↓reduceDIte]
  cases found : tree.node path with
  | none =>
      simp only [kindAt, found, Option.map_none, Option.getD_none]
      exact ⟨_, rfl, fun query => node_put ..⟩
  | some node =>
      cases node with
      | directory present =>
          refine ⟨tree, by simp [kindAt, found, TreeNode.kind], fun query => ?_⟩
          split
          next same => simp [same, found]
          next => rfl
      | file present content => simp [kindAt, found, TreeNode.kind] at notFile

theorem publishFile_ok (identity : ι) (content : δ)
    (isNamed : TreePath.named path = true) (placed : tree.parentIsDirectory path = true)
    (notDirectory : tree.kindAt path ≠ some .directory) :
    ∃ published, tree.publishFile path identity content = .ok published ∧ ∀ query,
      published.node query =
        if query = path then some (.file identity content) else tree.node query := by
  simp [publishFile, isNamed, placed, notDirectory]

theorem removeDirectory_ok
    (directory : tree.kindAt path = some .directory) (childless : tree.hasChild path = false) :
    ∃ removed, tree.removeDirectory path = .ok removed ∧ ∀ query,
      removed.node query = if query = path then none else tree.node query := by
  simp [removeDirectory, directory, childless]

theorem unlinkFile_ok (file : tree.kindAt path = some .file) :
    ∃ removed, tree.unlinkFile path = .ok removed ∧ ∀ query,
      removed.node query = if query = path then none else tree.node query := by
  simp [unlinkFile, file, hasChild_eq_false_of_file file]

theorem node_of_makeDirectory {tree made : FileTree π δ ι} {identity : ι}
    (absent : tree.node path = none) (done : tree.makeDirectory path identity = .ok made)
    (query : π) :
    made.node query = if query = path then some (.directory identity) else tree.node query := by
  simp only [makeDirectory, kindAt, absent, Option.map_none] at done
  split at done
  next =>
    split at done
    next =>
      obtain rfl := Except.ok.inj done
      exact node_put ..
    next => exact nomatch done
  next => exact nomatch done

theorem node_of_publishFile {tree published : FileTree π δ ι} {identity : ι}
    {content : δ} (done : tree.publishFile path identity content = .ok published) (query : π) :
    published.node query =
      if query = path then some (.file identity content) else tree.node query := by
  unfold publishFile at done
  split at done
  next =>
    split at done
    next =>
      split at done
      next => exact nomatch done
      next =>
        obtain rfl := Except.ok.inj done
        exact node_put ..
    next => exact nomatch done
  next => exact nomatch done

theorem node_of_removeDirectory {tree removed : FileTree π δ ι}
    (done : tree.removeDirectory path = .ok removed) :
    tree.hasChild path = false ∧ ∀ query,
      removed.node query = if query = path then none else tree.node query := by
  unfold removeDirectory at done
  split at done
  next => exact nomatch done
  next => exact nomatch done
  next =>
    split at done
    next childless =>
      obtain rfl := Except.ok.inj done
      exact ⟨childless, fun query => node_drop ..⟩
    next => exact nomatch done

theorem node_of_unlinkFile {tree removed : FileTree π δ ι}
    (done : tree.unlinkFile path = .ok removed) (query : π) :
    removed.node query = if query = path then none else tree.node query := by
  unfold unlinkFile at done
  split at done
  next => exact nomatch done
  next => exact nomatch done
  next =>
    split at done
    next =>
      obtain rfl := Except.ok.inj done
      exact node_drop ..
    next => exact nomatch done

theorem hasChild_eq_false (nothing : ∀ below, Ancestor path below → tree.node below = none) :
    tree.hasChild path = false := by
  by_contra holds
  obtain ⟨child, present, parent⟩ := hasChild_iff.mp (by simpa using holds)
  simp [nothing child (.single parent)] at present

/-- An entry may be made where all that is above it is a directory. -/
theorem parentIsDirectory_of_ancestors
    (directories : ∀ above, Ancestor above path → tree.kindAt above = some .directory) :
    tree.parentIsDirectory path = true := by
  cases parent : TreePath.parent path with
  | none => simp [parentIsDirectory, parent]
  | some above => simp [parentIsDirectory, parent, directories above (.single parent)]

def prune (tree : FileTree π δ ι) (keeps : π → Bool)
    (closed : ∀ path above, (tree.node path).isSome → TreePath.parent path = some above →
      keeps path = true → keeps above = true) : FileTree π δ ι where
  nodes := tree.nodes.filter fun path _ => keeps path
  named path node present := by
    rw [Std.ExtTreeMap.getElem?_filter', Option.filter_eq_some_iff] at present
    exact tree.named path node present.1
  rooted path node above present parent := by
    rw [Std.ExtTreeMap.getElem?_filter', Option.filter_eq_some_iff] at present
    rw [Std.ExtTreeMap.getElem?_filter']
    have directory := tree.rooted path node above present.1 parent
    have kept := closed path above (Option.isSome_of_eq_some present.1) parent present.2
    obtain ⟨upper, found, isDirectory⟩ := Option.map_eq_some_iff.mp directory
    simp [found, kept, isDirectory]

theorem node_prune (tree : FileTree π δ ι) (keeps closed) (path : π) :
    (tree.prune keeps closed).node path = if keeps path then tree.node path else none := by
  change (tree.nodes.filter _)[path]? = _
  rw [Std.ExtTreeMap.getElem?_filter']
  cases found : tree.node path with
  | none =>
      rw [show tree.nodes[path]? = none from found]
      simp
  | some node =>
      rw [show tree.nodes[path]? = some node from found]
      cases keeps path <;> simp

end FileTree

end EmuChef
