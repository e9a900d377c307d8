import EmuChef.Lib.FaultyWorld
import EmuChef.Lib.NamePath

/-! The system calls of the on-device helper over a file tree with symbolic links. -/

namespace EmuChef.Helper

structure Identity where
  device : Nat
  inode : Nat
  deriving DecidableEq

inductive FileContent where
  | regular (bytes : List UInt8)
  | link (target : String)
  deriving DecidableEq

abbrev PosixTree := FileTree (List String) FileContent Identity

abbrev PosixNode := TreeNode FileContent Identity

inductive Errno where
  | noEntry
  | exists
  | notDirectory
  | isDirectory
  | notEmpty
  | loop
  | interrupted
  | invalid
  | other (code : Nat)
  deriving DecidableEq

inductive FileKind where
  | directory
  | regular
  | link
  deriving DecidableEq

structure Stat where
  identity : Identity
  kind : FileKind
  deriving DecidableEq

def statOf : PosixNode → Stat
  | .directory identity => ⟨identity, .directory⟩
  | .file identity (.regular _) => ⟨identity, .regular⟩
  | .file identity (.link _) => ⟨identity, .link⟩

/-- An open file or directory. Nothing moves an entry while the helper holds it open, so a
descriptor stands for the path that it was opened at. -/
abbrev Handle := List String

/-- The calls that the helper makes. `digest` stands for a run of `sha256sum` over a descriptor. -/
inductive HelperOp where
  | openRoot
  | openDirectoryAt (directory : Handle) (name : String)
  | openSelf (directory : Handle)
  | duplicate (directory : Handle)
  | readLinkAt (directory : Handle) (name : String)
  | statHandle (handle : Handle)
  | statAt (directory : Handle) (name : String)
  | makeDirectoryAt (directory : Handle) (name : String)
  | unlinkAt (directory : Handle) (name : String) (removesDirectory : Bool)
  | openFileAt (directory : Handle) (name : String)
  | createFileAt (directory : Handle) (name : String)
  | rewind (file : Handle)
  | digest (file : Handle)
  | read (file : Handle) (limit : Nat)
  | write (file : Handle) (bytes : List UInt8)
  | changeMode (file : Handle)
  | flush (handle : Handle)
  | renameAt (directory : Handle) (name replaced : String)
  deriving DecidableEq

def HelperOp.Value : HelperOp → Type
  | openRoot | openDirectoryAt .. | openSelf _ | duplicate _ | openFileAt .. | createFileAt .. =>
      Handle
  | readLinkAt .. | digest _ => String
  | statHandle _ | statAt .. => Stat
  | read .. => List UInt8
  | write .. => Nat
  | makeDirectoryAt .. | unlinkAt .. | rewind _ | changeMode _ | flush _ | renameAt .. => Unit

abbrev HelperOp.Response (operation : HelperOp) : Type := Except Errno operation.Value

structure HelperState where
  tree : PosixTree
  rootIdentity : Identity
  offset : Handle → Nat

namespace HelperState

variable (state : HelperState)

def setOffset (file : Handle) (offset : Nat) : HelperState :=
  { state with offset := Function.update state.offset file offset }

def bytesOf (file : Handle) : List UInt8 :=
  match state.tree.node file with
  | some (.file _ (.regular bytes)) => bytes
  | _ => []

@[simp] theorem setOffset_tree (file : Handle) (offset : Nat) :
    (state.setOffset file offset).tree = state.tree := rfl

end HelperState

section

def errnoOf : TreeError → Errno
  | .invalidPath => .invalid
  | .missing => .noEntry
  | .parentNotDirectory => .notDirectory
  | .wrongKind => .notDirectory
  | .notEmpty => .notEmpty

def changed {α : Type} (state : HelperState) (value : α) :
    Except TreeError PosixTree → Except Errno α × HelperState
  | .ok tree => (.ok value, { state with tree := tree })
  | .error error => (.error (errnoOf error), state)

def openAt (state : HelperState) (path : Handle) : Except Errno Handle × HelperState :=
  match state.tree.node path with
  | none => (.error .noEntry, state)
  | some (.file _ (.link _)) => (.error .loop, state)
  | some _ => (.ok path, state.setOffset path 0)

def openDirectory (state : HelperState) (path : Handle) : Except Errno Handle :=
  match state.tree.node path with
  | none => .error .noEntry
  | some (.directory _) => .ok path
  | some (.file ..) => .error .notDirectory

def readLink (state : HelperState) (path : Handle) : Except Errno String :=
  match state.tree.node path with
  | none => .error .noEntry
  | some (.file _ (.link target)) => .ok target
  | some _ => .error .invalid

def statPath (state : HelperState) (path : Handle) : Except Errno Stat :=
  match state.tree.node path with
  | none => .error .noEntry
  | some node => .ok (statOf node)

def statOpen (state : HelperState) (handle : Handle) : Except Errno Stat :=
  if handle = [] then .ok ⟨state.rootIdentity, .directory⟩ else statPath state handle

def unlinkPath (tree : PosixTree) (path : Handle) (removesDirectory : Bool) :
    Except TreeError PosixTree :=
  if removesDirectory then tree.removeDirectory path else tree.unlinkFile path

def renamePath (tree : PosixTree) (path replaced : Handle) : Except TreeError PosixTree :=
  match tree.node path with
  | some (.file identity content) =>
      if tree.kindAt replaced = some .directory then .error .wrongKind
      else (tree.unlinkFile path).bind fun unlinked => unlinked.publishFile replaced identity content
  | some (.directory _) => .error .wrongKind
  | none => .error .missing

def writePath (state : HelperState) (path : Handle) (bytes : List UInt8) :
    Except TreeError PosixTree :=
  match state.tree.node path with
  | some (.file identity (.regular old)) =>
      let offset := state.offset path
      state.tree.publishFile path identity
        (.regular (old.take offset ++ bytes ++ old.drop (offset + bytes.length)))
  | some _ => .error .wrongKind
  | none => .error .missing

-- The digest that `sha256sum` prints for a content.
variable (sha256Hex : List UInt8 → String)

/-- The answer of a call that works. A new entry gets the identity, and a read or a write moves at
most the amount, but always something where there is something to move. -/
def answer (identity : Identity) (amount : Nat) :
    (operation : HelperOp) → HelperState → operation.Response × HelperState
  | .openRoot, state => (.ok [], state)
  | .openDirectoryAt directory name, state => (openDirectory state (directory ++ [name]), state)
  | .openSelf directory, state => (.ok directory, state)
  | .duplicate directory, state => (.ok directory, state)
  | .readLinkAt directory name, state => (readLink state (directory ++ [name]), state)
  | .statHandle handle, state => (statOpen state handle, state)
  | .statAt directory name, state => (statPath state (directory ++ [name]), state)
  | .makeDirectoryAt directory name, state =>
      if (state.tree.node (directory ++ [name])).isSome then (.error .exists, state)
      else changed state () (state.tree.makeDirectory (directory ++ [name]) identity)
  | .unlinkAt directory name removesDirectory, state =>
      changed state () (unlinkPath state.tree (directory ++ [name]) removesDirectory)
  | .openFileAt directory name, state => openAt state (directory ++ [name])
  | .createFileAt directory name, state =>
      if (state.tree.node (directory ++ [name])).isSome then (.error .exists, state)
      else changed (state.setOffset (directory ++ [name]) 0) (directory ++ [name])
        (state.tree.publishFile (directory ++ [name]) identity (.regular []))
  | .rewind file, state => (.ok (), state.setOffset file 0)
  | .digest file, state =>
      (.ok (sha256Hex ((state.bytesOf file).drop (state.offset file))),
        state.setOffset file (state.bytesOf file).length)
  | .read file limit, state =>
      let bytes := ((state.bytesOf file).drop (state.offset file)).take (min limit (amount + 1))
      (.ok bytes, state.setOffset file (state.offset file + bytes.length))
  | .write file bytes, state =>
      let written := bytes.take (amount + 1)
      changed (state.setOffset file (state.offset file + written.length)) written.length
        (writePath state file written)
  | .changeMode _, state => (.ok (), state)
  | .flush _, state => (.ok (), state)
  | .renameAt directory name replaced, state =>
      changed state () (renamePath state.tree (directory ++ [name]) (directory ++ [replaced]))

/-- A system call may fail with any error. That an entry is missing is an answer and no failure
of a call that asks for it. -/
def deviceFiles : FaultyWorld HelperOp HelperOp.Response HelperState where
  works before operation response after :=
    ∃ identity amount, answer sha256Hex identity amount operation before = (response, after)
  fails operation response := ∃ error, response = .error error ∧
    ∀ directory name, operation = .statAt directory name → error ≠ .noEntry

end

def HelperOp.changes : HelperOp → Prop
  | makeDirectoryAt .. | unlinkAt .. | createFileAt .. | write .. | renameAt .. => True
  | _ => False

theorem kept_of_quiet {sha256Hex : List UInt8 → String} {before after : HelperState}
    {operation : HelperOp} {response : operation.Response} (quiet : ¬operation.changes)
    (worked : (deviceFiles sha256Hex).works before operation response after) :
    after.tree = before.tree ∧ after.rootIdentity = before.rootIdentity := by
  obtain ⟨identity, amount, answered⟩ := worked
  cases operation with
  | makeDirectoryAt | unlinkAt | createFileAt | write | renameAt => exact absurd trivial quiet
  | openFileAt directory name =>
      simp only [answer, openAt] at answered
      split at answered <;> · obtain ⟨rfl, rfl⟩ := Prod.mk.inj answered; exact ⟨rfl, rfl⟩
  | _ =>
      obtain ⟨rfl, rfl⟩ := Prod.mk.inj answered
      exact ⟨rfl, rfl⟩

theorem tree_of_quiet {sha256Hex : List UInt8 → String} {before after : HelperState}
    {operation : HelperOp} {response : operation.Response} (quiet : ¬operation.changes)
    (worked : (deviceFiles sha256Hex).works before operation response after) :
    after.tree = before.tree :=
  (kept_of_quiet quiet worked).1

end EmuChef.Helper
