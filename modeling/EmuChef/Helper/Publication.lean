import EmuChef.Helper.PreconditionLaw

/-! The temporary file of a publication: filled, renamed onto its entry, or unlinked again. -/

namespace EmuChef.Helper

open FaultyWorld (Ensures ensures_bind ensures_pure ensures_request ensures_throw)

variable {sha256Hex : List UInt8 → String} {before after : HelperState} {calls : List HelperCall}

section

structure OnlyTemporary (before : HelperState) (temporary : Handle) (state : HelperState) :
    Prop where
  absent : before.tree.node temporary = none
  file : ∃ identity bytes, state.tree.node temporary = some (.file identity (.regular bytes))
  others : ∀ path, path ≠ temporary → state.tree.node path = before.tree.node path

theorem OnlyTemporary.quiet {temporary : Handle} {state after : HelperState}
    (only : OnlyTemporary before temporary state) (same : after.tree = state.tree) :
    OnlyTemporary before temporary after :=
  ⟨only.absent, same ▸ only.file, same ▸ only.others⟩

theorem changed_ok {α : Type} {state : HelperState} {value found : α}
    {outcome : Except TreeError PosixTree}
    (done : changed state value outcome = (.ok found, after)) :
    found = value ∧ outcome = .ok after.tree := by
  cases outcome with
  | ok tree =>
      obtain ⟨same, rfl⟩ := Prod.mk.inj done
      exact ⟨(Except.ok.inj same).symm, rfl⟩
  | error => exact nomatch congrArg Prod.fst done

theorem changed_error {α : Type} {state : HelperState} {value : α} {error : Errno}
    {outcome : Except TreeError PosixTree}
    (done : changed state value outcome = (.error error, after)) : after = state := by
  cases outcome with
  | ok tree => exact nomatch congrArg Prod.fst done
  | error => exact (congrArg Prod.snd done).symm

theorem tree_of_refused {operation : HelperOp} {identity : Identity} {amount : Nat} {error : Errno}
    (refused : answer sha256Hex identity amount operation before = (.error error, after)) :
    after.tree = before.tree := by
  by_cases changes : operation.changes
  · cases operation with
    | makeDirectoryAt | createFileAt =>
        simp only [answer] at refused
        split at refused
        next => exact congrArg (fun answer => answer.2.tree) refused.symm
        next => simp [changed_error refused]
    | unlinkAt | write | renameAt => simp [changed_error refused]
    | _ => exact changes.elim
  · exact tree_of_quiet changes ⟨_, _, refused⟩

theorem tree_of_error {operation : HelperOp} {failed : Bool} {error : Errno}
    (answers : (deviceFiles sha256Hex).Answers before ⟨operation, .error error, failed⟩ after) :
    after.tree = before.tree := by
  cases answers with
  | works worked =>
      obtain ⟨_, _, refused⟩ := worked
      exact tree_of_refused refused
  | fails => rfl

theorem tree_of_orFail_error {operation : HelperOp} {action : String} {stop : HelperExit}
    (ran : (deviceFiles sha256Hex).Attempts (orFail operation action) before calls after
      (.error stop)) : after.tree = before.tree := by
  cases attempts_orFail ran with
  | refused _ _ refused => exact tree_of_refused refused
  | failed => rfl

theorem createFileAt_ok {directory handle : Handle} {name : String} {identity : Identity}
    {amount : Nat} (created : answer sha256Hex identity amount (.createFileAt directory name) before =
      (.ok handle, after)) :
    handle = directory ++ [name] ∧ OnlyTemporary before (directory ++ [name]) after := by
  simp only [answer] at created
  split at created
  next => cases congrArg Prod.fst created
  next free =>
    obtain ⟨rfl, done⟩ := changed_ok created
    refine ⟨rfl, by simpa using free, ⟨identity, [], ?_⟩, fun path different => ?_⟩
    · rw [FileTree.node_of_publishFile done, if_pos rfl]
    · rw [FileTree.node_of_publishFile done, if_neg different]

variable {state : HelperState} {temporary : Handle}

theorem placed_of_node {tree : PosixTree} {path : Handle} {node : PosixNode}
    (held : tree.node path = some node) :
    TreePath.named path = true ∧ tree.parentIsDirectory path = true := by
  refine ⟨tree.named path node held, ?_⟩
  cases parent : TreePath.parent path with
  | none => simp [FileTree.parentIsDirectory, parent]
  | some above =>
      have directory := FileTree.kindAt_parent (Option.isSome_of_eq_some held) parent
      simp [FileTree.parentIsDirectory, parent, directory]

theorem answer_write (only : OnlyTemporary before temporary state) (identity : Identity)
    (amount : Nat) (bytes : List UInt8) :
    ∃ next, answer sha256Hex identity amount (.write temporary bytes) state =
        (.ok (bytes.take (amount + 1)).length, next) ∧ OnlyTemporary before temporary next := by
  obtain ⟨owner, old, held⟩ := only.file
  obtain ⟨named, placed⟩ := placed_of_node held
  have isFile : state.tree.kindAt temporary ≠ some .directory := by
    simp [FileTree.kindAt, held, TreeNode.kind]
  obtain ⟨written, done, nodes⟩ := FileTree.publishFile_ok owner (.regular (old.take
    (state.offset temporary) ++ bytes.take (amount + 1) ++ old.drop (state.offset temporary +
      (bytes.take (amount + 1)).length))) named placed isFile
  refine ⟨{ state.setOffset temporary (state.offset temporary + (bytes.take (amount + 1)).length)
    with tree := written }, ?_, only.absent, ⟨owner, _, (nodes temporary).trans (if_pos rfl)⟩,
      fun path different => ?_⟩
  · simp only [answer, writePath, held, done, changed]
  · exact (nodes path).trans ((if_neg different).trans (only.others path different))

def Filling {α : Type} (before : HelperState) (temporary : Handle) (result : Except HelperExit α)
    (after : HelperState) : Prop :=
  OnlyTemporary before temporary after ∧ ∀ stop, result = .error stop → stop = .unfinished

theorem ensures_writeAll (fuel : Nat) (bytes : List UInt8)
    (only : OnlyTemporary before temporary state) :
    (deviceFiles sha256Hex).Ensures Tolerated (writeAll temporary fuel bytes) state
      (Filling before temporary) := by
  induction fuel generalizing bytes state with
  | zero =>
      cases bytes with
      | nil => exact ensures_pure ⟨only, fun _ stopped => nomatch stopped⟩
      | cons => exact ensures_throw ⟨only, fun _ stopped => (Except.error.inj stopped).symm⟩
  | succ fuel ih =>
      cases bytes with
      | nil => exact ensures_pure ⟨only, fun _ stopped => nomatch stopped⟩
      | cons byte rest =>
          refine ensures_request fun response failed middle answers tolerated => ?_
          cases response with
          | ok count =>
              obtain ⟨_, identity, amount, answered⟩ := answers_ok answers
              obtain ⟨next, worked, kept⟩ := answer_write only identity amount (byte :: rest)
              obtain ⟨same, rfl⟩ := Prod.mk.inj (worked.symm.trans answered)
              obtain rfl := Except.ok.inj same
              simpa using ih _ kept
          | error error =>
              cases answers with
              | works worked =>
                  obtain ⟨identity, amount, refused⟩ := worked
                  obtain ⟨_, worked, _⟩ := answer_write only identity amount (byte :: rest)
                  exact nomatch congrArg Prod.fst (worked.symm.trans refused)
              | fails => cases tolerated with
                | write => exact ih _ only

theorem ensures_copyFile (source : Handle) (fuel : Nat)
    (only : OnlyTemporary before temporary state) :
    (deviceFiles sha256Hex).Ensures Tolerated (copyFile source temporary fuel) state
      (Filling before temporary) := by
  induction fuel generalizing state with
  | zero => exact ensures_throw ⟨only, fun _ stopped => (Except.error.inj stopped).symm⟩
  | succ fuel ih =>
      refine ensures_request fun response failed middle answers tolerated => ?_
      cases response with
      | ok bytes =>
          obtain ⟨_, identity, amount, answered⟩ := answers_ok answers
          have kept := only.quiet (tree_of_quiet id ⟨_, _, answered⟩)
          dsimp only
          split
          next => exact ensures_pure ⟨kept, fun _ stopped => nomatch stopped⟩
          next =>
            refine ensures_bind <| (ensures_writeAll fuel bytes kept).mono ?_
            rintro (stop | _) after ⟨written, stops⟩
            · exact ⟨written, stops⟩
            · exact ih written
      | error error =>
          cases answers with
          | works worked =>
              obtain ⟨_, _, refused⟩ := worked
              exact nomatch congrArg Prod.fst refused
          | fails => cases tolerated with
            | read => exact ih only

def Filled (sha256Hex : List UInt8 → String) (before : HelperState) (temporary : Handle)
    (result : Except HelperExit String) (after : HelperState) : Prop :=
  OnlyTemporary before temporary after ∧ match result with
    | .error stop => stop = .unfinished
    | .ok digest => ∃ identity bytes,
        after.tree.node temporary = some (.file identity (.regular bytes)) ∧
          sha256Hex bytes = digest

theorem ensures_fillTemporary (source : Handle) (fuel : Nat)
    (only : OnlyTemporary before temporary state) :
    (deviceFiles sha256Hex).Ensures Tolerated (fillTemporary fuel source temporary) state
      (Filled sha256Hex before temporary) := by
  refine ensures_bind <| (ensures_copyFile source fuel only).mono ?_
  rintro (stop | _) middle ⟨kept, stops⟩
  · exact ⟨kept, stops stop rfl⟩
  refine ensures_bind <| ensures_orFail id fun _ _ => ⟨_, _, rfl, ?_⟩
  refine ensures_bind <| ensures_orFail id fun _ _ => ⟨_, _, rfl, ?_⟩
  refine ensures_bind <| ensures_orFail id fun _ _ => ⟨_, _, rfl, ?_⟩
  refine ensures_orFail id fun _ _ => ⟨_, _, rfl, kept.quiet rfl, ?_⟩
  obtain ⟨identity, bytes, held⟩ := kept.file
  refine ⟨identity, bytes, held, ?_⟩
  rw [bytesOf_setOffset, HelperState.bytesOf, held]
  simp [HelperState.setOffset]

theorem tree_of_unlinked {directory : Handle} {name : String} {identity : Identity} {amount : Nat}
    {response : (HelperOp.unlinkAt directory name false).Response} {after : HelperState}
    (only : OnlyTemporary before (directory ++ [name]) state)
    (unlinked : answer sha256Hex identity amount (.unlinkAt directory name false) state =
      (response, after)) : after.tree = before.tree := by
  obtain ⟨owner, bytes, held⟩ := only.file
  have isFile : state.tree.kindAt (directory ++ [name]) = some .file := by
    simp [FileTree.kindAt, held, TreeNode.kind]
  obtain ⟨removed, done, nodes⟩ := FileTree.unlinkFile_ok isFile
  simp only [answer, unlinkPath, Bool.false_eq_true, if_false, done, changed] at unlinked
  obtain ⟨_, rfl⟩ := Prod.mk.inj unlinked
  refine FileTree.ext_node fun path => (nodes path).trans ?_
  split
  next same => rw [same, only.absent]
  next different => exact only.others path different

theorem ensures_discard {directory : Handle} {name action : String} {α : Type}
    (only : OnlyTemporary before (directory ++ [name]) state) :
    (deviceFiles sha256Hex).Ensures Tolerated (discard (α := α) directory name action) state
      fun result after => after.tree = before.tree ∧ result = .error (.failed action) := by
  refine ensures_request fun response failed middle answers tolerated => ?_
  obtain rfl := worked_of_tolerated tolerated id
  cases answers with
  | works worked =>
      obtain ⟨identity, amount, unlinked⟩ := worked
      exact ensures_throw ⟨tree_of_unlinked only unlinked, rfl⟩

theorem renamePath_ok {tree renamed : PosixTree} {path replaced : Handle} {node : PosixNode}
    (held : tree.node path = some node) (done : renamePath tree path replaced = .ok renamed)
    (query : Handle) :
    renamed.node query =
      if query = replaced then some node else if query = path then none else tree.node query := by
  unfold renamePath at done
  rw [held] at done
  split at done
  next identity content same =>
    obtain rfl := Option.some.inj same
    split at done
    next => exact nomatch done
    next =>
      cases unlink : tree.unlinkFile path with
      | error => simp [unlink, Except.bind] at done
      | ok unlinked =>
          simp only [unlink, Except.bind] at done
          rw [FileTree.node_of_publishFile done, FileTree.node_of_unlinkFile unlink]
          split_ifs <;> rfl
  next => exact nomatch done
  next missing => exact nomatch missing

def Published (sha256Hex : List UInt8 → String) (before : PosixTree) (target : Handle)
    (digest : String) (after : PosixTree) : Prop :=
  ∃ identity bytes, sha256Hex bytes = digest ∧ ∀ path, after.node path =
    if path = target then some (.file identity (.regular bytes)) else before.node path

/-- A staged file is published whole, or the tree is as before. -/
theorem ensures_publishTemporary {parent : Handle} {temporary name expected digest : String}
    {identity : Identity} {bytes : List UInt8}
    (only : OnlyTemporary before (parent ++ [temporary]) state)
    (held : state.tree.node (parent ++ [temporary]) = some (.file identity (.regular bytes)))
    (content : sha256Hex bytes = digest) (different : temporary ≠ name)
    (meets : EntryMeets sha256Hex (before.tree.node (parent ++ [name])) expected) :
    (deviceFiles sha256Hex).Ensures Tolerated (publishTemporary parent temporary name expected)
      state fun result after => match result with
        | .ok () => Published sha256Hex before.tree (parent ++ [name]) digest after.tree
        | .error _ => after.tree = before.tree := by
  have apart : parent ++ [name] ≠ parent ++ [temporary] := by
    simpa using Ne.symm different
  rw [← only.others _ apart] at meets
  refine ensures_bind <| (ensures_verifyEntryPrecondition meets).mono ?_
  rintro _ checked ⟨rfl, same⟩
  refine ensures_request fun response failed middle answers tolerated => ?_
  cases response with
  | ok =>
      obtain ⟨_, _, _, renamed⟩ := answers_ok answers
      obtain ⟨_, done⟩ := changed_ok renamed
      rw [same] at done
      refine ensures_syncDirectory ⟨identity, bytes, content, fun path => ?_⟩
      rw [renamePath_ok held done]
      by_cases target : path = parent ++ [name]
      · rw [if_pos target, if_pos target]
      · rw [if_neg target, if_neg target]
        split
        next isTemporary => rw [isTemporary, only.absent]
        next other => exact only.others path other
  | error =>
      have kept := only.quiet ((tree_of_error answers).trans same)
      refine (ensures_discard kept).mono ?_
      rintro _ after ⟨restored, rfl⟩
      exact restored

end

end EmuChef.Helper
