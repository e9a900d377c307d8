import EmuChef.Helper.CallLaw

/-! The helper's precondition check accepts exactly the reviewed entry, unless a call fails. -/

namespace EmuChef.Helper

open FaultyWorld
open Program (check)
open Split (stripLead)

variable {sha256Hex : List UInt8 → String} {before after : HelperState} {calls : List HelperCall}

section

/-- The failures that the helper makes good: a read or a write is made again, and the temporary
file is unlinked where it cannot be renamed. -/
inductive Tolerated : HelperCall → Prop
  | worked {operation : HelperOp} {response : operation.Response} :
      Tolerated ⟨operation, response, false⟩
  | read {file : Handle} {limit : Nat} : Tolerated ⟨.read file limit, .error .interrupted, true⟩
  | write {file : Handle} {bytes : List UInt8} :
      Tolerated ⟨.write file bytes, .error .interrupted, true⟩
  | rename {directory : Handle} {name replaced : String} {error : Errno} :
      Tolerated ⟨.renameAt directory name replaced, .error error, true⟩

def HelperOp.mayFail : HelperOp → Prop
  | read .. | write .. | renameAt .. => True
  | _ => False

theorem worked_of_tolerated {operation : HelperOp} {response : operation.Response} {failed : Bool}
    (tolerated : Tolerated ⟨operation, response, failed⟩) (strict : ¬operation.mayFail) :
    failed = false := by
  cases tolerated with
  | worked => rfl
  | read => exact absurd trivial strict
  | write => exact absurd trivial strict
  | rename => exact absurd trivial strict

variable {action : String} {post : Except HelperExit Unit → HelperState → Prop}

theorem ensures_orFail {operation : HelperOp}
    {post : Except HelperExit operation.Value → HelperState → Prop}
    (strict : ¬operation.mayFail)
    (works : ∀ identity amount, ∃ value after,
      answer sha256Hex identity amount operation before = (.ok value, after) ∧
        post (.ok value) after) :
    (deviceFiles sha256Hex).Ensures Tolerated (orFail operation action) before post := by
  intro calls after result ran tolerated
  cases attempts_orFail ran with
  | succeeded identity amount answered =>
      obtain ⟨value, final, worked, holds⟩ := works identity amount
      obtain ⟨same, rfl⟩ := Prod.mk.inj (worked.symm.trans answered)
      exact Except.ok.inj same ▸ holds
  | refused identity amount answered =>
      obtain ⟨value, final, worked, holds⟩ := works identity amount
      exact nomatch congrArg Prod.fst (worked.symm.trans answered)
  | failed =>
      exact nomatch worked_of_tolerated (tolerated _ (List.mem_singleton_self _)) strict

theorem ensures_demand {holds : Prop} [Decidable holds] (held : holds)
    (reached : post (.ok ()) before) :
    (deviceFiles sha256Hex).Ensures Tolerated (demand holds action) before post :=
  ensures_check (by rwa [if_pos held])

theorem ensures_syncDirectory {directory : Handle} (reached : post (.ok ()) before) :
    (deviceFiles sha256Hex).Ensures Tolerated (syncDirectory directory action) before post :=
  ensures_bind <| ensures_orFail id fun _ _ => ⟨_, _, rfl,
    ensures_orFail id fun _ _ => ⟨_, _, rfl, reached⟩⟩

theorem syncDirectory_done {directory : Handle} {result : Except HelperExit Unit}
    (ran : (deviceFiles sha256Hex).Attempts (syncDirectory directory action) before calls after
      result)
    (tolerated : ∀ call ∈ calls, Tolerated call) : result = .ok () ∧ after = before := by
  have synced : (deviceFiles sha256Hex).Ensures Tolerated (syncDirectory directory action) before
      fun result after => result = .ok () ∧ after = before := ensures_syncDirectory ⟨rfl, rfl⟩
  exact synced _ _ _ ran tolerated

end

section

def FileMeets (sha256Hex : List UInt8 → String) (node : Option PosixNode) (text : List Char) :
    Prop :=
  ∃ identityText digest identity bytes, fileExpectation text = some (identityText, digest) ∧
    identityText ≠ [] ∧ (String.ofList identityText).utf8ByteSize < 96 ∧
    entryIdentity identityText = some identity ∧ digest.utf8ByteSize = 64 ∧
    node = some (.file identity (.regular bytes)) ∧ sha256Hex bytes = digest

def EntryMeets (sha256Hex : List UInt8 → String) (node : Option PosixNode) (expected : String) :
    Prop :=
  if expected = "absent" then node = none
  else match stripLead "directory|".toList expected.toList with
    | some text => ∃ identity, entryIdentity text = some identity ∧ node = some (.directory identity)
    | none => ∃ text, stripLead "file|".toList expected.toList = some text ∧
        FileMeets sha256Hex node text

variable {parent : Handle} {name expected : String} {status : Stat}

theorem statAt_ok {action : String}
    (ran : (deviceFiles sha256Hex).Attempts (orFail (.statAt parent name) action) before calls
      after (.ok status)) :
    after = before ∧ ∃ node, before.tree.node (parent ++ [name]) = some node ∧
      status = statOf node := by
  obtain ⟨_, _, _, answered⟩ := orFail_ok ran
  obtain ⟨found, rfl⟩ := Prod.mk.inj answered
  simp only [statPath] at found
  split at found
  next => exact nomatch found
  next node held => exact ⟨rfl, node, held, (Except.ok.inj found).symm⟩

theorem found_of_check {α : Type} {found : Option α} {stop : HelperExit} {value : α}
    (ran : (deviceFiles sha256Hex).Attempts (check (found.elim (.error stop) .ok)) before calls
      after (.ok value)) : after = before ∧ found = some value := by
  obtain ⟨_, rfl, same⟩ := attempts_check.mp ran
  cases found with
  | none => exact nomatch same
  | some found => exact ⟨rfl, congrArg some (Except.ok.inj same).symm⟩

theorem verifyEntryIdentity_ok {text : List Char}
    (ran : (deviceFiles sha256Hex).Attempts (verifyEntryIdentity status text) before calls after
      (.ok ())) :
    after = before ∧ entryIdentity text = some status.identity := by
  obtain ⟨identity, _, _, _, parses, same, rfl⟩ := attempts_bind_finished.mp ran
  obtain ⟨rfl, parsed⟩ := found_of_check parses
  obtain ⟨_, rfl, rfl⟩ := demand_ok same
  exact ⟨rfl, parsed⟩

theorem directory_of_kind {node : PosixNode} (kind : (statOf node).kind = .directory) :
    node = .directory (statOf node).identity := by
  cases node with
  | directory => rfl
  | file _ content => cases content <;> exact nomatch kind

theorem regular_of_kind {node : PosixNode} (kind : (statOf node).kind = .regular) :
    ∃ bytes, node = .file (statOf node).identity (.regular bytes) := by
  cases node with
  | directory => exact nomatch kind
  | file identity content =>
      cases content with
      | regular bytes => exact ⟨bytes, rfl⟩
      | link => exact nomatch kind

theorem bytesOf_setOffset (state : HelperState) (file query : Handle) (offset : Nat) :
    (state.setOffset file offset).bytesOf query = state.bytesOf query := rfl

theorem openFileAt_ok {file : Handle} {action : String}
    (ran : (deviceFiles sha256Hex).Attempts (orFail (.openFileAt parent name) action) before calls
      after (.ok file)) :
    file = parent ++ [name] ∧ after = before.setOffset file 0 := by
  obtain ⟨_, _, _, answered⟩ := orFail_ok ran
  simp only [answer, openAt] at answered
  split at answered
  next => cases congrArg Prod.fst answered
  next => cases congrArg Prod.fst answered
  next =>
    obtain ⟨same, rfl⟩ := Prod.mk.inj answered
    obtain rfl := Except.ok.inj same
    exact ⟨rfl, rfl⟩

theorem digestOf_ok {file : Handle} {digest : String}
    (ran : (deviceFiles sha256Hex).Attempts (digestOf file) before calls after (.ok digest)) :
    digest = sha256Hex ((before.bytesOf file).drop (before.offset file)) := by
  obtain ⟨_, _, _, answered⟩ := orFail_ok ran
  exact (Except.ok.inj (congrArg Prod.fst answered)).symm

theorem statHandle_ok {handle : Handle} {action : String}
    (ran : (deviceFiles sha256Hex).Attempts (orFail (.statHandle handle) action) before calls after
      (.ok status)) :
    after = before ∧ statOpen before handle = .ok status := by
  obtain ⟨_, _, _, answered⟩ := orFail_ok ran
  obtain ⟨found, rfl⟩ := Prod.mk.inj answered
  exact ⟨rfl, found⟩

theorem verifyFileContent_ok {digest : String}
    (ran : (deviceFiles sha256Hex).Attempts (verifyFileContent parent name status digest) before
      calls after (.ok ())) :
    sha256Hex (before.bytesOf (parent ++ [name])) = digest := by
  obtain ⟨file, _, _, _, opens, looks, rfl⟩ := attempts_bind_finished.mp ran
  obtain ⟨rfl, rfl⟩ := openFileAt_ok opens
  obtain ⟨opened, _, _, _, inspects, compares, rfl⟩ := attempts_bind_finished.mp looks
  obtain ⟨rfl, _⟩ := statHandle_ok inspects
  obtain ⟨_, _, _, _, unchanged, digests, rfl⟩ := attempts_bind_finished.mp compares
  obtain ⟨_, rfl, _⟩ := demand_ok unchanged
  obtain ⟨actual, _, _, _, computes, same, rfl⟩ := attempts_bind_finished.mp digests
  have computed := digestOf_ok computes
  obtain ⟨_, _, rfl⟩ := demand_ok same
  rw [bytesOf_setOffset] at computed
  simpa [HelperState.setOffset] using computed.symm

theorem verifyFile_ok {node : PosixNode} {text : List Char}
    (held : before.tree.node (parent ++ [name]) = some node)
    (ran : (deviceFiles sha256Hex).Attempts (verifyFile parent name (statOf node) text) before
      calls after (.ok ())) : FileMeets sha256Hex (some node) text := by
  have bytesThere : ∀ identity bytes, node = .file identity (.regular bytes) →
      before.bytesOf (parent ++ [name]) = bytes := by
    rintro identity bytes rfl
    rw [HelperState.bytesOf, held]
  obtain ⟨⟨identityText, digest⟩, _, _, _, parses, kinds, rfl⟩ := attempts_bind_finished.mp ran
  obtain ⟨rfl, parsed⟩ := found_of_check parses
  obtain ⟨_, _, _, _, kind, lengths, rfl⟩ := attempts_bind_finished.mp kinds
  obtain ⟨_, rfl, regular⟩ := demand_ok kind
  obtain ⟨_, _, _, _, length, identities, rfl⟩ := attempts_bind_finished.mp lengths
  obtain ⟨_, rfl, filled, short⟩ := demand_ok length
  obtain ⟨_, _, _, _, identity, digests, rfl⟩ := attempts_bind_finished.mp identities
  obtain ⟨rfl, identified⟩ := verifyEntryIdentity_ok identity
  obtain ⟨_, _, _, _, size, contents, rfl⟩ := attempts_bind_finished.mp digests
  obtain ⟨_, rfl, sized⟩ := demand_ok size
  obtain ⟨bytes, isFile⟩ := regular_of_kind regular
  have content := verifyFileContent_ok contents
  rw [bytesThere _ _ isFile] at content
  exact ⟨identityText, digest, _, bytes, parsed, filled, short, identified, sized,
    congrArg some isFile, content⟩

theorem verifyEntryPrecondition_ok
    (ran : (deviceFiles sha256Hex).Attempts (verifyEntryPrecondition parent name expected) before
      calls after (.ok ())) :
    EntryMeets sha256Hex (before.tree.node (parent ++ [name])) expected := by
  unfold verifyEntryPrecondition at ran
  unfold EntryMeets
  split at ran
  next absent =>
    rw [if_pos absent]
    obtain ⟨response, middle, _, _, asked, done, rfl⟩ := FaultyWorld.runs_bind.mp ran
    obtain ⟨failed, rfl, answers⟩ := runs_issue.mp asked
    split at done
    next => cases (FaultyWorld.runs_pure.mp done).2.2
    next =>
      cases answers with
      | works worked =>
          obtain ⟨_, _, answered⟩ := worked
          have found := congrArg Prod.fst answered
          simp only [answer, statPath] at found
          split at found
          next missing => exact missing
          next => cases found
      | fails broken =>
          obtain ⟨error, same, other⟩ := broken
          exact absurd (Except.error.inj same).symm (other parent name rfl)
    next => cases (FaultyWorld.runs_pure.mp done).2.2
  next present =>
    rw [if_neg present]
    obtain ⟨status, _, _, _, inspects, compares, rfl⟩ := attempts_bind_finished.mp ran
    obtain ⟨rfl, node, held, rfl⟩ := statAt_ok inspects
    rw [held]
    revert compares
    cases stripLead "directory|".toList expected.toList with
    | some text =>
        intro compares
        obtain ⟨_, _, _, _, kind, identity, rfl⟩ := attempts_bind_finished.mp compares
        obtain ⟨_, rfl, directory⟩ := demand_ok kind
        obtain ⟨_, identified⟩ := verifyEntryIdentity_ok identity
        exact ⟨_, identified, congrArg some (directory_of_kind directory)⟩
    | none =>
        intro compares
        cases isFile : stripLead "file|".toList expected.toList with
        | some text =>
            simp only [isFile] at compares
            exact ⟨text, rfl, verifyFile_ok held compares⟩
        | none =>
            simp only [isFile] at compares
            cases (FaultyWorld.attempts_throw.mp compares).2.2

def Untouched (before : HelperState) (result : Except HelperExit Unit) (after : HelperState) : Prop :=
  result = .ok () ∧ after.tree = before.tree

theorem ensures_verifyEntryIdentity {text : List Char} {identity : Identity}
    (parsed : entryIdentity text = some identity) (same : status.identity = identity) :
    (deviceFiles sha256Hex).Ensures Tolerated (verifyEntryIdentity status text) before
      (Untouched before) :=
  ensures_bind <| ensures_check <| by
    rw [parsed]
    exact ensures_demand same ⟨rfl, rfl⟩

variable {identity : Identity} {bytes : List UInt8}

theorem ensures_verifyFileContent
    (held : before.tree.node (parent ++ [name]) = some (.file identity (.regular bytes))) :
    (deviceFiles sha256Hex).Ensures Tolerated
      (verifyFileContent parent name (statOf (.file identity (.regular bytes))) (sha256Hex bytes))
      before (Untouched before) := by
  have opens (fresh : Identity) (amount : Nat) : answer sha256Hex fresh amount
      (.openFileAt parent name) before =
        (.ok (parent ++ [name]), before.setOffset (parent ++ [name]) 0) := by
    simp only [answer, openAt, held]
    rfl
  have inspects : statOpen (before.setOffset (parent ++ [name]) 0) (parent ++ [name]) =
      .ok (statOf (.file identity (.regular bytes))) := by
    simp [statOpen, statPath, held]
  have contains : sha256Hex (((before.setOffset (parent ++ [name]) 0).bytesOf
      (parent ++ [name])).drop ((before.setOffset (parent ++ [name]) 0).offset
        (parent ++ [name]))) = sha256Hex bytes := by
    rw [bytesOf_setOffset, HelperState.bytesOf, held]
    simp [HelperState.setOffset]
  refine ensures_bind <| ensures_orFail id fun fresh amount => ⟨_, _, opens fresh amount, ?_⟩
  refine ensures_bind <| ensures_orFail id fun _ _ => ⟨_, _, congrArg (·, _) inspects, ?_⟩
  refine ensures_bind <| ensures_demand rfl ?_
  refine ensures_bind <| ensures_orFail id fun _ _ => ⟨_, _, rfl, ?_⟩
  exact ensures_demand contains ⟨rfl, rfl⟩

theorem ensures_verifyFile {node : PosixNode} {text : List Char}
    (held : before.tree.node (parent ++ [name]) = some node)
    (meets : FileMeets sha256Hex (some node) text) :
    (deviceFiles sha256Hex).Ensures Tolerated (verifyFile parent name (statOf node) text) before
      (Untouched before) := by
  obtain ⟨identityText, digest, identity, bytes, parsed, filled, short, identified, sized, isFile,
    rfl⟩ := meets
  obtain rfl := Option.some.inj isFile
  refine ensures_bind <| ensures_check ?_
  rw [parsed]
  refine ensures_bind <| ensures_demand rfl ?_
  refine ensures_bind <| ensures_demand ⟨filled, short⟩ ?_
  refine ensures_bind <| (ensures_verifyEntryIdentity identified rfl).mono ?_
  rintro _ after ⟨rfl, same⟩
  refine ensures_bind <| ensures_demand sized ?_
  rw [← same] at held
  refine (ensures_verifyFileContent held).mono fun result final untouched => ?_
  exact ⟨untouched.1, untouched.2.trans same⟩

/-- The check of an entry that meets its precondition leaves the tree as it was. -/
theorem ensures_verifyEntryPrecondition
    (meets : EntryMeets sha256Hex (before.tree.node (parent ++ [name])) expected) :
    (deviceFiles sha256Hex).Ensures Tolerated (verifyEntryPrecondition parent name expected) before
      (Untouched before) := by
  unfold verifyEntryPrecondition
  unfold EntryMeets at meets
  split at meets
  next absent =>
    rw [if_pos absent]
    intro calls after result ran tolerated
    obtain ⟨response, middle, _, _, asked, done, rfl⟩ := FaultyWorld.runs_bind.mp ran
    obtain ⟨failed, rfl, answers⟩ := runs_issue.mp asked
    obtain rfl := worked_of_tolerated (tolerated _ (List.mem_append_left _
      (List.mem_singleton_self _))) id
    cases answers with
    | works worked =>
        obtain ⟨_, _, answered⟩ := worked
        simp only [answer, statPath, meets] at answered
        obtain ⟨rfl, rfl⟩ := Prod.mk.inj answered
        obtain ⟨rfl, rfl, rfl⟩ := FaultyWorld.runs_pure.mp done
        exact ⟨rfl, rfl⟩
  next present =>
    rw [if_neg present]
    obtain ⟨node, held⟩ : ∃ node, before.tree.node (parent ++ [name]) = some node := by
      split at meets
      next => exact ⟨_, meets.choose_spec.2⟩
      next =>
        obtain ⟨_, _, _, _, _, _, _, _, _, _, _, isFile, _⟩ := meets
        exact ⟨_, isFile⟩
    have inspects : statPath before (parent ++ [name]) = .ok (statOf node) := by
      simp only [statPath, held]
    refine ensures_bind <| ensures_orFail id fun _ _ => ⟨_, _, congrArg (·, _) inspects, ?_⟩
    rw [held] at meets
    dsimp only
    revert meets
    cases stripLead "directory|".toList expected.toList with
    | some text =>
        rintro ⟨identity, identified, same⟩
        obtain rfl := Option.some.inj same
        exact ensures_bind <| ensures_demand rfl (ensures_verifyEntryIdentity identified rfl)
    | none =>
        rintro ⟨text, isFile, meets⟩
        simp only [isFile]
        exact ensures_verifyFile held meets

end

end EmuChef.Helper
