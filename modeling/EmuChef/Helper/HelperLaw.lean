import EmuChef.Helper.Publication

/-! The helper applies its mutation or leaves the tree as it was, unless a call fails after the
first effective one. -/

namespace EmuChef.Helper

open FaultyWorld
open Program (check)
open Split (stripLead)

variable {sha256Hex : List UInt8 → String} {before after : HelperState} {calls : List HelperCall}

section

def Effective (call : HelperCall) : Prop :=
  call.operation.changes ∧ ∃ value, call.response = .ok value

def Undisturbed (calls : List HelperCall) : Prop :=
  ∀ first call rest, calls = first ++ call :: rest → Effective call →
    ∀ later ∈ rest, Tolerated later

theorem Undisturbed.tail {first last : List HelperCall} (undisturbed : Undisturbed (first ++ last)) :
    Undisturbed last := by
  rintro early call rest rfl effective
  exact undisturbed (first ++ early) call rest (by simp) effective

theorem Undisturbed.head {first last : List HelperCall} (undisturbed : Undisturbed (first ++ last)) :
    Undisturbed first := by
  rintro early call rest rfl effective later member
  exact undisturbed early call (rest ++ last) (by simp) effective later
    (List.mem_append_left _ member)

theorem Undisturbed.tolerated {first last : List HelperCall}
    (undisturbed : Undisturbed (first ++ last)) (effective : ∃ call ∈ first, Effective call) :
    ∀ later ∈ last, Tolerated later := by
  obtain ⟨call, member, effective⟩ := effective
  obtain ⟨early, late, rfl⟩ := List.append_of_mem member
  intro later inLast
  exact undisturbed early call (late ++ last) (by simp) effective later
    (List.mem_append_right _ inLast)

def Mutated (sha256Hex : List UInt8 → String) (arguments : HelperArguments) (before : PosixTree)
    (target : Handle) (after : PosixTree) : Prop :=
  match arguments.action with
  | "ensure-dir" => ∃ identity, ∀ path, after.node path =
      if path = target then some (.directory identity) else before.node path
  | "remove-file" => (∃ identity bytes, before.node target = some (.file identity (.regular bytes))) ∧
      ∀ path, after.node path = if path = target then none else before.node path
  | "remove-dir" => before.kindAt target = some .directory ∧ before.hasChild target = false ∧
      ∀ path, after.node path = if path = target then none else before.node path
  | "publish" => ∃ digest, arguments.sourceSha256 = some digest ∧
      Published sha256Hex before target digest after
  | _ => False

structure ActsBelow (sha256Hex : List UInt8 → String) (arguments : HelperArguments) (root : Handle)
    (before : HelperState) (after : PosixTree) : Prop where
  relative : splitRelative arguments.relative = .ok (pathNames arguments.relative)
  -- No name on the way to the entry is a symbolic link.
  directories : ∀ count, 0 < count → count < (pathNames arguments.relative).length →
    IsDirectory before (root ++ (pathNames arguments.relative).take count)
  meets : EntryMeets sha256Hex (before.tree.node (root ++ pathNames arguments.relative))
    arguments.expected
  mutated : Mutated sha256Hex arguments before.tree (root ++ pathNames arguments.relative) after

structure AppliesMutation (sha256Hex : List UInt8 → String) (arguments : HelperArguments)
    (before : HelperState) (after : PosixTree) : Prop where
  root : ∃ identity, selectedIdentity arguments.binding = some identity ∧
    statOpen before (reviewedRoot arguments.root) = .ok ⟨identity, .directory⟩
  acts : ActsBelow sha256Hex arguments (reviewedRoot arguments.root) before after

/-- A helper that fails leaves the tree. `unfinished` is no failure: the copy still goes on. -/
def OrLeaves (before after : HelperState) (succeeds : Prop) : Except HelperExit Unit → Prop
  | .ok () => succeeds
  | .error .unfinished => True
  | .error _ => after.tree = before.tree

theorem orLeaves_error {succeeds : Prop} {stop : HelperExit} (same : after.tree = before.tree) :
    OrLeaves before after succeeds (.error stop) := by
  cases stop with
  | unfinished => trivial
  | failed => exact same
  | usage => exact same

theorem target_eq {root : Handle} {names : List String} (filled : names ≠ []) :
    root ++ names.dropLast ++ [lastName names] = root ++ names := by
  rw [List.append_assoc, lastName, List.getLastD_eq_getLast?, List.getLast?_eq_getLast_of_ne_nil
    filled, Option.getD_some, List.dropLast_append_getLast filled]

variable {root parent : Handle} {arguments : HelperArguments} {result : Except HelperExit Unit}

theorem makeDirectoryAt_ok {name : String} {identity : Identity} {amount : Nat} {value : Unit}
    (made : answer sha256Hex identity amount (.makeDirectoryAt parent name) before =
      (.ok value, after)) (path : Handle) :
    after.tree.node path =
      if path = parent ++ [name] then some (.directory identity) else before.tree.node path := by
  simp only [answer] at made
  split at made
  next => cases congrArg Prod.fst made
  next free =>
    obtain ⟨_, done⟩ := changed_ok made
    rw [FileTree.node_of_makeDirectory (by simpa using free) done]
    split_ifs <;> rfl

theorem makeReviewedDirectory_law {name expected : String}
    (ran : (deviceFiles sha256Hex).Attempts (makeReviewedDirectory parent name expected) before
      calls after result) (undisturbed : Undisturbed calls) :
    match result with
    | .error _ => after.tree = before.tree
    | .ok () => EntryMeets sha256Hex (before.tree.node (parent ++ [name])) expected ∧
        (∃ identity, ∀ path, after.tree.node path =
          if path = parent ++ [name] then some (.directory identity) else before.tree.node path) ∧
        (after.tree = before.tree ∨ ∃ call ∈ calls, Effective call) := by
  unfold makeReviewedDirectory at ran
  split at ran
  next absent =>
    rcases attempts_bind.mp ran with ⟨stop, stopped, rfl⟩ | ⟨_, checked, first, _, verified, rest, rfl⟩
    · exact (quiet_verifyEntryPrecondition parent name expected).tree stopped
    have meets := verifyEntryPrecondition_ok verified
    have same := (quiet_verifyEntryPrecondition parent name expected).tree verified
    rcases attempts_bind.mp rest with ⟨stop, stopped, rfl⟩ | ⟨_, made, _, last, makes, syncs, rfl⟩
    · exact (tree_of_orFail_error stopped).trans same
    · obtain ⟨rfl, identity, amount, answered⟩ := orFail_ok makes
      have effective : Effective ⟨.makeDirectoryAt parent name, .ok (), false⟩ := ⟨trivial, (), rfl⟩
      obtain ⟨rfl, rfl⟩ := syncDirectory_done syncs
        (undisturbed.tail.tolerated ⟨_, by simp, effective⟩)
      refine ⟨meets, ⟨identity, fun path => ?_⟩, .inr ⟨_, by simp, effective⟩⟩
      rw [makeDirectoryAt_ok answered, same]
  next present =>
    split at ran
    next isDirectory =>
      have same := (quiet_verifyEntryPrecondition parent name expected).tree ran
      cases result with
      | error => exact same
      | ok =>
          have meets := verifyEntryPrecondition_ok ran
          refine ⟨meets, ?_, .inl same⟩
          obtain ⟨text, isText⟩ := Option.isSome_iff_exists.mp isDirectory
          simp only [EntryMeets, if_neg present, isText] at meets
          obtain ⟨identity, _, held⟩ := meets
          refine ⟨identity, fun path => ?_⟩
          rw [same]
          split
          next target => rw [target, held]
          next => rfl
    next =>
      obtain ⟨_, rfl, rfl⟩ := FaultyWorld.attempts_throw.mp ran
      rfl

theorem openDirectoryAt_made {name action : String} {identity : Identity}
    (held : before.tree.node (parent ++ [name]) = some (.directory identity)) :
    (deviceFiles sha256Hex).Ensures Tolerated (openDirectoryAt parent name action) before
      fun result after => (∃ found, result = .ok found) ∧ after = before := by
  have opens : openDirectory before (parent ++ [name]) = .ok (parent ++ [name]) := by
    simp only [openDirectory, held]
  exact ensures_orFail id fun _ _ => ⟨_, _, congrArg (·, _) opens, ⟨_, rfl⟩, rfl⟩

theorem openTarget {next : List String → Handle → HelperAttempt Unit}
    (ran : (deviceFiles sha256Hex).Attempts (do
      let names ← check (splitRelative arguments.relative)
      let parent ← openRelativeParent root names
      next names parent) before calls after result) :
    (∃ stop, result = .error stop ∧ after.tree = before.tree) ∨
    ∃ opened first last, calls = first ++ last ∧ opened = before ∧
      splitRelative arguments.relative = .ok (pathNames arguments.relative) ∧
      pathNames arguments.relative ≠ [] ∧
      (∀ count, 0 < count → count < (pathNames arguments.relative).length →
        IsDirectory before (root ++ (pathNames arguments.relative).take count)) ∧
      (deviceFiles sha256Hex).Attempts (next (pathNames arguments.relative)
        (root ++ (pathNames arguments.relative).dropLast)) opened last after result := by
  rcases attempts_bind.mp ran with ⟨stop, stopped, rfl⟩ | ⟨names, _, _, _, splits, rest, rfl⟩
  · exact .inl ⟨stop, rfl, (quiet_check _).tree stopped⟩
  obtain ⟨rfl, rfl, valid⟩ := attempts_check.mp splits
  rcases attempts_bind.mp rest with ⟨stop, stopped, rfl⟩ | ⟨_, _, first, last, opens, acts, rfl⟩
  · exact .inl ⟨stop, rfl, (quiet_openRelativeParent root names).tree stopped⟩
  obtain ⟨rfl, filled⟩ := splitRelative_ok valid.symm
  obtain ⟨rfl, rfl, directories⟩ := openRelativeParent_ok opens filled
  exact .inr ⟨_, first, last, rfl, rfl, valid.symm, filled, directories, acts⟩

theorem ensureDirectory_law (isAction : arguments.action = "ensure-dir")
    (ran : (deviceFiles sha256Hex).Attempts
      (ensureDirectory root arguments.relative arguments.expected) before calls after result)
    (undisturbed : Undisturbed calls) :
    OrLeaves before after (ActsBelow sha256Hex arguments root before after.tree) result := by
  rcases openTarget ran with ⟨stop, rfl, same⟩ | ⟨_, first, last, rfl, rfl, valid, filled, directories, acts⟩
  · exact orLeaves_error same
  rcases attempts_bind.mp acts with ⟨stop, stopped, rfl⟩ | ⟨_, middle, early, late, makes, opens, rfl⟩
  · exact orLeaves_error (makeReviewedDirectory_law stopped undisturbed.tail)
  obtain ⟨meets, ⟨identity, nodes⟩, disturbed⟩ :=
    makeReviewedDirectory_law makes undisturbed.tail.head
  rw [target_eq filled] at meets nodes
  have acted : ActsBelow sha256Hex arguments root _ middle.tree :=
    ⟨valid, directories, meets, by rw [Mutated, isAction]; exact ⟨identity, nodes⟩⟩
  rcases attempts_bind.mp opens with ⟨stop, stopped, rfl⟩ | ⟨_, _, _, _, opened, done, rfl⟩
  · rcases disturbed with same | effective
    · exact orLeaves_error (((quiet_orFail id).tree stopped).trans same)
    · have held : middle.tree.node (root ++ (pathNames arguments.relative).dropLast ++
          [lastName (pathNames arguments.relative)]) = some (.directory identity) := by
        rw [target_eq filled, nodes, if_pos rfl]
      have finished := openDirectoryAt_made held _ _ _ stopped
        (undisturbed.tail.tolerated effective)
      exact nomatch finished.1.choose_spec
  · obtain ⟨_, rfl, rfl⟩ := attempts_pure.mp done
    obtain ⟨rfl, _⟩ := openDirectoryAt_ok opened
    exact acted

theorem unlinkAt_ok {name : String} {identity : Identity} {amount : Nat} {value : Unit}
    {directory : Bool}
    (unlinked : answer sha256Hex identity amount (.unlinkAt parent name directory) before =
      (.ok value, after)) :
    (directory = true → before.tree.hasChild (parent ++ [name]) = false) ∧ ∀ path,
      after.tree.node path = if path = parent ++ [name] then none else before.tree.node path := by
  obtain ⟨_, done⟩ := changed_ok unlinked
  unfold unlinkPath at done
  split at done
  next =>
    obtain ⟨childless, nodes⟩ := FileTree.node_of_removeDirectory done
    exact ⟨fun _ => childless, fun path => (nodes path).trans (by split_ifs <;> rfl)⟩
  next isFile =>
    refine ⟨fun isDirectory => absurd isDirectory isFile, fun path => ?_⟩
    rw [FileTree.node_of_unlinkFile done]
    split_ifs <;> rfl

def Removable (tree : PosixTree) (target : Handle) (directory : Bool) : Prop :=
  if directory then tree.kindAt target = some .directory ∧ tree.hasChild target = false
  else ∃ identity bytes, tree.node target = some (.file identity (.regular bytes))

theorem removeEntry_law {directory : Bool}
    (isAction : ∀ tree target after, Mutated sha256Hex arguments tree target after ↔
      Removable tree target directory ∧
        ∀ path, after.node path = if path = target then none else tree.node path)
    (ran : (deviceFiles sha256Hex).Attempts
      (removeEntry root arguments.relative directory arguments.expected) before calls after result)
    (undisturbed : Undisturbed calls) :
    OrLeaves before after (ActsBelow sha256Hex arguments root before after.tree) result := by
  rcases openTarget ran with ⟨stop, rfl, same⟩ | ⟨_, first, last, rfl, rfl, valid, filled, directories, acts⟩
  · exact orLeaves_error same
  rcases attempts_bind.mp acts with ⟨stop, stopped, rfl⟩ | ⟨status, _, _, _, inspects, acts₂, rfl⟩
  · exact orLeaves_error ((quiet_orFail id).tree stopped)
  obtain ⟨rfl, node, held, rfl⟩ := statAt_ok inspects
  rcases attempts_bind.mp acts₂ with ⟨stop, stopped, rfl⟩ | ⟨_, _, _, _, kinds, acts₃, rfl⟩
  · exact orLeaves_error ((quiet_demand _ _).tree stopped)
  obtain ⟨_, rfl, kind⟩ := demand_ok kinds
  rcases attempts_bind.mp acts₃ with ⟨stop, stopped, rfl⟩ | ⟨_, checked, _, _, verifies, acts₄, rfl⟩
  · exact orLeaves_error ((quiet_verifyEntryPrecondition _ _ _).tree stopped)
  have meets := verifyEntryPrecondition_ok verifies
  have same := (quiet_verifyEntryPrecondition _ _ _).tree verifies
  rcases attempts_bind.mp acts₄ with ⟨stop, stopped, rfl⟩ | ⟨_, removed, _, _, removes, syncs, rfl⟩
  · exact orLeaves_error ((tree_of_orFail_error stopped).trans same)
  obtain ⟨rfl, identity, amount, unlinked⟩ := orFail_ok removes
  obtain ⟨childless, nodes⟩ := unlinkAt_ok unlinked
  have effective : Effective ⟨.unlinkAt (root ++ (pathNames arguments.relative).dropLast)
    (lastName (pathNames arguments.relative)) directory, .ok (), false⟩ := ⟨trivial, (), rfl⟩
  obtain ⟨rfl, rfl⟩ := syncDirectory_done syncs
    (undisturbed.tail.tail.tail.tail.tolerated ⟨_, by simp, effective⟩)
  rw [target_eq filled] at meets held nodes childless
  rw [same] at nodes childless
  refine ⟨valid, directories, meets, (isAction _ _ _).mpr ⟨?_, nodes⟩⟩
  unfold Removable
  split at kind
  next isDirectory =>
    rw [if_pos isDirectory, FileTree.kindAt, held, directory_of_kind kind]
    exact ⟨rfl, childless isDirectory⟩
  next isFile =>
    rw [if_neg isFile, held]
    obtain ⟨bytes, regular⟩ := regular_of_kind kind
    exact ⟨_, bytes, congrArg some regular⟩

theorem createTemporary_law {process : Nat} {attempts : List Nat} {made : Except HelperExit String}
    (ran : (deviceFiles sha256Hex).Attempts (createTemporary process parent attempts) before calls
      after made) :
    match made with
    | .error _ => after.tree = before.tree
    | .ok name => OnlyTemporary before (parent ++ [name]) after ∧
        ∃ handle, (⟨.createFileAt parent name, .ok handle, false⟩ : HelperCall) ∈ calls := by
  induction attempts generalizing before calls with
  | nil =>
      obtain ⟨_, rfl, rfl⟩ := FaultyWorld.attempts_throw.mp ran
      rfl
  | cons attempt rest ih =>
      rcases attempts_bind.mp ran with ⟨stop, stopped, rfl⟩ | ⟨response, middle, _, _, asks, goes, rfl⟩
      · obtain ⟨_, _, impossible⟩ := FaultyWorld.attempts_lift.mp stopped
        exact nomatch impossible
      obtain ⟨_, asked, same⟩ := FaultyWorld.attempts_lift.mp asks
      obtain rfl := Except.ok.inj same
      obtain ⟨failed, rfl, answers⟩ := runs_issue.mp asked
      cases response with
      | ok handle =>
          obtain ⟨rfl, identity, amount, answered⟩ := answers_ok answers
          obtain ⟨_, rfl, rfl⟩ := attempts_pure.mp goes
          exact ⟨(createFileAt_ok answered).2, handle, by simp⟩
      | error error =>
          have unchanged := tree_of_error answers
          split at goes
          next impossible => exact nomatch impossible
          next =>
            have later := ih goes
            cases made with
            | error => exact later.trans unchanged
            | ok name =>
                obtain ⟨only, handle, member⟩ := later
                refine ⟨⟨unchanged ▸ only.absent, only.file, unchanged ▸ only.others⟩, handle, ?_⟩
                exact List.mem_append_right _ member
          next =>
            obtain ⟨_, rfl, rfl⟩ := FaultyWorld.attempts_throw.mp goes
            exact unchanged

/-- Where the helper creates its temporary file, it is another name than the one that is reviewed,
and the reviewed entry is as it was. -/
def Admitted (sha256Hex : List UInt8 → String) (arguments : HelperArguments) (root : Handle)
    (before : HelperState) (calls : List HelperCall) : Prop :=
  ∀ parent name handle, (⟨.createFileAt parent name, .ok handle, false⟩ : HelperCall) ∈ calls →
    name ≠ lastName (pathNames arguments.relative) ∧
      EntryMeets sha256Hex (before.tree.node (root ++ pathNames arguments.relative))
        arguments.expected

theorem ensures_publishCreated {fuel : Nat} {created : HelperState} {source : Handle}
    {temporary name expected digest : String}
    (only : OnlyTemporary before (parent ++ [temporary]) created) (different : temporary ≠ name)
    (meets : EntryMeets sha256Hex (before.tree.node (parent ++ [name])) expected) :
    (deviceFiles sha256Hex).Ensures Tolerated (do
      let published ← fillTemporary fuel source (parent ++ [temporary])
      if published = digest then publishTemporary parent temporary name expected
      else discard parent temporary "staged file digest mismatch") created
      fun result after => OrLeaves before after
        (Published sha256Hex before.tree (parent ++ [name]) digest after.tree) result := by
  refine ensures_bind <| (ensures_fillTemporary source fuel only).mono ?_
  rintro (stop | published) filled ⟨kept, holds⟩
  · obtain rfl : stop = .unfinished := holds
    trivial
  obtain ⟨identity, bytes, held, content⟩ := holds
  dsimp only
  split
  next same =>
    refine (ensures_publishTemporary kept held (content.trans same) different meets).mono ?_
    rintro (stop | _) after outcome
    · exact orLeaves_error outcome
    · exact outcome
  next =>
    refine (ensures_discard kept).mono ?_
    rintro _ after ⟨restored, rfl⟩
    exact restored

theorem publishFile_law {fuel process : Nat} {digest : String}
    (isAction : arguments.action = "publish") (isDigest : arguments.sourceSha256 = some digest)
    (ran : (deviceFiles sha256Hex).Attempts (publishFile fuel process root arguments.stageRoot
      arguments.relative arguments.expected digest) before calls after result)
    (undisturbed : Undisturbed calls)
    (admitted : Admitted sha256Hex arguments root before calls) :
    OrLeaves before after (ActsBelow sha256Hex arguments root before after.tree) result := by
  rcases attempts_bind.mp ran with ⟨stop, stopped, rfl⟩ | ⟨names, start, _, _, splits, acts, rfl⟩
  · exact orLeaves_error ((quiet_check _).tree stopped)
  obtain ⟨rfl, rfl, valid⟩ := attempts_check.mp splits
  obtain ⟨rfl, filled⟩ := splitRelative_ok valid.symm
  rcases attempts_bind.mp acts with ⟨stop, stopped, rfl⟩ | ⟨source, _, _, _, stages, acts₂, rfl⟩
  · exact orLeaves_error ((quiet_openStaged _ _ _).tree stopped)
  have same := (quiet_openStaged _ _ _).tree stages
  rcases attempts_bind.mp acts₂ with ⟨stop, stopped, rfl⟩ | ⟨_, opened, _, _, opens, acts₃, rfl⟩
  · exact orLeaves_error (((quiet_openRelativeParent _ _).tree stopped).trans same)
  obtain ⟨rfl, rfl, directories⟩ := openRelativeParent_ok opens filled
  rcases attempts_bind.mp acts₃ with ⟨stop, stopped, rfl⟩ | ⟨temporary, created, _, _, creates, acts₄, rfl⟩
  · exact orLeaves_error ((createTemporary_law stopped).trans same)
  obtain ⟨only, handle, member⟩ := createTemporary_law creates
  obtain ⟨different, meets⟩ := admitted _ temporary handle (List.mem_append_right _
    (List.mem_append_right _ (List.mem_append_right _ (List.mem_append_left _ member))))
  have tolerated := undisturbed.tail.tail.tail.tolerated ⟨_, member, trivial, handle, rfl⟩
  have kept : OnlyTemporary start _ created :=
    ⟨same ▸ only.absent, only.file, same ▸ only.others⟩
  rw [← target_eq filled] at meets
  have outcome := ensures_publishCreated kept different meets _ _ _ acts₄ tolerated
  cases result with
  | error stop => cases stop <;> exact outcome
  | ok =>
      rw [target_eq filled] at meets
      have published : Published sha256Hex start.tree _ digest after.tree := outcome
      rw [target_eq filled] at published
      refine ⟨valid.symm, fun count positive bounded => ?_, meets, ?_⟩
      · simpa only [IsDirectory, same] using directories count positive bounded
      · rw [Mutated, isAction]
        exact ⟨digest, isDigest, published⟩

theorem ActsBelow.of_tree {start : HelperState} {tree : PosixTree} (same : start.tree = before.tree)
    (acts : ActsBelow sha256Hex arguments root start tree) :
    ActsBelow sha256Hex arguments root before tree := by
  obtain ⟨relative, directories, meets, mutated⟩ := acts
  simp only [IsDirectory, same] at directories meets mutated
  exact ⟨relative, directories, meets, mutated⟩

theorem OrLeaves.of_tree {start : HelperState} {succeeds : Prop} (same : start.tree = before.tree)
    (outcome : OrLeaves start after succeeds result) : OrLeaves before after succeeds result := by
  rcases result with stop | _
  · cases stop with
    | unfinished => trivial
    | failed | usage => exact Eq.trans outcome same
  · exact outcome

theorem OrLeaves.mono {succeeds wider : Prop} (outcome : OrLeaves before after succeeds result)
    (widens : succeeds → wider) : OrLeaves before after wider result := by
  rcases result with stop | _
  · cases stop <;> exact outcome
  · exact widens outcome

theorem performAction_law {fuel process : Nat}
    (digests : arguments.sourceSha256.isSome = decide (arguments.action = "publish"))
    (ran : (deviceFiles sha256Hex).Attempts (performAction fuel process arguments root) before
      calls after result)
    (undisturbed : Undisturbed calls)
    (admitted : Admitted sha256Hex arguments root before calls) :
    OrLeaves before after (ActsBelow sha256Hex arguments root before after.tree) result := by
  unfold performAction at ran
  split at ran
  next isAction => exact ensureDirectory_law isAction ran undisturbed
  next isAction =>
    exact removeEntry_law (fun _ _ _ => by simp [Mutated, isAction, Removable]) ran undisturbed
  next isAction =>
    exact removeEntry_law (fun _ _ _ => by simp [Mutated, isAction, Removable, and_assoc]) ran
      undisturbed
  next isAction =>
    rw [isAction, decide_eq_true rfl, Option.isSome_iff_exists] at digests
    obtain ⟨digest, isDigest⟩ := digests
    rw [isDigest, Option.getD_some] at ran
    exact publishFile_law isAction isDigest ran undisturbed admitted
  next =>
    obtain ⟨_, rfl, rfl⟩ := FaultyWorld.attempts_throw.mp ran
    rfl

end

section

variable {arguments : HelperArguments} {result : Except HelperExit Unit}

theorem Quiet.statOpen {α : Type} {attempt : HelperAttempt α} {found : Except HelperExit α}
    (quiet : Quiet attempt)
    (ran : (deviceFiles sha256Hex).Attempts attempt before calls after found) (handle : Handle) :
    statOpen after handle = statOpen before handle := by
  have tree := quiet.tree ran
  have root : after.rootIdentity = before.rootIdentity :=
    FaultyWorld.keeps_of_only (fun _ _ _ _ allowed worked => (kept_of_quiet allowed worked).2)
      quiet ran
  simp only [Helper.statOpen, statPath, tree, root]

theorem statOpen_directory {handle : Handle} {status : Stat}
    (directory : handle ≠ [] → IsDirectory before handle)
    (found : statOpen before handle = .ok status) : status.kind = .directory := by
  unfold statOpen at found
  split at found
  next => exact (Except.ok.inj found) ▸ rfl
  next named =>
    obtain ⟨node, held, kind⟩ := Option.map_eq_some_iff.mp (directory named)
    simp only [statPath, held] at found
    obtain rfl := Except.ok.inj found
    cases node with
    | directory => rfl
    | file => cases kind

theorem verifySelectedIdentity_ok {root : Handle} {binding : String}
    (directory : root ≠ [] → IsDirectory before root)
    (ran : (deviceFiles sha256Hex).Attempts (verifySelectedIdentity root binding) before calls after
      (.ok ())) :
    ∃ identity, selectedIdentity binding = some identity ∧
      statOpen before root = .ok ⟨identity, .directory⟩ := by
  obtain ⟨expected, _, _, _, parses, inspects, rfl⟩ := attempts_bind_finished.mp ran
  obtain ⟨rfl, parsed⟩ := found_of_check parses
  obtain ⟨actual, _, _, _, looks, compares, rfl⟩ := attempts_bind_finished.mp inspects
  obtain ⟨rfl, found⟩ := statHandle_ok looks
  obtain ⟨_, _, rfl⟩ := demand_ok compares
  refine ⟨_, parsed, found.trans (congrArg Except.ok ?_)⟩
  have kind := statOpen_directory directory found
  cases actual
  simp_all

/-- In every run in which no call fails after the first effective one, but for the failures that
are made good, and no temporary file is created for an entry that is not as reviewed, the helper
succeeds only with the reviewed mutation and fails only with the tree as it was. -/
theorem appliesMutation_or_leaves {fuel process : Nat}
    (ran : (deviceFiles sha256Hex).Attempts (runHelper fuel process arguments) before calls after
      result)
    (undisturbed : Undisturbed calls)
    (admitted : Admitted sha256Hex arguments (reviewedRoot arguments.root) before calls) :
    OrLeaves before after (AppliesMutation sha256Hex arguments before after.tree) result := by
  rcases attempts_bind.mp ran with ⟨stop, stopped, rfl⟩ | ⟨_, start, _, _, usage, opens, rfl⟩
  · exact orLeaves_error ((quiet_check _).tree stopped)
  obtain ⟨rfl, rfl, isUsed⟩ := attempts_check.mp usage
  have digests : arguments.sourceSha256.isSome = decide (arguments.action = "publish") := by
    by_contra misused
    simp [misused] at isUsed
  rcases attempts_bind.mp opens with ⟨stop, stopped, rfl⟩ | ⟨root, opened, _, _, found, checks, rfl⟩
  · exact orLeaves_error ((quiet_openReviewedSelectedRoot _ _).tree stopped)
  have sameOpened := (quiet_openReviewedSelectedRoot _ _).tree found
  have statOpened := (quiet_openReviewedSelectedRoot _ _).statOpen found
  obtain ⟨rfl, directory⟩ := openReviewedSelectedRoot_ok found
  rcases attempts_bind.mp checks with ⟨stop, stopped, rfl⟩ | ⟨_, checked, _, _, identifies, acts, rfl⟩
  · exact orLeaves_error (((quiet_verifySelectedIdentity _ _).tree stopped).trans sameOpened)
  have same := ((quiet_verifySelectedIdentity _ _).tree identifies).trans sameOpened
  obtain ⟨identity, parsed, stat⟩ := verifySelectedIdentity_ok
    (fun named => by rw [IsDirectory, sameOpened]; exact directory named) identifies
  have outcome := performAction_law digests acts undisturbed.tail.tail.tail
    (fun parent name handle member => by
      rw [same]
      exact admitted parent name handle (List.mem_append_right _ (List.mem_append_right _
        (List.mem_append_right _ member))))
  refine (outcome.of_tree same).mono fun acted => ⟨⟨identity, parsed, ?_⟩, acted.of_tree same⟩
  rw [← stat, statOpened]

def sampleSha256 (bytes : List UInt8) : String :=
  if bytes = [1, 2, 3] then "039058c6f2c0cb492c533b0a4d14ef77cc0f78abccced5287d84a1a2011cfb81" else ""

def stagedTree : PosixTree :=
  (((⟨∅, by simp, by simp⟩ : PosixTree).put ["data"] (.directory ⟨1, 2⟩) (by decide) (by decide)
    (by decide)).put ["stage"] (.directory ⟨1, 3⟩) (by decide) (by decide) (by decide)).put
      ["stage", "a"] (.file ⟨1, 4⟩ (.regular [1, 2, 3])) (by decide) (by decide) (by decide)

def stagedState : HelperState := ⟨stagedTree, ⟨1, 1⟩, fun _ => 0⟩

def publishSample : HelperArguments where
  root := "/data"
  binding := "/data|selected:1:2"
  stageRoot := "/stage"
  action := "publish"
  relative := "a"
  expected := "absent"
  sourceSha256 := some (sampleSha256 [1, 2, 3])

def sampleHandler : Program.Handler HelperOp HelperOp.Response HelperState :=
  fun operation state => answer sampleSha256 ⟨1, 9⟩ 0 operation state

theorem runs_sample (arguments : HelperArguments) (state : HelperState) :
    (deviceFiles sampleSha256).Attempts (runHelper 9 7 arguments) state
      ((Program.trace sampleHandler (runHelper 9 7 arguments).run state).map fun event =>
        ⟨event.operation, event.response, false⟩)
      (Program.run sampleHandler (runHelper 9 7 arguments).run state).2
      (Program.run sampleHandler (runHelper 9 7 arguments).run state).1 :=
  have sound (state : HelperState) (operation : HelperOp) : (deviceFiles sampleSha256).works state
      operation (sampleHandler operation state).1 (sampleHandler operation state).2 := ⟨_, _, rfl⟩
  FaultyWorld.runs_run sound _ state

theorem unfailed_map (events : List (Event HelperOp HelperOp.Response)) :
    Unfailed (events.map fun event => ⟨event.operation, event.response, false⟩) := by
  intro call member
  obtain ⟨event, _, rfl⟩ := List.mem_map.mp member
  rfl

theorem undisturbed_of_unfailed (unfailed : Unfailed calls) : Undisturbed calls := by
  rintro first call rest rfl _ ⟨operation, response, failed⟩ member
  obtain rfl : failed = false :=
    unfailed _ (List.mem_append_right _ (List.mem_cons_of_mem _ member))
  exact .worked

def createdName : HelperOp → Option String
  | .createFileAt _ name => some name
  | _ => none

theorem appliesMutation_or_leaves_sample :
    ∃ calls after, (deviceFiles sampleSha256).Attempts (runHelper 9 7 publishSample) stagedState
        calls after (.ok ()) ∧
      after.tree.node ["data", "a"] = some (.file ⟨1, 9⟩ (.regular [1, 2, 3])) ∧
      AppliesMutation sampleSha256 publishSample stagedState after.tree := by
  have succeeds :
      (Program.run sampleHandler (runHelper 9 7 publishSample).run stagedState).1 = .ok () := by
    decide +kernel
  have ran := runs_sample publishSample stagedState
  rw [succeeds] at ran
  refine ⟨_, _, ran, by decide +kernel,
    appliesMutation_or_leaves ran (undisturbed_of_unfailed (unfailed_map _)) ?_⟩
  intro parent name handle member
  obtain ⟨event, traced, same⟩ := List.mem_map.mp member
  have created : createdName event.operation = some name :=
    congrArg (fun call => createdName call.operation) same
  have other : ∀ event ∈ Program.trace sampleHandler (runHelper 9 7 publishSample).run stagedState,
      createdName event.operation ≠ some (lastName (pathNames publishSample.relative)) := by
    decide +kernel
  refine ⟨?_, ?_⟩
  · rintro rfl
    exact other event traced created
  · exact (if_pos rfl).mpr (by decide +kernel)

def occupiedState : HelperState :=
  { stagedState with
    tree := stagedTree.put ["data", "a"] (.file ⟨1, 5⟩ (.regular [])) (by decide) (by decide +kernel)
      (by decide +kernel) }

/-- No call fails, and the helper still leaves its temporary file behind. -/
theorem not_appliesMutation_or_leaves :
    ∃ calls after, (deviceFiles sampleSha256).Attempts (runHelper 9 7 publishSample) occupiedState
        calls after (.error (.failed staleAction)) ∧ Unfailed calls ∧
      after.tree.node ["data", ".emuchef-copy-7-0"] = some (.file ⟨1, 9⟩ (.regular [1, 2, 3])) ∧
      ¬OrLeaves occupiedState after (AppliesMutation sampleSha256 publishSample occupiedState
        after.tree) (.error (.failed staleAction)) := by
  have fails : (Program.run sampleHandler (runHelper 9 7 publishSample).run occupiedState).1 =
      .error (.failed staleAction) := by
    decide +kernel
  have leftBehind : (Program.run sampleHandler (runHelper 9 7 publishSample).run
      occupiedState).2.tree.node ["data", ".emuchef-copy-7-0"] =
        some (.file ⟨1, 9⟩ (.regular [1, 2, 3])) := by
    decide +kernel
  have absent : occupiedState.tree.node ["data", ".emuchef-copy-7-0"] = none := by
    decide +kernel
  have ran := runs_sample publishSample occupiedState
  rw [fails] at ran
  refine ⟨_, _, ran, unfailed_map _, leftBehind, fun same => ?_⟩
  have same : (Program.run sampleHandler (runHelper 9 7 publishSample).run
    occupiedState).2.tree = occupiedState.tree := same
  rw [same, absent] at leftBehind
  exact nomatch leftBehind

end

end EmuChef.Helper
