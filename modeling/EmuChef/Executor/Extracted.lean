import EmuChef.Executor.ExtractionLaw

/-! An extraction leaves the declared directories and files, each file with its own bytes, and
nothing else. -/

namespace EmuChef.Executor

open Program (attempt Attempts)

/-! One entry. -/

section

variable {text : HostText} {view : HostView} {tree before after start : HostTree}
  {destDir : UnixPath} {place : Location} {item : ExtractionEntry}

/-- The paths that an entry makes directories of: those above it, and its own if it is one. -/
def Carries (item : ExtractionEntry) (upper : List String) : Prop :=
  upper ≠ [] ∧ upper <+: relativeOf item ∧ (item.isDir = false → upper ≠ relativeOf item)

/-- The entry is in its place beneath the destination, and only the way there has changed. -/
structure Written (place : Location) (item : ExtractionEntry) (before after : HostTree) : Prop where
  carried : ∀ upper, Carries item upper → after.node (place ++ upper) = some (.directory ())
  content : item.isDir = false →
    after.node (place ++ relativeOf item) = some (.file () (.regular item.entry.chunks.flatten))
  kept : ∀ other, (∀ upper, upper ≠ [] → upper <+: relativeOf item → other ≠ place ++ upper) →
    after.node other = before.node other

structure Open (place : Location) (item : ExtractionEntry) (tree : HostTree) : Prop where
  way : ∀ upper, Carries item upper →
    tree.node (place ++ upper) = none ∨ tree.node (place ++ upper) = some (.directory ())
  fresh : item.isDir = false → tree.node (place ++ relativeOf item) = none

theorem Written.grows (written : Written place item before after)
    (clear : Open place item before) : LinkTree.Grows before after := by
  have here : ∀ other, (∃ upper, Carries item upper ∧ other = place ++ upper) ∨
      (item.isDir = false ∧ other = place ++ relativeOf item) ∨
      after.node other = before.node other := by
    intro other
    by_cases inside : ∃ upper, upper ≠ [] ∧ upper <+: relativeOf item ∧ other = place ++ upper
    · obtain ⟨upper, filled, leads, same⟩ := inside
      by_cases whole : item.isDir = false ∧ upper = relativeOf item
      · exact .inr (.inl ⟨whole.1, whole.2 ▸ same⟩)
      · exact .inl ⟨upper, ⟨filled, leads, fun isFile same => whole ⟨isFile, same⟩⟩, same⟩
    · exact .inr (.inr (written.kept other fun upper filled leads same =>
        inside ⟨upper, filled, leads, same⟩))
  refine ⟨fun other directory => ?_, fun other => ?_⟩
  · rcases here other with ⟨upper, carries, rfl⟩ | ⟨isFile, rfl⟩ | same
    · rw [FileTree.kindAt, written.carried upper carries]
      rfl
    · rw [FileTree.kindAt, clear.fresh isFile] at directory
      cases directory
    · rwa [FileTree.kindAt, same]
  · rcases here other with ⟨upper, carries, rfl⟩ | ⟨isFile, rfl⟩ | same
    · rw [LinkTree.linkAt, LinkTree.linkAt, written.carried upper carries]
      rcases clear.way upper carries with none | directory
      · rw [none]
      · rw [directory]
    · rw [LinkTree.linkAt, LinkTree.linkAt, written.content isFile, clear.fresh isFile]
    · rw [LinkTree.linkAt, LinkTree.linkAt, same]

theorem rejectSymlinkAncestor_ok (entered : view.enter tree destDir = .ok place)
    (plain : destDir.Plain) (real : isSymlink view tree destDir = false)
    (clear : Unlinked tree place) (relative : List String) :
    attempt (hostFiles view) (rejectSymlinkAncestor text destDir (destDir.join relative)) tree =
      (.ok (), tree) := by
  have normal := plain.normalize
  have down : (destDir.join relative).normalize = destDir.join relative := by
    rw [UnixPath.normalize_join, normal]
  have inside : (destDir.join relative).startsWith destDir = true :=
    UnixPath.startsWith_join destDir relative
  have count : (destDir.join relative).steps.length - destDir.steps.length = relative.length := by
    simp [UnixPath.join]
  rw [rejectSymlinkAncestor, Program.attempt_bind_ok (rejectExistingSymlink_ok real)]
  simp only [normal, down, count]
  rw [Checks.require_eq_ok.mpr inside]
  obtain ⟨final, ran, rfl⟩ := @Program.attempt_forM_ok _ _ _ _ _ (hostFiles view)
    (fun below => rejectExistingSymlink text
      ((destDir.join relative).upTo (destDir.steps.length + below + 1)))
    (List.range relative.length) tree (fun _ state => state = tree) rfl
    (fun passed below rest state split same => by
      obtain ⟨rfl, short⟩ := range_split split
      refine ⟨tree, ?_, rfl⟩
      rw [same, Nat.add_assoc, upTo_join_right]
      refine rejectExistingSymlink_ok (isSymlink_beneath entered clear ?_)
      rw [ne_eq, List.take_eq_nil_iff]
      rintro (none | empty)
      · omega
      · rw [empty] at short
        simp at short)
  exact ran

theorem isSymlink_located (located : view.locate tree destDir = .ok place)
    (real : tree.linkAt place = none) : isSymlink view tree destDir = false := by
  rw [isSymlink, located]
  dsimp only
  rw [real]
  rfl

structure Ready (view : HostView) (tree : HostTree) (destDir : UnixPath) (place : Location) :
    Prop where
  plain : destDir.Plain
  located : view.locate tree destDir = .ok place
  directory : tree.directoryAt place = true
  unlinked : Unlinked tree place

theorem writeEntry_ok (ready : Ready view tree destDir place) (declared : DeclaredItem destDir item)
    (complete : item.entry.failure = none) (clear : Open place item tree) :
    ∃ next, attempt (hostFiles view) (writeEntry text destDir item) tree = (.ok (), next) ∧
      Written place item tree next := by
  have entered : view.enter tree destDir = .ok place :=
    LinkTree.enter_of_locate ready.located ready.directory
  have target : item.target = destDir.join (relativeOf item) := by
    rw [declared.target, ready.plain.normalize]
  have filled := declared.proper.1
  have ancestors := @rejectSymlinkAncestor_ok text view tree destDir place entered ready.plain
    (isSymlink_located ready.located (linkAt_directory ready.directory)) ready.unlinked (relativeOf item)
  have kind : (item.isDir || endsWithSlash item.entry.name) = item.isDir := by
    rw [declared.isDir, entryIsDir, Bool.or_assoc, Bool.or_self]
  rw [writeEntry, target, Program.attempt_bind_ok ancestors, Program.attempt_bind_ok
    (rejectExistingSymlink_ok (isSymlink_beneath entered ready.unlinked filled)), kind]
  cases isDir : item.isDir with
  | true =>
      rw [if_pos rfl]
      have carries : ∀ upper, upper ≠ [] → upper <+: relativeOf item → Carries item upper :=
        fun upper some leads => ⟨some, leads, by simp [isDir]⟩
      obtain ⟨next, ran, made⟩ := @createDirAll_beneath text view tree destDir place
        (relativeOf item) entered ready.directory
        fun upper some leads => clear.way upper (carries upper some leads)
      exact ⟨next, ran, fun upper carried => made.made upper carried.1 carried.2.1,
        by simp [isDir], made.kept⟩
  | false =>
      rw [if_neg (by simp)]
      obtain ⟨init, name, split⟩ : ∃ init name, relativeOf item = init ++ [name] :=
        ⟨_, _, (List.dropLast_append_getLast filled).symm⟩
      have carries : ∀ upper, upper ≠ [] → upper <+: init → Carries item upper :=
        fun upper some leads => ⟨some, split ▸ leads.trans (List.prefix_append _ _), fun _ same => by
          have shorter := leads.length_le
          rw [same, split, List.length_append, List.length_singleton] at shorter
          omega⟩
      have above : (destDir.join (relativeOf item)).upTo
          ((destDir.join (relativeOf item)).steps.length - 1) = destDir.join init := by
        rw [split]
        simp [UnixPath.upTo, UnixPath.join, ← List.append_assoc]
      obtain ⟨middle, made, way⟩ := @createDirAll_beneath text view tree destDir place init
        entered ready.directory fun upper some leads => clear.way upper (carries upper some leads)
      have grows := way.grows fun upper some leads => clear.way upper (carries upper some leads)
      have absent : middle.node (place ++ (init ++ [name])) = none := by
        rw [way.kept, ← split, clear.fresh isDir]
        intro upper _ leads same
        have shorter := leads.length_le
        rw [List.append_cancel_left same.symm, List.length_append, List.length_singleton] at shorter
        omega
      obtain ⟨created, opened, empty⟩ := @createFile_beneath view middle destDir place init name
        (grows.enter entered) (grows.directoryAt ready.directory) way.made absent
      obtain ⟨next, copied, holds⟩ := @copyEntry_ok text view created _ item.entry complete
        empty.content
      refine ⟨next, ?_, fun upper carried => ?_, fun _ => ?_, fun other apart => ?_⟩
      · rw [above, Program.attempt_bind_ok made, split,
          Program.attempt_bind_ok (attempt_orStop opened)]
        exact copied
      · have different : place ++ upper ≠ place ++ (init ++ [name]) := fun same =>
          carried.2.2 isDir (split ▸ List.append_cancel_left same)
        rw [holds.others _ different, empty.others _ different]
        refine way.made upper carried.1 ?_
        rcases List.prefix_concat_iff.mp (split ▸ carried.2.1) with whole | shorter
        · exact absurd (whole.trans split.symm) (carried.2.2 isDir)
        · exact shorter
      · rw [split]
        exact holds.content
      · have different : other ≠ place ++ (init ++ [name]) :=
          split ▸ apart _ filled List.prefix_rfl
        rw [holds.others _ different, empty.others _ different]
        exact way.kept other fun upper some leads =>
          apart upper some (split ▸ leads.trans (List.prefix_append _ _))

end

/-! All entries. -/

section

variable {text : HostText} {view : HostView} {tree before after start : HostTree}
  {destDir : UnixPath} {place : Location} {item : ExtractionEntry}
  {done rest entries : List ExtractionEntry}

/-- The destination after some of the entries: what they carry and their files, and no more. -/
structure Extracted (place : Location) (start : HostTree) (done : List ExtractionEntry)
    (tree : HostTree) : Prop where
  carried : ∀ item ∈ done, ∀ upper, Carries item upper →
    tree.node (place ++ upper) = some (.directory ())
  files : ∀ item ∈ done, item.isDir = false →
    tree.node (place ++ relativeOf item) = some (.file () (.regular item.entry.chunks.flatten))
  known : ∀ below node, below ≠ [] → tree.node (place ++ below) = some node →
    (∃ item ∈ done, Carries item below ∧ node = .directory ()) ∨
    ∃ item ∈ done, item.isDir = false ∧ relativeOf item = below ∧
      node = .file () (.regular item.entry.chunks.flatten)
  outside : ∀ other, (∀ below, below ≠ [] → other ≠ place ++ below) →
    tree.node other = start.node other

theorem DeclaredEntries.apart (declared : DeclaredEntries destDir (done ++ item :: rest))
    {other : ExtractionEntry} (member : other ∈ done) :
    (other.isDir = false → ¬relativeOf other <+: relativeOf item) ∧
      (item.isDir = false → ¬relativeOf item <+: relativeOf other) := by
  have different : relativeOf other ≠ relativeOf item := by
    have distinct := declared.distinct
    rw [List.map_append, List.map_cons, List.nodup_append] at distinct
    exact distinct.2.2 _ (List.mem_map_of_mem member) _ List.mem_cons_self
  have before : other ∈ done ++ item :: rest := List.mem_append_left _ member
  have here : item ∈ done ++ item :: rest := by simp
  constructor
  · rintro isFile ⟨more, leads⟩
    have some : more ≠ [] := by
      rintro rfl
      exact different (by simpa using leads)
    exact declared.clear other before isFile item here more some leads.symm
  · rintro isFile ⟨more, leads⟩
    have some : more ≠ [] := by
      rintro rfl
      exact different (by simpa using leads.symm)
    exact declared.clear item here isFile other before more some leads.symm

theorem Extracted.opens (held : Extracted place start done tree)
    (declared : DeclaredEntries destDir (done ++ item :: rest)) : Open place item tree := by
  refine ⟨fun upper carries => ?_, fun isFile => ?_⟩
  · cases found : tree.node (place ++ upper) with
    | none => exact .inl rfl
    | some node =>
        rcases held.known upper node carries.1 found with ⟨_, _, _, rfl⟩ | ⟨other, member, isFile, rfl, _⟩
        · exact .inr rfl
        · exact absurd carries.2.1 ((declared.apart member).1 isFile)
  · cases found : tree.node (place ++ relativeOf item) with
    | none => rfl
    | some node =>
        have filled := (declared.items item (by simp)).proper.1
        rcases held.known _ node filled found with ⟨other, member, carries, _⟩ | ⟨other, member, _, same, _⟩
        · exact absurd carries.2.1 ((declared.apart member).2 isFile)
        · exact absurd (same ▸ List.prefix_rfl) ((declared.apart member).2 isFile)

theorem Extracted.unlinked (held : Extracted place start done tree) : Unlinked tree place := by
  intro below filled
  rw [LinkTree.linkAt]
  cases found : tree.node (place ++ below) with
  | none => rfl
  | some node =>
      rcases held.known below node filled found with ⟨_, _, _, rfl⟩ | ⟨_, _, _, _, rfl⟩ <;> rfl

theorem Extracted.step (held : Extracted place start done before)
    (declared : DeclaredEntries destDir (done ++ item :: rest))
    (written : Written place item before after) :
    Extracted place start (done ++ [item]) after := by
  have carriesOr : ∀ upper, upper ≠ [] → upper <+: relativeOf item →
      Carries item upper ∨ item.isDir = false ∧ upper = relativeOf item := by
    intro upper some leads
    by_cases whole : item.isDir = false ∧ upper = relativeOf item
    · exact .inr whole
    · exact .inl ⟨some, leads, fun isFile same => whole ⟨isFile, same⟩⟩
  have elsewhere : ∀ path, ¬path <+: relativeOf item →
      after.node (place ++ path) = before.node (place ++ path) := by
    intro path apart
    refine written.kept _ fun upper _ leads same => apart ?_
    rwa [List.append_cancel_left same]
  refine ⟨fun other member upper carries => ?_, fun other member isFile => ?_,
    fun below node filled found => ?_, fun other apart => ?_⟩
  · rcases List.mem_append.mp member with old | new
    · by_cases leads : upper <+: relativeOf item
      · rcases carriesOr upper carries.1 leads with shared | ⟨isFile, rfl⟩
        · exact written.carried upper shared
        · exact absurd carries.2.1 ((declared.apart old).2 isFile)
      · rw [elsewhere upper leads]
        exact held.carried other old upper carries
    · rw [List.mem_singleton.mp new] at carries
      exact written.carried upper carries
  · rcases List.mem_append.mp member with old | new
    · rw [elsewhere _ ((declared.apart old).1 isFile)]
      exact held.files other old isFile
    · rw [List.mem_singleton.mp new] at isFile ⊢
      exact written.content isFile
  · by_cases leads : below <+: relativeOf item
    · rcases carriesOr below filled leads with carries | ⟨isFile, rfl⟩
      · rw [written.carried below carries] at found
        exact .inl ⟨item, by simp, carries, (Option.some.inj found).symm⟩
      · rw [written.content isFile] at found
        exact .inr ⟨item, by simp, isFile, rfl, (Option.some.inj found).symm⟩
    · rw [elsewhere below leads] at found
      rcases held.known below node filled found with ⟨old, member, rest⟩ | ⟨old, member, rest⟩
      · exact .inl ⟨old, List.mem_append_left _ member, rest⟩
      · exact .inr ⟨old, List.mem_append_left _ member, rest⟩
  · rw [written.kept other fun upper some _ => apart upper some]
    exact held.outside other apart

structure EmptyDestination (view : HostView) (tree : HostTree) (destDir : UnixPath)
    (place : Location) : Prop where
  located : view.locate tree destDir = .ok place
  directory : tree.directoryAt place = true
  empty : ∀ below, below ≠ [] → tree.node (place ++ below) = none

theorem Extracted.initial (empty : EmptyDestination view tree destDir place) :
    Extracted place tree [] tree where
  carried _ member := absurd member List.not_mem_nil
  files _ member := absurd member List.not_mem_nil
  known below node filled found := by
    rw [empty.empty below filled] at found
    cases found
  outside _ _ := rfl

theorem writeEntries_ok (plain : destDir.Plain) (empty : EmptyDestination view tree destDir place)
    (declared : DeclaredEntries destDir entries)
    (complete : ∀ item ∈ entries, item.entry.failure = none) :
    ∃ next, attempt (hostFiles view) (entries.forM (writeEntry text destDir)) tree =
        (.ok (), next) ∧ LinkTree.Grows tree next ∧ Extracted place tree entries next := by
  refine @Program.attempt_forM_ok _ _ _ _ _ (hostFiles view) (writeEntry text destDir) entries tree
    (fun done state => LinkTree.Grows tree state ∧ Extracted place tree done state)
    ⟨LinkTree.Grows.refl tree, Extracted.initial empty⟩ ?_
  rintro done item rest state rfl ⟨grows, held⟩
  have clear := held.opens declared
  have ready : Ready view state destDir place :=
    ⟨plain, grows.locate empty.located, grows.directoryAt empty.directory, held.unlinked⟩
  obtain ⟨next, ran, written⟩ := @writeEntry_ok text view state destDir place item ready
    (declared.items item (by simp)) (complete item (by simp)) clear
  exact ⟨next, ran, grows.trans (written.grows clear), held.step declared written⟩

end

/-! A whole extraction. -/

def StrictlyBelow (directory path : UnixPath) : Prop :=
  path.startsWith directory = true ∧ path ≠ directory

/-- Every target lies below the destination, no two are the same, and none lies below a file. -/
structure Contained (destDir : UnixPath) (entries : List ExtractionEntry) : Prop where
  below : ∀ item ∈ entries, StrictlyBelow destDir item.target
  distinct : (entries.map ExtractionEntry.target).Nodup
  clear : ∀ file ∈ entries, file.isDir = false → ∀ item ∈ entries,
    ¬StrictlyBelow file.target item.target

/-- From an empty destination, an extraction of readable entries ends with each file holding its
own bytes, and with nothing changed outside. -/
def EndsExact (text : HostText) (roots : SandboxRoots) (found : List (Except String ArchiveEntry))
    (destDir : UnixPath) (entries : List ExtractionEntry) : Prop :=
  ∀ (view : HostView) (before ready : HostTree) (place : Location),
    attempt (hostFiles view) (ensureRuntimeOrCacheWrite text roots destDir) before =
      (.ok (), before) →
    attempt (hostFiles view) (declareEntries text roots destDir found) before =
      (.ok entries, before) →
    attempt (hostFiles view) (createDirAll text destDir) before = (.ok (), ready) →
    EmptyDestination view ready destDir place →
    (∀ item ∈ entries, item.entry.failure = none) →
    ∃ members final,
      attempt (hostFiles view) (extractZipToDirectory text roots (.ok found) destDir) before =
        (.ok members, final) ∧
      (∀ item ∈ entries, item.isDir = false →
        view.locate final item.target = .ok (place ++ relativeOf item) ∧
        final.node (place ++ relativeOf item) =
          some (.file () (.regular item.entry.chunks.flatten))) ∧
      ∀ other, (∀ below, below ≠ [] → other ≠ place ++ below) → final.node other = ready.node other

section

variable {text : HostText} {view : HostView} {roots : SandboxRoots} {tree before ready : HostTree}
  {destDir : UnixPath} {place : Location} {entries : List ExtractionEntry}
  {found : List (Except String ArchiveEntry)} {events : List (Event HostOp HostOp.Response)}

theorem extractedMembers_ok (entered : view.enter tree destDir = .ok place) :
    ∃ members, attempt (hostFiles view) (extractedMembers text destDir) tree =
      (.ok members, tree) := by
  have listed : attempt (hostFiles view) (orStop text (readDirectoryCall destDir)) tree =
      (.ok (childrenOf tree place), tree) := attempt_orStop (by rw [run_readDirectory, entered]; rfl)
  rw [extractedMembers, Program.attempt_bind_ok listed]
  by_cases none : (childrenOf tree place).isEmpty = true
  · exact ⟨_, by rw [if_pos none]; rfl⟩
  · exact ⟨_, by rw [if_neg none]; rfl⟩

theorem extractZipToDirectory_ok {written : HostTree}
    (allowed : attempt (hostFiles view) (ensureRuntimeOrCacheWrite text roots destDir) before =
      (.ok (), before))
    (declared : attempt (hostFiles view) (declareEntries text roots destDir found) before =
      (.ok entries, before))
    (made : attempt (hostFiles view) (createDirAll text destDir) before = (.ok (), ready))
    (wrote : attempt (hostFiles view) (entries.forM (writeEntry text destDir)) ready =
      (.ok (), written))
    (entered : view.enter written destDir = .ok place) :
    ∃ members, attempt (hostFiles view) (extractZipToDirectory text roots (.ok found) destDir)
      before = (.ok members, written) := by
  obtain ⟨members, listed⟩ := @extractedMembers_ok text view written destDir place entered
  have inner : attempt (hostFiles view)
      (extractZipToDirectoryInner text roots (.ok found) destDir) before =
        (.ok members, written) := by
    rw [extractZipToDirectoryInner, Program.attempt_bind_ok allowed]
    change attempt (hostFiles view) (declareEntries text roots destDir found >>= _) before = _
    rw [Program.attempt_bind_ok declared, Program.attempt_bind_ok made,
      Program.attempt_bind_ok wrote, listed]
  refine ⟨members, ?_⟩
  change Program.run (hostFiles view)
    ((extractZipToDirectoryInner text roots (.ok found) destDir).run >>= _) before = _
  rw [Program.run_bind, show Program.run (hostFiles view) _ before = _ from inner]
  rfl

theorem contained_of_plain (plain : destDir.Plain) (declared : DeclaredEntries destDir entries) :
    Contained destDir entries := by
  have target : ∀ item ∈ entries, item.target = destDir.join (relativeOf item) := by
    intro item member
    rw [(declared.items item member).target, plain.normalize]
  refine ⟨fun item member => ?_, ?_, fun file fileIn isFile item itemIn below => ?_⟩
  · rw [target item member]
    refine ⟨UnixPath.startsWith_join _ _, fun same => (declared.items item member).proper.1 ?_⟩
    exact UnixPath.join_injective (same.trans (UnixPath.join_nil destDir).symm)
  · have targets : entries.map ExtractionEntry.target =
        (entries.map relativeOf).map destDir.join := by
      rw [List.map_map]
      exact List.map_congr_left target
    rw [targets]
    exact declared.distinct.map fun _ _ => UnixPath.join_injective
  · rw [target file fileIn, target item itemIn] at below
    obtain ⟨rest, leads⟩ := UnixPath.startsWith_join_join.mp below.1
    by_cases none : rest = []
    · rw [none, List.append_nil] at leads
      exact below.2 (by rw [leads])
    · exact declared.clear file fileIn isFile item itemIn rest none leads.symm

theorem endsExact_of_plain (plain : destDir.Plain) (declared : DeclaredEntries destDir entries) :
    EndsExact text roots found destDir entries := by
  intro view before ready place allowed passed made empty complete
  obtain ⟨written, wrote, grows, held⟩ := @writeEntries_ok text view ready destDir place entries
    plain empty declared complete
  have directory := grows.directoryAt empty.directory
  have entered := LinkTree.enter_of_locate (grows.locate empty.located) directory
  obtain ⟨members, ran⟩ := extractZipToDirectory_ok allowed passed made wrote entered
  refine ⟨members, written, ran, fun item member isFile => ⟨?_, held.files item member isFile⟩,
    held.outside⟩
  obtain ⟨init, name, split⟩ : ∃ init name, relativeOf item = init ++ [name] :=
    ⟨_, _, (List.dropLast_append_getLast (declared.items item member).proper.1).symm⟩
  rw [(declared.items item member).target, plain.normalize, split]
  refine locate_beneath entered fun upper some leads => held.carried item member upper
    ⟨some, split ▸ leads.trans (List.prefix_append _ _), fun _ same => ?_⟩
  have shorter := leads.length_le
  rw [same, split, List.length_append, List.length_singleton] at shorter
  omega

/-- An extraction keeps to its destination exactly if the path of the destination has no step
to a parent: the targets lie below the path that drops such steps, not below the destination. -/
theorem extraction_contained_iff
    (passed : Attempts (declareEntries text roots destDir found) events (.ok entries)) :
    (Contained destDir entries ∧ EndsExact text roots found destDir entries) ↔
      entries = [] ∨ destDir.Plain := by
  have declared := declareEntries_ok passed
  constructor
  · rintro ⟨contained, _⟩
    cases entries with
    | nil => exact .inl rfl
    | cons item rest =>
        have member : item ∈ item :: rest := List.mem_cons_self
        refine .inr (UnixPath.Plain.of_startsWith (contained.below item member).1 ?_)
        rw [(declared.items item member).target]
        exact UnixPath.plain_normalize_join _ _
  · rintro (rfl | plain)
    · refine ⟨⟨by simp, by simp, by simp⟩, fun view before ready place allowed passed made empty _ => ?_⟩
      have entered := LinkTree.enter_of_locate empty.located empty.directory
      obtain ⟨members, ran⟩ := extractZipToDirectory_ok allowed passed made
        (show attempt (hostFiles view) (List.forM [] (writeEntry text destDir)) ready = _ from rfl)
        entered
      exact ⟨members, ready, ran, by simp, fun _ _ => rfl⟩
    · exact ⟨contained_of_plain plain declared, endsExact_of_plain plain declared⟩

end

/-! Runs on small trees. -/

def hostDirectories (places : List Location) : HostTree :=
  places.foldl (fun tree place => (tree.makeDirectory place ()).toOption.getD tree) .empty

def plainText : HostText := ⟨fun _ => "failed", fun _ => "path"⟩

def workView : HostView := ⟨8, ["work"]⟩

def workTree : HostTree := hostDirectories [["plans"], ["work"]]

def parentRoots : SandboxRoots :=
  ⟨⟨false, [.parent, .name "plans", .name ".emuchef_runtime"]⟩,
    ⟨false, [.parent, .name "plans", .name ".emuchef_cache", .name "artifacts"]⟩⟩

def absoluteRoots : SandboxRoots :=
  ⟨.ofNames true ["plans", ".emuchef_runtime"], .ofNames true ["plans", ".emuchef_cache"]⟩

def unpackDir (roots : SandboxRoots) : UnixPath := roots.runtimeRoot.join ["extract", "unpack"]

def biosEntries : List (Except String ArchiveEntry) :=
  [.ok ⟨"bios\\ps1.bin", false, false, [[1], [2]], none⟩, .ok ⟨"./bios/", true, false, [], none⟩]

def biosPass (roots : SandboxRoots) : Except StepFailure (List ExtractionEntry) :=
  (attempt (hostFiles workView)
    (declareEntries plainText roots (unpackDir roots) biosEntries) workTree).1

def biosDeclared (roots : SandboxRoots) : List ExtractionEntry :=
  (biosPass roots).toOption.getD []

theorem attempts_biosDeclared {roots : SandboxRoots} (passes : (biosPass roots).isOk = true) :
    ∃ events, Attempts (declareEntries plainText roots (unpackDir roots) biosEntries) events
      (.ok (biosDeclared roots)) := by
  have whole : biosPass roots = .ok (biosDeclared roots) := by
    rw [biosDeclared]
    cases passed : biosPass roots with
    | error stop =>
        rw [passed] at passes
        cases passes
    | ok entries => rfl
  rw [← whole]
  exact ⟨_, Program.runs_trace (hostFiles workView) _ workTree⟩

theorem extraction_contained_iff_sample :
    (biosDeclared absoluteRoots).length = 2 ∧
      Contained (unpackDir absoluteRoots) (biosDeclared absoluteRoots) ∧
      EndsExact plainText absoluteRoots biosEntries (unpackDir absoluteRoots)
        (biosDeclared absoluteRoots) := by
  obtain ⟨events, passed⟩ := @attempts_biosDeclared absoluteRoots (by decide +kernel)
  exact ⟨by decide +kernel, (extraction_contained_iff passed).mpr (.inr (by decide))⟩

def biosRun : Except StepFailure (List UnixPath) × HostTree :=
  attempt (hostFiles workView)
    (extractZipToDirectory plainText parentRoots (.ok biosEntries) (unpackDir parentRoots)) workTree

/-- With a plan file reached through a parent, the file lands below the working directory, and
the destination stays empty. -/
theorem extraction_leaves_destination :
    (∃ events entries, Attempts (declareEntries plainText parentRoots (unpackDir parentRoots)
        biosEntries) events (.ok entries) ∧ ¬Contained (unpackDir parentRoots) entries) ∧
      biosRun.1.toOption = some [unpackDir parentRoots] ∧
      childrenOf biosRun.2 ["plans", ".emuchef_runtime", "extract", "unpack"] = [] ∧
      biosRun.2.node ["work", "plans", ".emuchef_runtime", "extract", "unpack", "bios", "ps1.bin"] =
        some (.file () (.regular [1, 2])) := by
  refine ⟨?_, by decide +kernel, by decide +kernel, by decide +kernel⟩
  obtain ⟨events, passed⟩ := @attempts_biosDeclared parentRoots (by decide +kernel)
  refine ⟨events, _, passed, fun contained => ?_⟩
  have escapes : ∃ item ∈ biosDeclared parentRoots,
      item.target.startsWith (unpackDir parentRoots) = false := by decide +kernel
  obtain ⟨item, member, outside⟩ := escapes
  have inside := (contained.below item member).1
  rw [outside] at inside
  cases inside

end EmuChef.Executor
