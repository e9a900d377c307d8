import EmuChef.Executor.Extraction

/-! Where the entries of an archive are extracted: each below the destination, at a place of
its own, and with its own content. -/

namespace EmuChef.Executor

open Checks (require)
open Program

/-! The relative paths of entries. -/

def ProperName (name : String) : Prop := TextPath.isName name.toList = true ∧ '/' ∉ name.toList

theorem properName_of_component {path name : String}
    (member : TextPath.Component.normal name ∈ TextPath.components path) : ProperName name := by
  have listed : name ∈ TextPath.names path :=
    List.mem_filterMap.mpr ⟨_, member, rfl⟩
  rw [TextPath.names_eq_filter, List.mem_map] at listed
  obtain ⟨part, kept, rfl⟩ := listed
  obtain ⟨inside, isName⟩ := List.mem_filter.mp kept
  rw [ProperName, String.toList_ofList]
  exact ⟨isName, SlashPath.notMem_of_mem_splitOn '/' inside⟩

theorem archiveRelativeComponents_ok {name : String} {relative : List String}
    (accepted : archiveRelativeComponents name = .ok relative) :
    relative ≠ [] ∧ ∀ part ∈ relative, ProperName part := by
  obtain ⟨_, _, accepted⟩ := Checks.bind_eq_ok.mp accepted
  obtain ⟨read, folded, accepted⟩ := Checks.bind_eq_ok.mp accepted
  obtain ⟨_, nonempty, accepted⟩ := Checks.bind_eq_ok.mp accepted
  obtain rfl := Except.ok.inj accepted
  refine ⟨Checks.require_eq_ok.mp nonempty, ?_⟩
  refine Checks.foldlM_invariant (fun passed (relative : List String) =>
    ∀ part ∈ relative, .normal part ∈ passed) (by simp) ?_ folded |> fun held part member =>
      properName_of_component (held part member)
  intro passed component rest relative next _ held stepped part member
  cases component with
  | normal other =>
      obtain rfl := Except.ok.inj stepped
      rcases List.mem_append.mp member with before | here
      · exact List.mem_append_left _ (held part before)
      · rw [List.mem_singleton.mp here]
        exact List.mem_append_right _ (List.mem_singleton_self _)
  | curDir =>
      obtain rfl := Except.ok.inj stepped
      exact List.mem_append_left _ (held part member)
  | rootDir => cases stepped
  | parentDir => cases stepped

/-! The declaration pass. -/

def relativeOf (item : ExtractionEntry) : List String :=
  (archiveRelativeComponents item.entry.name).toOption.getD []

def entryIsDir (entry : ArchiveEntry) : Bool := entry.isDir || endsWithSlash entry.name

structure DeclaredItem (destDir : UnixPath) (item : ExtractionEntry) : Prop where
  accepted : archiveRelativeComponents item.entry.name = .ok (relativeOf item)
  target : item.target = destDir.normalize.join (relativeOf item)
  isDir : item.isDir = entryIsDir item.entry

theorem DeclaredItem.proper {destDir : UnixPath} {item : ExtractionEntry}
    (declared : DeclaredItem destDir item) :
    relativeOf item ≠ [] ∧ ∀ part ∈ relativeOf item, ProperName part :=
  archiveRelativeComponents_ok declared.accepted

structure Declares (destDir : UnixPath) (declared : Declared) : Prop where
  items : ∀ item ∈ declared.entries, DeclaredItem destDir item
  distinct : (declared.entries.map relativeOf).Nodup
  paths : ∀ path, declared.paths[path]? =
    (declared.entries.find? (relativeOf · = path)).map ExtractionEntry.isDir

theorem getElem?_insert_path (paths : Std.ExtTreeMap (List String) Bool) (path query : List String)
    (isDir : Bool) :
    (paths.insert path isDir)[query]? = if query = path then some isDir else paths[query]? := by
  rw [Std.ExtTreeMap.getElem?_insert]
  by_cases same : query = path
  · simp [same]
  · simp [same, Ne.symm same]

theorem Declares.add {destDir : UnixPath} {declared : Declared} {item : ExtractionEntry}
    (held : Declares destDir declared) (fresh : declared.paths[relativeOf item]? = none)
    (new : DeclaredItem destDir item) :
    Declares destDir ⟨declared.paths.insert (relativeOf item) item.isDir,
      declared.entries ++ [item]⟩ := by
  rw [held.paths, Option.map_eq_none_iff] at fresh
  refine ⟨fun other member => ?_, ?_, fun path => ?_⟩
  · rcases List.mem_append.mp member with before | here
    · exact held.items other before
    · exact List.mem_singleton.mp here ▸ new
  · rw [List.map_append, List.nodup_append]
    refine ⟨held.distinct, by simp, fun first before second here => ?_⟩
    rw [List.mem_singleton.mp here]
    rintro rfl
    obtain ⟨other, member, same⟩ := List.mem_map.mp before
    exact List.find?_eq_none.mp fresh other member (by simpa using same)
  · dsimp only
    rw [getElem?_insert_path, List.find?_append]
    split
    next here =>
      rw [here, fresh]
      simp
    next elsewhere =>
      rw [held.paths]
      cases declared.entries.find? fun item => decide (relativeOf item = path) with
      | some known => rfl
      | none => simp [Ne.symm elsewhere]

section

variable {text : HostText} {roots : SandboxRoots} {destDir : UnixPath}
  {events : List (Event HostOp HostOp.Response)}

theorem declareEntry_ok {declared next : Declared} {found : Except String ArchiveEntry}
    (held : Declares destDir declared)
    (ran : Attempts (declareEntry text roots destDir declared found) events (.ok next)) :
    Declares destDir next := by
  obtain ⟨entry, _, _, _, rest, _⟩ := attempts_bind_finished.mp ran
  obtain ⟨_, _, _, _, rest, _⟩ := attempts_bind_finished.mp rest
  obtain ⟨relative, _, _, accepted, rest, _⟩ := attempts_bind_finished.mp rest
  obtain ⟨_, _, _, fresh, rest, _⟩ := attempts_bind_finished.mp rest
  obtain ⟨_, _, _, _, rest, _⟩ := attempts_bind_finished.mp rest
  obtain ⟨_, _, _, _, rest, _⟩ := attempts_bind_finished.mp rest
  have accepted : archiveRelativeComponents entry.name = .ok relative :=
    (attempts_check.mp accepted).2.symm
  have fresh := Checks.require_eq_ok.mp (attempts_check.mp fresh).2.symm
  have done := Except.ok.inj (Program.attempts_pure.mp rest).2
  let item : ExtractionEntry := ⟨entry, (destDir.join relative).normalize, entryIsDir entry⟩
  have same : relativeOf item = relative := by
    rw [relativeOf, accepted]
    rfl
  have new : DeclaredItem destDir item :=
    ⟨by rw [same, accepted], by rw [same, ← UnixPath.normalize_join], rfl⟩
  have added := held.add (by rwa [same]) new
  rw [same] at added
  rw [done]
  exact added

theorem mem_pathsAbove {path above : List String} :
    above ∈ pathsAbove path ↔ above ≠ [] ∧ ∃ rest, rest ≠ [] ∧ path = above ++ rest := by
  simp only [pathsAbove, List.mem_map, List.mem_reverse, List.mem_range]
  constructor
  · rintro ⟨count, short, rfl⟩
    refine ⟨?_, path.drop (count + 1), ?_, (List.take_append_drop _ _).symm⟩
    · rw [ne_eq, List.take_eq_nil_iff]
      rintro (none | empty)
      · omega
      · rw [empty] at short
        simp at short
    · rw [ne_eq, List.drop_eq_nil_iff]
      omega
  · rintro ⟨filled, rest, some, rfl⟩
    have longer := List.length_pos_of_ne_nil some
    have upper := List.length_pos_of_ne_nil filled
    refine ⟨above.length - 1, ?_, ?_⟩
    · rw [List.length_append]
      omega
    · rw [Nat.sub_add_cancel upper, List.take_left]

/-- The entries that pass: declared one by one, and none beneath the target of a file. -/
structure DeclaredEntries (destDir : UnixPath) (entries : List ExtractionEntry) : Prop where
  items : ∀ item ∈ entries, DeclaredItem destDir item
  distinct : (entries.map relativeOf).Nodup
  clear : ∀ file ∈ entries, file.isDir = false → ∀ item ∈ entries, ∀ rest, rest ≠ [] →
    relativeOf item ≠ relativeOf file ++ rest

theorem declareEntries_ok {found : List (Except String ArchiveEntry)}
    {entries : List ExtractionEntry}
    (ran : Attempts (declareEntries text roots destDir found) events (.ok entries)) :
    DeclaredEntries destDir entries := by
  obtain ⟨declared, _, _, folded, rest, _⟩ := attempts_bind_finished.mp ran
  obtain ⟨_, _, _, conflicts, rest, _⟩ := attempts_bind_finished.mp rest
  obtain rfl := Except.ok.inj (Program.attempts_pure.mp rest).2
  have conflicts := Checks.forM_eq_ok.mp (attempts_check.mp conflicts).2.symm
  have held : Declares destDir declared := by
    have start : Declares destDir ⟨∅, []⟩ := ⟨by simp, by simp, by simp⟩
    rcases Program.attempts_foldlM (fun _ state _ => Declares destDir state) start
      (fun _ _ _ _ _ _ held _ _ ran => declareEntry_ok held ran) folded with
      ⟨state, same, held⟩ | ⟨_, _, _, _, _, _, _, _, _, _, stopped, _⟩
    · exact Except.ok.inj same ▸ held
    · cases stopped
  have position : ∀ item ∈ declared.entries,
      declared.entries.find? (relativeOf · = relativeOf item) = some item := by
    intro item member
    cases found : declared.entries.find? (relativeOf · = relativeOf item) with
    | none => simpa using List.find?_eq_none.mp found item member
    | some other =>
        have same : relativeOf other = relativeOf item := by simpa using List.find?_some found
        rw [List.inj_on_of_nodup_map held.distinct (List.mem_of_find?_eq_some found) member same]
  refine ⟨held.items, held.distinct, fun file fileIn isFile item itemIn rest some same => ?_⟩
  have key : relativeOf item ∈ declared.paths.keys := by
    rw [Std.ExtTreeMap.mem_keys, Std.ExtTreeMap.mem_iff_isSome_getElem?, held.paths,
      position item itemIn]
    rfl
  have above : relativeOf file ∈ pathsAbove (relativeOf item) :=
    mem_pathsAbove.mpr ⟨(held.items file fileIn).proper.1, rest, some, same⟩
  have clear := Checks.require_eq_ok.mp (Checks.forM_eq_ok.mp (conflicts _ key) _ above)
  rw [held.paths, position file fileIn, Option.map_some, isFile] at clear
  exact clear rfl

end

/-! Places beneath a destination. -/

section

variable {view : HostView} {tree before after : HostTree} {base : UnixPath} {place : Location}
  {names : List String}

theorem node_root (tree : HostTree) : tree.node [] = none := by
  cases found : tree.node [] with
  | none => rfl
  | some node => simpa [TreePath.named] using tree.named [] node found

theorem linkAt_directory (directory : tree.directoryAt place = true) :
    tree.linkAt place = none := by
  rw [LinkTree.directoryAt, decide_eq_true_eq] at directory
  rcases directory with rfl | kind
  · rw [LinkTree.linkAt, node_root]
  · rw [LinkTree.linkAt]
    rw [FileTree.kindAt] at kind
    cases found : tree.node place with
    | none => rfl
    | some node => cases node <;> simp [found, TreeNode.kind] at kind ⊢

def Unlinked (tree : HostTree) (place : Location) : Prop :=
  ∀ below, below ≠ [] → tree.linkAt (place ++ below) = none

theorem enter_beneath (entered : view.enter tree base = .ok place)
    (directories : ∀ upper, upper ≠ [] → upper <+: names →
      tree.node (place ++ upper) = some (.directory ())) :
    view.enter tree (base.join names) = .ok (place ++ names) := by
  rw [HostView.enter, LinkTree.enter_join]
  rw [HostView.enter] at entered
  rw [entered]
  refine LinkTree.foldlM_directories fun upper some leads => ?_
  rw [FileTree.kindAt, directories upper some leads]
  rfl

theorem locate_beneath (entered : view.enter tree base = .ok place) {name : String}
    (directories : ∀ upper, upper ≠ [] → upper <+: names →
      tree.node (place ++ upper) = some (.directory ())) :
    view.locate tree (base.join (names ++ [name])) = .ok (place ++ (names ++ [name])) := by
  have above := enter_beneath entered directories
  rw [HostView.enter] at above
  rw [HostView.locate, LinkTree.locate_join_concat, above, ← List.append_assoc]
  rfl

theorem isSymlink_beneath (entered : view.enter tree base = .ok place)
    (clear : Unlinked tree place) (filled : names ≠ []) :
    isSymlink view tree (base.join names) = false := by
  obtain ⟨init, last, rfl⟩ : ∃ init last, names = init ++ [last] :=
    ⟨_, _, (List.dropLast_append_getLast filled).symm⟩
  rw [isSymlink, HostView.locate, LinkTree.locate_join_concat, LinkTree.enter_join]
  rw [HostView.enter] at entered
  rw [entered]
  have below := @LinkTree.foldlM_unlinked _ tree place (tree.follow view.depth) init
    fun upper some _ => clear upper some
  rcases below with reached | ⟨stop, stopped⟩
  · have whole : (Except.ok place >>= fun reached => (init.map PathStep.name).foldlM
        (tree.stepInto (tree.follow view.depth)) reached) = .ok (place ++ init) := reached
    rw [whole]
    change (tree.linkAt (place ++ init ++ [last])).isSome = false
    rw [List.append_assoc, clear _ (by simp)]
    rfl
  · have whole : (Except.ok place >>= fun reached => (init.map PathStep.name).foldlM
        (tree.stepInto (tree.follow view.depth)) reached) = .error stop := stopped
    rw [whole]
    rfl

structure Made (place : Location) (names : List String) (before after : HostTree) : Prop where
  made : ∀ upper, upper ≠ [] → upper <+: names →
    after.node (place ++ upper) = some (.directory ())
  kept : ∀ other, (∀ upper, upper ≠ [] → upper <+: names → other ≠ place ++ upper) →
    after.node other = before.node other

def Free (place : Location) (names : List String) (tree : HostTree) : Prop :=
  ∀ upper, upper ≠ [] → upper <+: names →
    tree.node (place ++ upper) = none ∨ tree.node (place ++ upper) = some (.directory ())

theorem Made.start (place : Location) (tree : HostTree) : Made place [] tree tree :=
  ⟨fun _ filled leads => absurd (List.prefix_nil.mp leads) filled, fun _ _ => rfl⟩

theorem Made.grows (made : Made place names before after) (free : Free place names before) :
    LinkTree.Grows before after := by
  have here : ∀ other, (∃ upper, upper ≠ [] ∧ upper <+: names ∧ other = place ++ upper) ∨
      after.node other = before.node other := by
    intro other
    by_cases inside : ∃ upper, upper ≠ [] ∧ upper <+: names ∧ other = place ++ upper
    · exact .inl inside
    · exact .inr (made.kept other fun upper filled leads same =>
        inside ⟨upper, filled, leads, same⟩)
  refine ⟨fun other directory => ?_, fun other => ?_⟩
  · rcases here other with ⟨upper, filled, leads, rfl⟩ | same
    · rw [FileTree.kindAt, made.made upper filled leads]
      rfl
    · rwa [FileTree.kindAt, same]
  · rcases here other with ⟨upper, filled, leads, rfl⟩ | same
    · rw [LinkTree.linkAt, LinkTree.linkAt, made.made upper filled leads]
      rcases free upper filled leads with none | directory
      · rw [none]
      · rw [directory]
    · rw [LinkTree.linkAt, LinkTree.linkAt, same]

theorem Made.step {middle : HostTree} {name : String} (made : Made place names before middle)
    (changed : ∀ other, after.node other =
      if other = place ++ (names ++ [name]) then some (.directory ()) else middle.node other) :
    Made place (names ++ [name]) before after := by
  refine ⟨fun upper filled leads => ?_, fun other apart => ?_⟩
  · rw [changed]
    split
    next => rfl
    next different =>
      rcases List.prefix_concat_iff.mp leads with rfl | shorter
      · exact absurd rfl different
      · exact made.made upper filled shorter
  · rw [changed, if_neg (apart _ (by simp) List.prefix_rfl)]
    exact made.kept other fun upper filled leads =>
      apart upper filled (leads.trans (List.prefix_append _ _))

end

/-! Runs on the host. -/

section

variable {text : HostText} {view : HostView} {tree before after : HostTree} {base path : UnixPath}
  {place : Location} {names : List String}

theorem attempt_orStop {α : Type} {answer : HostProgram (Except HostError α)} {next : HostTree}
    {value : α} (ran : Program.run (hostFiles view) answer tree = (.ok value, next)) :
    attempt (hostFiles view) (orStop text answer) tree = (.ok value, next) := by
  change Program.run (hostFiles view) (answer >>= _) tree = _
  rw [Program.run_bind, ran]
  rfl

theorem attempt_isDirectory :
    attempt (hostFiles view) (ExceptT.lift (isDirectoryCall path) : HostAttempt Bool) tree =
      (.ok (view.enter tree path).isOk, tree) :=
  Program.attempt_lift _ _ _

theorem run_makeDirectory :
    Program.run (hostFiles view) (makeDirectoryCall path) tree =
      atPlace tree (view.locate tree path) fun place =>
        settle tree () (makeDirectoryAt tree place) :=
  Program.run_request (hostFiles view) (HostOp.makeDirectory path) tree

theorem run_createFile :
    Program.run (hostFiles view) (createFileCall path) tree =
      atPlace tree (view.resolve tree path) fun place =>
        settle tree place (createFileAt tree place) :=
  Program.run_request (hostFiles view) (HostOp.createFile path) tree

theorem run_write {file : Location} {bytes : List UInt8} :
    Program.run (hostFiles view) (writeCall file bytes) tree =
      settle tree () (appendAt tree file bytes) :=
  Program.run_request (hostFiles view) (HostOp.write file bytes) tree

theorem run_readDirectory :
    Program.run (hostFiles view) (readDirectoryCall path) tree =
      atPlace tree (view.enter tree path) fun place => (.ok (childrenOf tree place), tree) :=
  Program.run_request (hostFiles view) (HostOp.readDirectory path) tree

theorem rejectExistingSymlink_ok (plain : isSymlink view tree path = false) :
    attempt (hostFiles view) (rejectExistingSymlink text path) tree = (.ok (), tree) := by
  have asked : attempt (hostFiles view) (ExceptT.lift (isSymlinkCall path) : HostAttempt Bool) tree =
      (.ok (isSymlink view tree path), tree) := Program.attempt_lift _ _ _
  rw [rejectExistingSymlink, Program.attempt_bind_ok asked, Checks.require_eq_ok.mpr plain]
  rfl

theorem createMissing_present {reached : Location} (entered : view.enter tree path = .ok reached) :
    attempt (hostFiles view) (createMissing text path) tree = (.ok (), tree) := by
  rw [createMissing, Program.attempt_bind_ok attempt_isDirectory, entered]
  rfl

theorem parentIsDirectory_beneath {name : String} (directory : tree.directoryAt place = true)
    (directories : ∀ upper, upper ≠ [] → upper <+: names →
      tree.node (place ++ upper) = some (.directory ())) :
    tree.parentIsDirectory (place ++ (names ++ [name])) = true := by
  rw [FileTree.parentIsDirectory]
  cases parent : TreePath.parent (place ++ (names ++ [name])) with
  | none => rfl
  | some above =>
      obtain ⟨filled, last, split⟩ := parent_eq_some.mp parent
      rw [← List.append_assoc] at split
      obtain rfl : place ++ names = above := (List.append_inj' split rfl).1
      rw [decide_eq_true_eq, FileTree.kindAt]
      by_cases none : names = []
      · subst none
        rw [List.append_nil] at filled ⊢
        simpa [LinkTree.directoryAt, filled, FileTree.kindAt] using directory
      · rw [directories names none List.prefix_rfl]
        rfl

theorem createMissing_beneath {name : String} (entered : view.enter tree base = .ok place)
    (directory : tree.directoryAt place = true)
    (directories : ∀ upper, upper ≠ [] → upper <+: names →
      tree.node (place ++ upper) = some (.directory ()))
    (free : tree.node (place ++ (names ++ [name])) = none ∨
      tree.node (place ++ (names ++ [name])) = some (.directory ())) :
    ∃ next, attempt (hostFiles view) (createMissing text (base.join (names ++ [name]))) tree =
        (.ok (), next) ∧
      ∀ other, next.node other =
        if other = place ++ (names ++ [name]) then some (.directory ()) else tree.node other := by
  rcases free with none | present
  · have absent : view.enter tree (base.join (names ++ [name])) = .error .missing := by
      have split : base.join (names ++ [name]) = (base.join names).join [name] := by
        simp [UnixPath.join]
      have above := enter_beneath entered directories
      rw [HostView.enter] at above ⊢
      rw [split, LinkTree.enter_join, above]
      change (LinkTree.stepInto tree _ (place ++ names) (.name name) >>= pure) = _
      rw [LinkTree.stepInto, List.append_assoc, none]
      rfl
    obtain ⟨next, made, changed⟩ := @FileTree.makeDirectory_ok _ _ _ _ _ tree
      (place ++ (names ++ [name])) () (by simp [TreePath.named])
      (parentIsDirectory_beneath directory directories) (by simp [FileTree.kindAt, none])
    refine ⟨next, ?_, by simpa [none] using changed⟩
    rw [createMissing, Program.attempt_bind_ok attempt_isDirectory, absent]
    refine attempt_orStop ?_
    rw [run_makeDirectory, locate_beneath entered directories]
    have fresh : ¬(tree.directoryAt (place ++ (names ++ [name])) = true ∨
        (tree.node (place ++ (names ++ [name]))).isSome = true) := by
      simp [LinkTree.directoryAt, FileTree.kindAt, none]
    change settle tree () (makeDirectoryAt tree _) = _
    rw [makeDirectoryAt, if_neg fresh, made]
    rfl
  · have all : ∀ upper, upper ≠ [] → upper <+: names ++ [name] →
        tree.node (place ++ upper) = some (.directory ()) := by
      intro upper filled leads
      rcases List.prefix_concat_iff.mp leads with rfl | shorter
      · exact present
      · exact directories upper filled shorter
    refine ⟨tree, createMissing_present (enter_beneath entered all), fun other => ?_⟩
    split
    next same => rw [same, present]
    next => rfl

theorem range_split {count item : Nat} {passed rest : List Nat}
    (split : List.range count = passed ++ item :: rest) :
    item = passed.length ∧ passed.length < count := by
  have short : passed.length < count := by
    have lengths := congrArg List.length split
    rw [List.length_range, List.length_append, List.length_cons] at lengths
    omega
  have read := congrArg (·[passed.length]?) split
  simp only [List.getElem?_range short, List.getElem?_append_right (Nat.le_refl _), Nat.sub_self,
    List.getElem?_cons_zero, Option.some.injEq] at read
  exact ⟨read.symm, short⟩

theorem upTo_join_left {count : Nat} (short : count ≤ base.steps.length) :
    (base.join names).upTo count = base.upTo count := by
  rw [UnixPath.upTo, UnixPath.upTo, UnixPath.join, List.take_append_of_le_length short]

theorem upTo_join_right (count : Nat) :
    (base.join names).upTo (base.steps.length + count) = base.join (names.take count) := by
  rw [UnixPath.upTo, UnixPath.join, UnixPath.join, List.take_length_add_append, List.map_take]

theorem createDirAll_beneath (entered : view.enter tree base = .ok place)
    (directory : tree.directoryAt place = true) (free : Free place names tree) :
    ∃ next, attempt (hostFiles view) (createDirAll text (base.join names)) tree = (.ok (), next) ∧
      Made place names tree next := by
  have count : (base.join names).steps.length = base.steps.length + names.length := by
    simp [UnixPath.join]
  have upper : attempt (hostFiles view) ((List.range base.steps.length).forM fun above =>
      createMissing text ((base.join names).upTo (above + 1))) tree = (.ok (), tree) := by
    obtain ⟨final, ran, rfl⟩ := @Program.attempt_forM_ok _ _ _ _ _ (hostFiles view)
      (fun above => createMissing text ((base.join names).upTo (above + 1)))
      (List.range base.steps.length) tree (fun _ state => state = tree) rfl
      (fun passed above rest state split same => by
        obtain ⟨rfl, short⟩ := range_split split
        obtain ⟨reached, found⟩ := LinkTree.enter_upTo entered (passed.length + 1)
        rw [same, upTo_join_left (by omega)]
        exact ⟨tree, createMissing_present found, rfl⟩)
    exact ran
  obtain ⟨next, lower, made⟩ := @Program.attempt_forM_ok _ _ _ _ _ (hostFiles view)
    (fun below => createMissing text ((base.join names).upTo (base.steps.length + below + 1)))
    (List.range names.length) tree
    (fun passed state => Made place (names.take passed.length) tree state)
    (Made.start place tree)
    (fun passed below rest state split made => by
      obtain ⟨rfl, short⟩ := range_split split
      obtain ⟨name, grown⟩ : ∃ name, names.take (passed.length + 1) =
          names.take passed.length ++ [name] := ⟨_, (List.take_append_getElem short).symm⟩
      have leads : names.take (passed.length + 1) <+: names := List.take_prefix _ _
      have grows := made.grows fun upper filled within =>
        free upper filled (within.trans (List.take_prefix _ _))
      have directories : ∀ upper, upper ≠ [] → upper <+: names.take passed.length →
          state.node (place ++ upper) = some (.directory ()) := made.made
      have there : state.node (place ++ (names.take passed.length ++ [name])) =
          tree.node (place ++ (names.take passed.length ++ [name])) := by
        refine made.kept _ fun upper filled within same => ?_
        have shorter := within.length_le
        rw [List.append_cancel_left same.symm, List.length_append, List.length_singleton] at shorter
        omega
      obtain ⟨next, ran, changed⟩ := @createMissing_beneath text view state base place
        (names.take passed.length) name (grows.enter entered)
        (grows.directoryAt directory)
        directories (by
          rw [there]
          exact free _ (by simp) (grown ▸ leads))
      rw [← grown] at ran changed
      refine ⟨next, ?_, ?_⟩
      · rw [Nat.add_assoc, upTo_join_right]
        exact ran
      · rw [List.length_append, List.length_singleton, grown]
        exact made.step (by rwa [← grown]))
  refine ⟨next, ?_, ?_⟩
  · have whole : createDirAll text (base.join names) =
        (do
          (List.range base.steps.length).forM fun above =>
            createMissing text ((base.join names).upTo (above + 1))
          (List.range names.length).forM fun below =>
            createMissing text ((base.join names).upTo (base.steps.length + below + 1))) := by
      rw [createDirAll, count, List.range_add]
      exact List.forM_append.trans (congrArg (fun later => _ >>= fun _ => later) List.forM_map)
    rw [whole, Program.attempt_bind_ok upper]
    exact lower
  · simpa using made

structure Holds (before : HostTree) (file : Location) (bytes : List UInt8) (after : HostTree) :
    Prop where
  content : after.node file = some (.file () (.regular bytes))
  others : ∀ other, other ≠ file → after.node other = before.node other

theorem createFile_beneath {name : String} (entered : view.enter tree base = .ok place)
    (directory : tree.directoryAt place = true)
    (directories : ∀ upper, upper ≠ [] → upper <+: names →
      tree.node (place ++ upper) = some (.directory ()))
    (absent : tree.node (place ++ (names ++ [name])) = none) :
    ∃ next, Program.run (hostFiles view) (createFileCall (base.join (names ++ [name]))) tree =
        (.ok (place ++ (names ++ [name])), next) ∧
      Holds tree (place ++ (names ++ [name])) [] next := by
  obtain ⟨next, published, changed⟩ := @FileTree.publishFile_ok _ _ _ _ _ tree
    (place ++ (names ++ [name])) () (.regular []) (by simp [TreePath.named])
    (parentIsDirectory_beneath directory directories) (by simp [FileTree.kindAt, absent])
  refine ⟨next, ?_, by rw [changed, if_pos rfl], fun other different => by
    rw [changed, if_neg different]⟩
  have noLink : tree.linkAt (place ++ (names ++ [name])) = none := by
    rw [LinkTree.linkAt, absent]
  have noDirectory : ¬tree.directoryAt (place ++ (names ++ [name])) = true := by
    simp [LinkTree.directoryAt, FileTree.kindAt, absent]
  rw [run_createFile, HostView.resolve,
    LinkTree.resolve_of_locate (locate_beneath entered directories) noLink]
  change settle tree _ (createFileAt tree _) = _
  rw [createFileAt, if_neg noDirectory, published]
  rfl

theorem write_ok {file : Location} {bytes more : List UInt8}
    (found : tree.node file = some (.file () (.regular bytes))) :
    ∃ next, Program.run (hostFiles view) (writeCall file more) tree = (.ok (), next) ∧
      Holds tree file (bytes ++ more) next := by
  have placed : tree.parentIsDirectory file = true :=
    FileTree.parentIsDirectory_of_ancestors fun above higher =>
      FileTree.kindAt_ancestor (Option.isSome_of_eq_some found) higher
  obtain ⟨next, published, changed⟩ := @FileTree.publishFile_ok _ _ _ _ _ tree file ()
    (.regular (bytes ++ more)) (tree.named file _ found) placed
    (by simp [FileTree.kindAt, found, TreeNode.kind])
  refine ⟨next, ?_, by rw [changed, if_pos rfl], fun other different => by
    rw [changed, if_neg different]⟩
  rw [run_write, appendAt, found]
  change settle tree () ((tree.publishFile file () _).mapError _) = _
  rw [published]
  rfl

/-- An entry that can be read is written whole to its empty file. -/
theorem copyEntry_ok {file : Location} {entry : ArchiveEntry} (complete : entry.failure = none)
    (found : tree.node file = some (.file () (.regular []))) :
    ∃ next, attempt (hostFiles view) (copyEntry text entry file) tree = (.ok (), next) ∧
      Holds tree file entry.chunks.flatten next := by
  obtain ⟨next, ran, held⟩ := @Program.attempt_forM_ok _ _ _ _ _ (hostFiles view)
    (fun chunk => orStop text (writeCall file chunk)) entry.chunks tree
    (fun passed state => Holds tree file passed.flatten state)
    ⟨found, fun _ _ => rfl⟩
    (fun passed chunk rest state _ held => by
      obtain ⟨next, ran, wrote⟩ := @write_ok view state file passed.flatten chunk held.content
      refine ⟨next, attempt_orStop ran, ?_, fun other different => ?_⟩
      · rw [List.flatten_append, List.flatten_singleton]
        exact wrote.content
      · exact (wrote.others other different).trans (held.others other different))
  refine ⟨next, ?_, held⟩
  rw [copyEntry, Program.attempt_bind_ok ran, complete]
  rfl

end

end EmuChef.Executor
