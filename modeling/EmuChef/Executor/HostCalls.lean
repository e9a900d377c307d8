import EmuChef.Executor.ExtractionLaw
import EmuChef.Lib.VisitedStates

/-! What the file system calls of an extraction change on a host where any of them may fail. -/

namespace EmuChef.Executor

open Program (attempt Attempts)
open FaultyWorld (Guards Ends)

/-! What the calls do. -/

section

variable {view : HostView} {before after : HostTree} {path : UnixPath} {failed : Bool}

/-- One place has changed, and neither a directory is gone nor a link gone or made. -/
structure Altered (place : Location) (before after : HostTree) : Prop where
  kept : ∀ other, other ≠ place → after.node other = before.node other
  directory : before.kindAt place = some .directory → after.kindAt place = some .directory
  link : after.linkAt place = before.linkAt place

theorem ok_of_mapError {α ε ε' : Type} {found : Except ε α} {change : ε → ε'} {value : α}
    (mapped : found.mapError change = .ok value) : found = .ok value := by
  cases found with
  | error stop => cases mapped
  | ok other => rw [Except.ok.inj mapped]

theorem altered_makeDirectoryAt {place : Location} (made : makeDirectoryAt before place = .ok after) :
    before.node place = none ∧ after.node place = some (.directory ()) ∧
      Altered place before after := by
  unfold makeDirectoryAt at made
  split at made
  next => cases made
  next fresh =>
    have absent : before.node place = none := by
      cases found : before.node place with
      | none => rfl
      | some node => simp [found] at fresh
    have changed := FileTree.node_of_makeDirectory absent (ok_of_mapError made)
    have here : after.node place = some (.directory ()) := by rw [changed, if_pos rfl]
    refine ⟨absent, here, fun other different => ?_, fun directory => ?_, ?_⟩
    · rw [changed, if_neg different]
    · simp [FileTree.kindAt, absent] at directory
    · rw [LinkTree.linkAt, LinkTree.linkAt, here, absent]

theorem altered_publishFile {place : Location} {bytes : List UInt8}
    (published : before.publishFile place () (.regular bytes) = .ok after)
    (file : before.kindAt place ≠ some .directory) (real : before.linkAt place = none) :
    Altered place before after := by
  have changed := FileTree.node_of_publishFile published
  have here : after.node place = some (.file () (.regular bytes)) := by rw [changed, if_pos rfl]
  refine ⟨fun other different => ?_, fun directory => absurd directory file, ?_⟩
  · rw [changed, if_neg different]
  · rw [real, LinkTree.linkAt, here]

theorem altered_createFileAt {place : Location} (created : createFileAt before place = .ok after)
    (real : before.linkAt place = none) : Altered place before after := by
  unfold createFileAt at created
  split at created
  next => cases created
  next file =>
    refine altered_publishFile (ok_of_mapError created) (fun directory => file ?_) real
    rw [LinkTree.directoryAt, decide_eq_true_eq]
    exact .inr directory

theorem altered_appendAt {file : Location} {bytes : List UInt8}
    (appended : appendAt before file bytes = .ok after) : Altered file before after := by
  unfold appendAt at appended
  split at appended
  next found =>
    refine altered_publishFile (ok_of_mapError appended) ?_ ?_
    · simp [FileTree.kindAt, found, TreeNode.kind]
    · rw [LinkTree.linkAt, found]
  next => cases appended

theorem answers_symlinkMetadata {response : Bool}
    (answers : (hostWorld view).Answers before ⟨.symlinkMetadata path, response, failed⟩ after) :
    response = isSymlink view before path ∧ after = before := by
  cases answers with
  | works worked =>
      rcases worked with handled | impossible
      · exact ⟨(congrArg Prod.fst handled).symm, (congrArg Prod.snd handled).symm⟩
      · exact impossible.elim
  | fails impossible => exact impossible.elim

theorem answers_isDirectory {response : Bool}
    (answers : (hostWorld view).Answers before ⟨.isDirectory path, response, failed⟩ after) :
    response = (view.enter before path).isOk ∧ after = before := by
  cases answers with
  | works worked =>
      rcases worked with handled | impossible
      · exact ⟨(congrArg Prod.fst handled).symm, (congrArg Prod.snd handled).symm⟩
      · exact impossible.elim
  | fails impossible => exact impossible.elim

theorem answers_makeDirectory {response : Except HostError Unit}
    (answers : (hostWorld view).Answers before ⟨.makeDirectory path, response, failed⟩ after) :
    after = before ∨ ∃ place, view.locate before path = .ok place ∧ Altered place before after := by
  cases answers with
  | works worked =>
      rcases worked with handled | impossible
      · change atPlace before (view.locate before path) _ = _ at handled
        cases located : view.locate before path with
        | error stop =>
            rw [located] at handled
            exact .inl (congrArg Prod.snd handled).symm
        | ok place =>
            rw [located] at handled
            change settle before () (makeDirectoryAt before place) = _ at handled
            cases made : makeDirectoryAt before place with
            | error stop =>
                rw [made] at handled
                exact .inl (congrArg Prod.snd handled).symm
            | ok next =>
                rw [made] at handled
                obtain rfl : next = after := congrArg Prod.snd handled
                exact .inr ⟨place, rfl, (altered_makeDirectoryAt made).2.2⟩
      · exact impossible.elim
  | fails _ => exact .inl rfl

theorem answers_createFile {response : Except HostError Location}
    (answers : (hostWorld view).Answers before ⟨.createFile path, response, failed⟩ after) :
    (∃ error, response = .error error ∧ after = before) ∨
      ∃ place, view.resolve before path = .ok place ∧ response = .ok place ∧
        createFileAt before place = .ok after := by
  cases answers with
  | works worked =>
      rcases worked with handled | impossible
      · change atPlace before (view.resolve before path) _ = _ at handled
        cases resolved : view.resolve before path with
        | error stop =>
            rw [resolved] at handled
            exact .inl ⟨_, (congrArg Prod.fst handled).symm, (congrArg Prod.snd handled).symm⟩
        | ok place =>
            rw [resolved] at handled
            change settle before place (createFileAt before place) = _ at handled
            cases created : createFileAt before place with
            | error stop =>
                rw [created] at handled
                exact .inl ⟨_, (congrArg Prod.fst handled).symm, (congrArg Prod.snd handled).symm⟩
            | ok next =>
                rw [created] at handled
                obtain rfl : next = after := congrArg Prod.snd handled
                exact .inr ⟨place, rfl, (congrArg Prod.fst handled).symm, created⟩
      · exact impossible.elim
  | fails failed =>
      obtain ⟨error, same⟩ := failed
      exact .inl ⟨error, same, rfl⟩

theorem answers_write {file : Location} {bytes : List UInt8} {response : Except HostError Unit}
    (answers : (hostWorld view).Answers before ⟨.write file bytes, response, failed⟩ after) :
    after = before ∨ Altered file before after := by
  cases answers with
  | works worked =>
      rcases worked with handled | ⟨_, count, appended⟩
      · change settle before () (appendAt before file bytes) = _ at handled
        cases appended : appendAt before file bytes with
        | error stop =>
            rw [appended] at handled
            exact .inl (congrArg Prod.snd handled).symm
        | ok next =>
            rw [appended] at handled
            obtain rfl : next = after := congrArg Prod.snd handled
            exact .inr (altered_appendAt appended)
      · exact .inr (altered_appendAt appended)
  | fails _ => exact .inl rfl

theorem answers_readDirectory {response : Except HostError (List String)}
    (answers : (hostWorld view).Answers before ⟨.readDirectory path, response, failed⟩ after) :
    after = before := by
  cases answers with
  | works worked =>
      rcases worked with handled | impossible
      · change atPlace before (view.enter before path) _ = _ at handled
        cases entered : view.enter before path with
        | error stop =>
            rw [entered] at handled
            exact (congrArg Prod.snd handled).symm
        | ok place =>
            rw [entered] at handled
            exact (congrArg Prod.snd handled).symm
      · exact impossible.elim
  | fails _ => rfl

theorem answers_removeDirectoryAll {response : Except HostError Unit}
    (answers : (hostWorld view).Answers before ⟨.removeDirectoryAll path, response, failed⟩ after)
    (place : Location) : after.node place = before.node place ∨
      (sweeps view before path place = true ∧ after.node place = none) := by
  cases answers with
  | works worked =>
      rcases worked with handled | ⟨_, taken⟩
      · obtain rfl : swept view before path = after := congrArg Prod.snd handled
        rw [swept, FileTree.node_prune]
        cases taken : sweeps view before path place with
        | false => exact .inl rfl
        | true => exact .inr ⟨rfl, rfl⟩
      · exact taken place
  | fails _ => exact .inl rfl

end

/-! Ways down from a directory. -/

def Straight (tree : HostTree) (here : Location) (names : List String) : Prop :=
  ∀ upper, upper ≠ [] → upper <+: names → tree.linkAt (here ++ upper) = none

section

variable {view : HostView} {tree : HostTree} {base : UnixPath} {here top : Location}
  {names more : List String}

theorem enter_straight (entered : view.enter tree base = .ok here) (straight : Straight tree here names)
    (found : view.enter tree (base.join names) = .ok top) : top = here ++ names := by
  rw [HostView.enter] at entered found
  rw [LinkTree.enter_join, entered] at found
  rcases @LinkTree.foldlM_unlinked _ tree here (tree.follow view.depth) names straight with
    reached | ⟨stop, stopped⟩
  · exact Except.ok.inj (found.symm.trans reached)
  · cases stopped.symm.trans found

theorem locate_straight (entered : view.enter tree base = .ok here)
    (straight : Straight tree here names) (filled : names ≠ [])
    (found : view.locate tree (base.join names) = .ok top) : top = here ++ names := by
  obtain ⟨init, name, rfl⟩ : ∃ init name, names = init ++ [name] :=
    ⟨_, _, (List.dropLast_append_getLast filled).symm⟩
  rw [HostView.locate, LinkTree.locate_join_concat] at found
  cases above : tree.enter view.depth view.workingDirectory (base.join init) with
  | error stop =>
      rw [above] at found
      cases found
  | ok reached =>
      rw [above] at found
      obtain rfl := enter_straight entered
        (fun upper some leads => straight upper some (leads.trans (List.prefix_append _ _))) above
      exact (Except.ok.inj found).symm.trans (List.append_assoc _ _ _)

theorem straight_of_checks (entered : view.enter tree base = .ok here)
    (straight : Straight tree here names)
    (checked : ∀ count, count < more.length →
      isSymlink view tree (base.join (names ++ more.take (count + 1))) = false) :
    Straight tree here (names ++ more) := by
  intro upper filled leads
  by_cases short : upper <+: names
  · exact straight upper filled short
  cases link : tree.linkAt (here ++ upper) with
  | none => rfl
  | some target =>
      exfalso
      obtain ⟨rest, rfl⟩ : ∃ rest, upper = names ++ rest := by
        rcases List.prefix_or_prefix_of_prefix leads (List.prefix_append names more) with shorter | longer
        · exact absurd shorter short
        · exact longer.imp fun _ same => same.symm
      have part : rest <+: more := (List.prefix_append_right_inj names).mp leads
      have some : rest ≠ [] := by
        rintro rfl
        exact short (by simp)
      obtain ⟨init, name, split⟩ : ∃ init name, names ++ rest = init ++ [name] :=
        ⟨_, _, (List.dropLast_append_getLast filled).symm⟩
      have present : (tree.node (here ++ (init ++ [name]))).isSome := by
        rw [LinkTree.linkAt, split] at link
        cases found : tree.node (here ++ (init ++ [name])) with
        | none => simp [found] at link
        | some node => rfl
      have directories : ∀ above, above ≠ [] → above <+: init →
          tree.node (here ++ above) = .some (.directory ()) := by
        rintro above higher ⟨between, rfl⟩
        have directory : tree.kindAt (here ++ above) = .some .directory :=
          @FileTree.kindAt_above _ _ tree (here ++ above) (between ++ [name]) (by simp [higher])
            (by simp) (by simpa using present)
        rw [FileTree.kindAt] at directory
        cases found : tree.node (here ++ above) with
        | none => simp [found] at directory
        | some node => cases node <;> simp [found, TreeNode.kind] at directory ⊢
      have positive := List.length_pos_of_ne_nil some
      have plain := checked (rest.length - 1) (by
        have bound := part.length_le
        omega)
      rw [Nat.sub_add_cancel positive, ← List.prefix_iff_eq_take.mp part, split, isSymlink,
        locate_beneath entered directories] at plain
      dsimp only at plain
      rw [← split, link] at plain
      cases plain

end

/-! The checks, which change nothing. -/

section

variable {text : HostText} {view : HostView} {roots : SandboxRoots} {tree : HostTree}
  {destDir path root : UnixPath} {found : List (Except String ArchiveEntry)}

def IsCheck : HostOp → Prop
  | .symlinkMetadata _ => True
  | _ => False

theorem reads_check {operation : HostOp} {response : operation.Response} {failed : Bool}
    {after : HostTree} (check : IsCheck operation)
    (answers : (hostWorld view).Answers tree ⟨operation, response, failed⟩ after) :
    hostFiles view operation tree = (response, tree) ∧ after = tree := by
  cases operation with
  | symlinkMetadata path =>
      obtain ⟨rfl, rfl⟩ := answers_symlinkMetadata answers
      exact ⟨rfl, rfl⟩
  | isDirectory | makeDirectory | createFile | write | readDirectory | removeDirectoryAll =>
      exact check.elim

theorem run_of_check {α : Type} {program : HostProgram α} (only : Program.Only IsCheck program) :
    (Program.run (hostFiles view) program tree).2 = tree := by
  induction program with
  | done value => rfl
  | call operation next ih =>
      cases operation with
      | symlinkMetadata path => exact ih _ (only.2 _)
      | isDirectory | makeDirectory | createFile | write | readDirectory | removeDirectoryAll =>
          exact only.1.elim

theorem only_rejectExistingSymlink : Program.Only IsCheck (rejectExistingSymlink text path).run :=
  Program.only_attempt_bind (Program.only_attempt_lift (Program.only_request.mpr trivial))
    fun _ => Program.only_check

theorem only_rejectSymlinkAncestor :
    Program.Only IsCheck (rejectSymlinkAncestor text root path).run :=
  Program.only_attempt_bind only_rejectExistingSymlink fun _ =>
    Program.only_attempt_bind Program.only_check fun _ =>
      Program.only_attempt_forM fun _ _ => only_rejectExistingSymlink

theorem only_ensureRuntimeOrCacheWrite :
    Program.Only IsCheck (ensureRuntimeOrCacheWrite text roots path).run := by
  unfold ensureRuntimeOrCacheWrite
  split
  next =>
    exact Program.only_attempt_bind only_rejectSymlinkAncestor fun _ => only_rejectExistingSymlink
  next =>
    split
    next =>
      exact Program.only_attempt_bind only_rejectSymlinkAncestor fun _ => only_rejectExistingSymlink
    next => exact Program.only_pure

theorem only_declareEntries :
    Program.Only IsCheck (declareEntries text roots destDir found).run := by
  refine Program.only_attempt_bind (Program.only_attempt_foldlM fun entry _ declared => ?_)
    fun _ => Program.only_attempt_bind Program.only_check fun _ => Program.only_pure
  iterate 5 refine Program.only_attempt_bind Program.only_check fun _ => ?_
  exact Program.only_attempt_bind only_ensureRuntimeOrCacheWrite fun _ => Program.only_pure

theorem attempt_of_check {α : Type} {checks : HostAttempt α} (only : Program.Only IsCheck checks.run) :
    attempt (hostFiles view) checks tree = ((attempt (hostFiles view) checks tree).1, tree) :=
  Prod.ext rfl (run_of_check only)

theorem guards_check_bind {α β : Type} {good stopped : HostTree → Prop}
    {finished : β → HostTree → Prop} {checks : HostAttempt α} {next : α → HostAttempt β}
    (only : Program.Only IsCheck checks.run) (here : good tree) (stop : stopped tree)
    (go : ∀ value, attempt (hostFiles view) checks tree = (.ok value, tree) →
      (hostWorld view).Guards good (Ends stopped finished) (next value).run tree) :
    (hostWorld view).Guards good (Ends stopped finished) (checks >>= next).run tree := by
  refine FaultyWorld.guards_attempt_bind (FaultyWorld.guards_of_only
    (fun _ _ _ _ check answers => reads_check check answers) here only ?_)
  change Ends stopped _ (attempt (hostFiles view) checks tree).1 tree
  have whole := @attempt_of_check view tree α checks only
  cases outcome : (attempt (hostFiles view) checks tree).1 with
  | error failure => exact stop
  | ok value => exact go value (by rw [whole, outcome])

theorem plain_of_rejectExistingSymlink {after : HostTree}
    (ran : attempt (hostFiles view) (rejectExistingSymlink text path) tree = (.ok (), after)) :
    isSymlink view tree path = false := by
  obtain ⟨found, middle, asked, required⟩ := Program.attempt_bind_finished.mp ran
  have same : attempt (hostFiles view) (ExceptT.lift (isSymlinkCall path) : HostAttempt Bool) tree =
      (.ok (isSymlink view tree path), tree) := Program.attempt_lift _ _ _
  rw [same] at asked
  rw [Except.ok.inj (congrArg Prod.fst asked)]
  exact Checks.require_eq_ok.mp (congrArg Prod.fst required)

theorem checked_rejectSymlinkAncestor {after : HostTree}
    (ran : attempt (hostFiles view) (rejectSymlinkAncestor text root path) tree = (.ok (), after)) :
    ∀ below, below < path.normalize.steps.length - root.normalize.steps.length →
      isSymlink view tree (path.normalize.upTo (root.normalize.steps.length + below + 1)) = false := by
  obtain ⟨_, first, rejected, rest⟩ := Program.attempt_bind_finished.mp ran
  obtain rfl : tree = first := by
    rw [attempt_of_check only_rejectExistingSymlink] at rejected
    exact congrArg Prod.snd rejected
  obtain ⟨_, second, required, loop⟩ := Program.attempt_bind_finished.mp rest
  obtain rfl : tree = second := congrArg Prod.snd required
  intro below short
  exact plain_of_rejectExistingSymlink (Program.attempt_forM_finished
    (fun _ => run_of_check only_rejectExistingSymlink) loop below (List.mem_range.mpr short))

end

end EmuChef.Executor
