import EmuChef.Executor.Extracted
import EmuChef.Executor.HostCalls

/-! What an extraction that fails touches outside the roots of the sandbox. The removal on the error
path has no check of its own. -/

namespace EmuChef.Executor

open Program (attempt Attempts)
open FaultyWorld (Visits Guards Ends)

/-! The roots, and what is safe to extract. -/

section

variable (text : HostText) (view : HostView) (roots : SandboxRoots) (archive : Archive)
  (destDir : UnixPath) (before : HostTree)

def liesBelow (root : UnixPath) (place : Location) : Bool :=
  match view.resolve before root with
  | .ok here => here.isPrefixOf place
  | .error _ => false

def inside (place : Location) : Bool :=
  liesBelow view before roots.runtimeRoot place || liesBelow view before roots.cacheRoot place

/-- Whenever the extraction fails, nothing outside the roots was made, changed or removed on
the way. -/
def Confined : Prop :=
  ∀ states after failure,
    (hostWorld view).Visits (extractZipToDirectory text roots archive destDir).run before states after
      (.error failure) →
    ∀ state ∈ states, ∀ place, inside view roots before place = false →
      state.node place = before.node place

def accepts : Bool :=
  (attempt (hostFiles view) (ensureRuntimeOrCacheWrite text roots destDir) before).1.isOk

def passes : Bool :=
  match archive with
  | .error _ => false
  | .ok found => (attempt (hostFiles view) (declareEntries text roots destDir found) before).1.isOk

/-- Where a path leads to a directory, or first misses one that can be made, is inside. -/
structure StartsInside (within : Location → Bool) (path : UnixPath) : Prop where
  whole : ∀ here, view.enter before path = .ok here → within here = true
  missing : ∀ count here name, path.steps[count]? = some (.name name) →
    view.enter before (path.upTo count) = .ok here → before.node (here ++ [name]) = none →
    within (here ++ [name]) = true ∧ PathStep.parent ∉ path.steps.drop count

/-- A path to a directory and on from there by names, inside and without links. -/
structure Routed (within : Location → Bool) (path base : UnixPath) (here : Location)
    (names : List String) : Prop where
  path : path = base.join names
  entered : view.enter before base = .ok here
  within : within (here ++ names.take 1) = true
  straight : Straight before here names

/-- The removal of the destination takes nothing outside; and if the destination and the archive
pass the checks, the destination starts inside, as does its normal form if that is another. -/
structure SafeExtraction : Prop where
  sweep : ∀ place, (before.node place).isSome → sweeps view before destDir place = true →
    inside view roots before place = true
  start : accepts text view roots destDir before = true →
    passes text view roots archive destDir before = true →
    StartsInside view before (inside view roots before) destDir
  normal : accepts text view roots destDir before = true →
    passes text view roots archive destDir before = true → ¬destDir.Plain →
    ∃ base here names,
      Routed view before (inside view roots before) destDir.normalize base here names

end

/-! Writing inside. -/

section

variable {text : HostText} {view : HostView} {before state next : HostTree}
  {within : Location → Bool} {destDir base path : UnixPath} {here place : Location}
  {names : List String}

/-- A state that differs from the first inside only, with its directories and links. -/
structure Within (within : Location → Bool) (before state : HostTree) : Prop where
  outside : ∀ place, within place = false → state.node place = before.node place
  grows : LinkTree.Grows before state

theorem Within.start (within : Location → Bool) (before : HostTree) : Within within before before :=
  ⟨fun _ _ => rfl, LinkTree.Grows.refl before⟩

theorem Within.alter (held : Within within before state) (altered : Altered place state next)
    (inside : within place = true) : Within within before next := by
  refine ⟨fun other outside => ?_, fun other directory => ?_, fun other => ?_⟩
  · rw [altered.kept other, held.outside other outside]
    rintro rfl
    rw [inside] at outside
    cases outside
  · have kept := held.grows.directory other directory
    by_cases same : other = place
    · exact same ▸ altered.directory (same ▸ kept)
    · rwa [FileTree.kindAt, altered.kept other same]
  · rw [← held.grows.link other]
    by_cases same : other = place
    · exact same ▸ altered.link
    · rw [LinkTree.linkAt, LinkTree.linkAt, altered.kept other same]

theorem Within.straight (held : Within within before state) (straight : Straight before here names) :
    Straight state here names := fun upper filled leads =>
  (held.grows.link _).trans (straight upper filled leads)

def Closed (within : Location → Bool) : Prop :=
  ∀ place more, within place = true → within (place ++ more) = true

def Keeps {α : Type} (view : HostView) (within : Location → Bool) (before : HostTree)
    (act : HostAttempt α) (state : HostTree) : Prop :=
  (hostWorld view).Guards (Within within before)
    (Ends (Within within before) fun _ => Within within before) act.run state

theorem Keeps.bind {α β : Type} {act : HostAttempt α} {next : α → HostAttempt β}
    (first : Keeps view within before act state)
    (last : ∀ value state, Within within before state →
      Keeps view within before (next value) state) :
    Keeps view within before (act >>= next) state := by
  refine FaultyWorld.guards_attempt_bind (first.mono (fun _ here => here)
    fun outcome state ends => ?_)
  cases outcome with
  | error stop => exact ends
  | ok value => exact last value state ends

theorem Keeps.pure {α : Type} {value : α} (held : Within within before state) :
    Keeps view within before (Pure.pure value) state := held

theorem Keeps.check_bind {α β : Type} {checks : HostAttempt α} {next : α → HostAttempt β}
    (only : Program.Only IsCheck checks.run) (held : Within within before state)
    (go : ∀ value, attempt (hostFiles view) checks state = (.ok value, state) →
      Keeps view within before (next value) state) :
    Keeps view within before (checks >>= next) state :=
  guards_check_bind only held held go

theorem keeps_forM {α : Type} {items : List α} {step : α → HostAttempt Unit}
    (held : Within within before state)
    (each : ∀ passed item rest state, items = passed ++ item :: rest →
      Within within before state → Keeps view within before (step item) state) :
    Keeps view within before (items.forM step) state :=
  @FaultyWorld.guards_forM _ _ _ _ _ (hostWorld view) (Within within before) (Within within before)
    state items step (fun _ => Within within before) held each

theorem guards_orStop {α : Type} {good stopped : HostTree → Prop} {finished : α → HostTree → Prop}
    {answer : HostProgram (Except HostError α)}
    (asked : (hostWorld view).Guards good (Ends stopped finished) answer state) :
    (hostWorld view).Guards good (Ends stopped finished) (orStop text answer).run state := by
  refine FaultyWorld.guards_bind (asked.mono (fun _ here => here) fun outcome state ends => ?_)
  cases outcome with
  | error stop => exact ends
  | ok value => exact ends

theorem ends_of_held {α ε : Type} {outcome : Except ε α} (held : Within within before state) :
    Ends (Within within before) (fun _ => Within within before) outcome state := by
  cases outcome with
  | error stop => exact held
  | ok value => exact held

theorem keeps_createMissing (held : Within within before state)
    (inside : ∀ top, (view.enter state path).isOk = false → view.locate state path = .ok top →
      within top = true) : Keeps view within before (createMissing text path) state := by
  refine FaultyWorld.guards_attempt_bind (FaultyWorld.guards_lift
    (FaultyWorld.guards_request fun response failed after answers => ?_))
  obtain ⟨rfl, rfl⟩ := answers_isDirectory answers
  refine ⟨held, ?_⟩
  cases found : (view.enter after path).isOk with
  | true => exact held
  | false =>
      refine guards_orStop (FaultyWorld.guards_request fun response failed next answers => ?_)
      have kept : Within within before next := by
        rcases answers_makeDirectory answers with rfl | ⟨place, located, altered⟩
        · exact held
        · exact held.alter altered (inside place found located)
      exact ⟨kept, ends_of_held kept⟩

theorem keeps_createDirAll (closed : Closed within) (held : Within within before state)
    (entered : view.enter before base = .ok here) (straight : Straight before here names)
    (inside : names ≠ [] → within (here ++ names.take 1) = true) :
    Keeps view within before (createDirAll text (base.join names)) state := by
  refine keeps_forM held fun passed above rest middle split kept => ?_
  obtain ⟨rfl, short⟩ := range_split split
  refine keeps_createMissing kept fun top missing located => ?_
  by_cases upper : passed.length + 1 ≤ base.steps.length
  · obtain ⟨reached, found⟩ := LinkTree.enter_upTo (kept.grows.enter entered) (passed.length + 1)
    have there : view.enter middle (base.upTo (passed.length + 1)) = .ok reached := found
    rw [upTo_join_left upper, there] at missing
    cases missing
  · obtain ⟨count, total⟩ : ∃ count, passed.length + 1 = base.steps.length + (count + 1) :=
      ⟨passed.length - base.steps.length, by omega⟩
    have total' : passed.length = base.steps.length + count := by omega
    have bound : count < names.length := by
      simp only [UnixPath.join, List.length_append, List.length_map] at short
      omega
    rw [total, upTo_join_right] at located
    have some : names.take (count + 1) ≠ [] := by
      rw [ne_eq, List.take_eq_nil_iff]
      rintro (none | empty)
      · omega
      · rw [empty] at bound
        simp at bound
    have leads : names.take (count + 1) <+: names := List.take_prefix _ _
    have whereTo := locate_straight (kept.grows.enter entered)
      (kept.straight fun upper filled within => straight upper filled (within.trans leads))
      some located
    obtain ⟨more, further⟩ : ∃ more, names.take (count + 1) = names.take 1 ++ more :=
      ⟨(names.drop 1).take count, by rw [Nat.add_comm, List.take_add]⟩
    have filled : names ≠ [] := by
      rintro rfl
      simp at bound
    rw [whereTo, further, ← List.append_assoc]
    exact closed _ _ (inside filled)

theorem keeps_createFile (closed : Closed within) (held : Within within before state)
    (entered : view.enter before base = .ok here) (straight : Straight state here names)
    (filled : names ≠ []) (inside : within (here ++ names.take 1) = true) (entry : ArchiveEntry) :
    Keeps view within before
      (orStop text (createFileCall (base.join names)) >>= copyEntry text entry) state := by
  have whole : within (here ++ names) = true := by
    have split : here ++ names = (here ++ names.take 1) ++ names.drop 1 := by
      rw [List.append_assoc, List.take_append_drop]
    rw [split]
    exact closed _ _ inside
  have noLink : state.linkAt (here ++ names) = none := straight names filled List.prefix_rfl
  have leads : ∀ top, view.locate state (base.join names) = .ok top → top = here ++ names :=
    fun top located => locate_straight (held.grows.enter entered) straight filled located
  refine FaultyWorld.guards_attempt_bind (guards_orStop (FaultyWorld.guards_request
    fun response failed next answers => ?_))
  rcases answers_createFile answers with ⟨error, rfl, rfl⟩ | ⟨place, resolved, rfl, created⟩
  · exact ⟨held, held⟩
  · obtain rfl := leads place (LinkTree.locate_of_resolve
      (fun top located => leads top located ▸ noLink) resolved)
    have kept := held.alter (altered_createFileAt created noLink) whole
    refine ⟨kept, Keeps.bind (keeps_forM kept fun _ chunk _ middle _ there => ?_)
      fun _ final there => ?_⟩
    · refine guards_orStop (FaultyWorld.guards_request fun response failed after answers => ?_)
      have wrote : Within within before after := by
        rcases answers_write answers with rfl | altered
        · exact there
        · exact there.alter altered whole
      exact ⟨wrote, ends_of_held wrote⟩
    · change Ends _ _ _ final
      exact ends_of_held there

theorem keeps_writeEntry {item : ExtractionEntry} (closed : Closed within)
    (held : Within within before state) (declared : DeclaredItem destDir item)
    (routed : Routed view before within destDir.normalize base here names) :
    Keeps view within before (writeEntry text destDir item) state := by
  have target : item.target = base.join (names ++ relativeOf item) := by
    rw [declared.target, routed.path, UnixPath.join_join]
  have filled : names ++ relativeOf item ≠ [] := by simp [declared.proper.1]
  have inside : within (here ++ (names ++ relativeOf item).take 1) = true := by
    by_cases none : names = []
    · have start := routed.within
      rw [none, List.take_nil, List.append_nil] at start
      exact closed _ _ start
    · obtain ⟨first, later, rfl⟩ := List.exists_cons_of_ne_nil none
      exact routed.within
  have normal : item.target.normalize = item.target := by
    rw [declared.target]
    exact (UnixPath.plain_normalize_join _ _).normalize
  refine Keeps.check_bind only_rejectSymlinkAncestor held fun _ checked => ?_
  refine Keeps.check_bind only_rejectExistingSymlink held fun _ _ => ?_
  have straight : Straight state here (names ++ relativeOf item) := by
    refine straight_of_checks (held.grows.enter routed.entered) (held.straight routed.straight)
      fun count short => ?_
    have looked := checked_rejectSymlinkAncestor checked count
    rw [normal, declared.target, Nat.add_assoc, upTo_join_right] at looked
    rw [← UnixPath.join_join, ← routed.path]
    refine looked ?_
    rw [UnixPath.join, List.length_append, List.length_map, Nat.add_sub_cancel_left]
    exact short
  have straightBefore : Straight before here (names ++ relativeOf item) :=
    fun upper some leads => (held.grows.link _).symm.trans (straight upper some leads)
  split
  next =>
    rw [target]
    exact keeps_createDirAll closed held routed.entered straightBefore fun _ => inside
  next =>
    obtain ⟨init, name, split⟩ : ∃ init name, names ++ relativeOf item = init ++ [name] :=
      ⟨_, _, (List.dropLast_append_getLast filled).symm⟩
    have above : item.target.upTo (item.target.steps.length - 1) = base.join init := by
      rw [target, split]
      simp [UnixPath.upTo, UnixPath.join, ← List.append_assoc]
    rw [above, target]
    refine Keeps.bind (keeps_createDirAll closed held routed.entered (fun upper some leads =>
      straightBefore upper some (split ▸ leads.trans (List.prefix_append _ _))) fun some => ?_)
      fun _ middle kept => ?_
    · obtain ⟨first, later, rfl⟩ := List.exists_cons_of_ne_nil some
      rw [split] at inside
      exact inside
    · exact keeps_createFile closed kept routed.entered (kept.straight straightBefore) filled inside
        item.entry

theorem keeps_extractedMembers (held : Within within before state) :
    Keeps view within before (extractedMembers text destDir) state := by
  refine Keeps.bind (guards_orStop (FaultyWorld.guards_request fun response _ after answers => ?_))
    fun listed middle kept => ?_
  · obtain rfl := answers_readDirectory answers
    exact ⟨held, ends_of_held held⟩
  · split
    next => exact kept
    next => exact kept

end

/-! Where a destination starts. -/

section

variable {text : HostText} {view : HostView} {roots : SandboxRoots} {archive : Archive}
  {before after : HostTree} {within : Location → Bool} {destDir path : UnixPath} {place : Location}

structure Blocked (view : HostView) (before : HostTree) (path : UnixPath) (count : Nat)
    (here : Location) (name : String) : Prop where
  step : path.steps[count]? = some (.name name)
  entered : view.enter before (path.upTo count) = .ok here
  present : (before.node (here ++ [name])).isSome
  stopped : (view.enter before (path.upTo (count + 1))).isOk = false

theorem enter_upTo_succ {count : Nat} {step : PathStep} (found : path.steps[count]? = some step) :
    view.enter before (path.upTo (count + 1)) = (do
      let here ← view.enter before (path.upTo count)
      before.stepInto (before.follow view.depth) here step) := by
  have steps : path.steps.take (count + 1) = path.steps.take count ++ [step] := by
    rw [List.take_add_one, found]
    rfl
  rw [HostView.enter, HostView.enter, LinkTree.enter, LinkTree.enter, UnixPath.upTo, UnixPath.upTo]
  dsimp only
  rw [steps, List.foldlM_append]
  refine congrArg (fun later => _ >>= later) (funext fun here => ?_)
  rw [List.foldlM_cons]
  exact bind_pure _

theorem exists_first_stop {stop : WalkError} (failed : view.enter before path = .error stop) :
    ∃ count here name, path.steps[count]? = some (.name name) ∧
      view.enter before (path.upTo count) = .ok here ∧
      (view.enter before (path.upTo (count + 1))).isOk = false := by
  by_contra none
  push Not at none
  have all : ∀ count, count ≤ path.steps.length →
      ∃ here, view.enter before (path.upTo count) = .ok here := by
    intro count
    induction count with
    | zero => exact fun _ => ⟨_, rfl⟩
    | succ count ih =>
        intro bound
        obtain ⟨here, entered⟩ := ih (by omega)
        have found : path.steps[count]? = some path.steps[count] := List.getElem?_eq_getElem (by omega)
        cases step : path.steps[count] with
        | parent =>
            rw [step] at found
            rw [enter_upTo_succ found, entered]
            exact ⟨here.dropLast, rfl⟩
        | name name =>
            rw [step] at found
            have ok := none count here name found entered
            cases next : view.enter before (path.upTo (count + 1)) with
            | error stop =>
                rw [next] at ok
                exact absurd rfl ok
            | ok there => exact ⟨there, rfl⟩
  obtain ⟨here, entered⟩ := all path.steps.length (Nat.le_refl _)
  rw [show path.upTo path.steps.length = path by rw [UnixPath.upTo, List.take_length]] at entered
  cases entered.symm.trans failed

theorem straight_of_missing {here : Location} {name : String} {names : List String}
    (missing : before.node (here ++ [name]) = none) : Straight before here (name :: names) := by
  intro upper filled leads
  rcases List.prefix_cons_iff.mp leads with none | ⟨rest, rfl, _⟩
  · exact absurd none filled
  · rw [LinkTree.linkAt]
    cases found : before.node (here ++ name :: rest) with
    | none => rfl
    | some node =>
        exfalso
        by_cases none : rest = []
        · rw [none, missing] at found
          cases found
        · have directory := @FileTree.kindAt_above _ _ before (here ++ [name]) rest (by simp) none
            (by simp [found])
          rw [FileTree.kindAt, missing] at directory
          cases directory

theorem routed_or_blocked (starts : StartsInside view before within path) :
    (∃ base here names, Routed view before within path base here names) ∨
      ∃ count here name, Blocked view before path count here name := by
  cases reached : view.enter before path with
  | ok here =>
      refine .inl ⟨path, here, [], (UnixPath.join_nil path).symm, reached, ?_, ?_⟩
      · rw [List.take_nil, List.append_nil]
        exact starts.whole here reached
      · exact fun upper filled leads => absurd (List.prefix_nil.mp leads) filled
  | error stop =>
      obtain ⟨count, here, name, step, entered, stopped⟩ := exists_first_stop reached
      cases found : before.node (here ++ [name]) with
      | some node => exact .inr ⟨count, here, name, step, entered, by rw [found]; rfl, stopped⟩
      | none =>
          obtain ⟨inside, down⟩ := starts.missing count here name step entered found
          have split : path.steps.drop count = .name name :: path.steps.drop (count + 1) := by
            obtain ⟨bound, same⟩ := List.getElem?_eq_some_iff.mp step
            rw [List.drop_eq_getElem_cons bound, same]
          have plain : UnixPath.Plain ⟨false, path.steps.drop (count + 1)⟩ := fun parent =>
            down (split ▸ List.mem_cons_of_mem _ parent)
          obtain ⟨names, same⟩ := plain.exists_names
          have tail : path.steps.drop (count + 1) = names.map .name := congrArg UnixPath.steps same
          refine .inl ⟨path.upTo count, here, name :: names, ?_, entered, inside,
            straight_of_missing found⟩
          rw [UnixPath.upTo, UnixPath.join, List.map_cons, ← tail, ← split, List.take_append_drop]

def Stuck {α : Type} (view : HostView) (before : HostTree) (act : HostAttempt α) : Prop :=
  (hostWorld view).Guards (· = before) (Ends (· = before) fun _ _ => False) act.run before

theorem answers_makeDirectory_present {failed : Bool} {response : Except HostError Unit}
    (located : view.locate before path = .ok place) (present : (before.node place).isSome)
    (answers : (hostWorld view).Answers before ⟨.makeDirectory path, response, failed⟩ after) :
    (∃ error, response = .error error) ∧ after = before := by
  cases answers with
  | works worked =>
      rcases worked with handled | impossible
      · change atPlace before (view.locate before path) _ = _ at handled
        rw [located] at handled
        change settle before () (makeDirectoryAt before place) = _ at handled
        rw [makeDirectoryAt, if_pos (.inr present)] at handled
        exact ⟨⟨_, (congrArg Prod.fst handled).symm⟩, (congrArg Prod.snd handled).symm⟩
      · exact impossible.elim
  | fails failed => exact ⟨failed, rfl⟩

theorem locate_upTo_succ {count : Nat} {here : Location} {name : String}
    (step : path.steps[count]? = some (.name name))
    (entered : view.enter before (path.upTo count) = .ok here) :
    view.locate before (path.upTo (count + 1)) = .ok (here ++ [name]) := by
  have whole : path.upTo (count + 1) = (path.upTo count).join [name] := by
    rw [UnixPath.upTo, UnixPath.join, UnixPath.upTo, List.take_add_one, step]
    rfl
  rw [whole]
  exact locate_beneath entered fun upper filled leads => absurd (List.prefix_nil.mp leads) filled

theorem stuck_createDirAll {count : Nat} {here : Location} {name : String}
    (blocked : Blocked view before destDir count here name) :
    Stuck view before (createDirAll text destDir) := by
  obtain ⟨bound, _⟩ := List.getElem?_eq_some_iff.mp blocked.step
  have loop := @FaultyWorld.guards_forM _ _ _ _ _ (hostWorld view) (· = before) (· = before) before
    (List.range destDir.steps.length) (fun above => createMissing text (destDir.upTo (above + 1)))
    (fun passed state => state = before ∧ passed.length ≤ count) ⟨rfl, Nat.zero_le _⟩
    (fun passed above rest state split held => by
      obtain ⟨rfl, _⟩ := range_split split
      obtain ⟨rfl, early⟩ := held
      refine FaultyWorld.guards_attempt_bind (FaultyWorld.guards_lift
        (FaultyWorld.guards_request fun response failed after answers => ?_))
      obtain ⟨rfl, rfl⟩ := answers_isDirectory answers
      refine ⟨rfl, ?_⟩
      rcases Nat.lt_or_eq_of_le early with sooner | here
      · obtain ⟨reached, found⟩ := LinkTree.enter_upTo blocked.entered (passed.length + 1)
        have same : (destDir.upTo count).upTo (passed.length + 1) =
            destDir.upTo (passed.length + 1) := by
          rw [UnixPath.upTo, UnixPath.upTo, UnixPath.upTo, List.take_take, Nat.min_eq_left sooner]
        have there : view.enter after (destDir.upTo (passed.length + 1)) = .ok reached := same ▸ found
        rw [there, if_pos (show (Except.isOk (.ok reached : Except WalkError Location)) = true from rfl)]
        refine ⟨rfl, ?_⟩
        rw [List.length_append, List.length_singleton]
        exact sooner
      · rw [here, blocked.stopped, if_neg (by simp)]
        refine guards_orStop (FaultyWorld.guards_request fun response failed next answers => ?_)
        obtain ⟨⟨error, rfl⟩, rfl⟩ := answers_makeDirectory_present
          (locate_upTo_succ blocked.step blocked.entered) blocked.present answers
        exact ⟨rfl, rfl⟩)
  refine FaultyWorld.Guards.mono loop (fun _ here => here) fun outcome state ends => ?_
  cases outcome with
  | error stop => exact ends
  | ok value =>
      have impossible := ends.2
      rw [List.length_range] at impossible
      exact absurd impossible (by omega)

end

/-! Whole extractions. -/

section

variable {text : HostText} {view : HostView} {roots : SandboxRoots} {archive : Archive}
  {before state after : HostTree} {within : Location → Bool} {destDir base base' : UnixPath}
  {here here' place top : Location} {names names' : List String}

theorem declareEntries_declared {found : List (Except String ArchiveEntry)}
    {entries : List ExtractionEntry}
    (ran : attempt (hostFiles view) (declareEntries text roots destDir found) before =
      (.ok entries, before)) : DeclaredEntries destDir entries := by
  have traced := Program.runs_trace (hostFiles view)
    (declareEntries text roots destDir found).run before
  rw [show (Program.run (hostFiles view) (declareEntries text roots destDir found).run before).1 =
    .ok entries from congrArg Prod.fst ran] at traced
  exact declareEntries_ok traced

theorem keeps_inner (closed : Closed within)
    (routed : Routed view before within destDir base here names)
    (normal : Routed view before within destDir.normalize base' here' names') :
    Keeps view within before (extractZipToDirectoryInner text roots archive destDir) before := by
  have held := Within.start within before
  refine Keeps.check_bind only_ensureRuntimeOrCacheWrite held fun _ _ => ?_
  refine Keeps.check_bind Program.only_check held fun found _ => ?_
  refine Keeps.check_bind only_declareEntries held fun entries ran => ?_
  have declared := declareEntries_declared ran
  refine Keeps.bind ?_ fun _ made kept => Keeps.bind (keeps_forM kept
    fun passed item rest middle split there => ?_) fun _ final there => keeps_extractedMembers there
  · rw [routed.path]
    exact keeps_createDirAll closed held routed.entered routed.straight fun _ => routed.within
  · exact keeps_writeEntry closed there (declared.items item (by simp [split])) normal

theorem stuck_inner (refused : accepts text view roots destDir before = true →
      passes text view roots archive destDir before = true →
      Stuck view before (createDirAll text destDir)) :
    Stuck view before (extractZipToDirectoryInner text roots archive destDir) := by
  refine guards_check_bind only_ensureRuntimeOrCacheWrite rfl rfl fun _ allowed => ?_
  refine guards_check_bind Program.only_check rfl rfl fun found opened => ?_
  refine guards_check_bind only_declareEntries rfl rfl fun entries declared => ?_
  have accepted : accepts text view roots destDir before = true := by
    rw [accepts, allowed]
    rfl
  have passed : passes text view roots archive destDir before = true := by
    cases archive with
    | error stop => cases congrArg Prod.fst opened
    | ok listed =>
        obtain rfl : listed = found := Except.ok.inj (congrArg Prod.fst opened)
        rw [passes, declared]
        rfl
  refine FaultyWorld.guards_attempt_bind (FaultyWorld.Guards.mono (refused accepted passed)
    (fun _ here => here) fun outcome state ends => ?_)
  cases outcome with
  | error stop => exact ends
  | ok value => exact absurd ends id

theorem closed_inside : Closed (inside view roots before) := by
  intro place more lies
  have below : ∀ root, liesBelow view before root place = true →
      liesBelow view before root (place ++ more) = true := by
    intro root lies
    unfold liesBelow at lies ⊢
    cases resolved : view.resolve before root with
    | error stop =>
        rw [resolved] at lies
        cases lies
    | ok top =>
        rw [resolved] at lies
        dsimp only at lies ⊢
        rw [List.isPrefixOf_iff_prefix] at lies ⊢
        exact lies.trans (List.prefix_append _ _)
  rw [inside, Bool.or_eq_true] at lies ⊢
  exact lies.imp (below _) (below _)

/-- The state in which a failed extraction removes its destination: unchanged outside, and what the
removal takes is inside. -/
structure Removable (view : HostView) (within : Location → Bool) (before : HostTree)
    (destDir : UnixPath) (state : HostTree) : Prop where
  outside : ∀ place, within place = false → state.node place = before.node place
  taken : ∀ place, (state.node place).isSome → sweeps view state destDir place = true →
    within place = true

theorem Removable.removed (removable : Removable view within before destDir state)
    (removed : ∀ place, after.node place = state.node place ∨
      (sweeps view state destDir place = true ∧ after.node place = none)) :
    ∀ place, within place = false → after.node place = before.node place := by
  intro place outside
  rw [← removable.outside place outside]
  rcases removed place with same | ⟨swept, gone⟩
  · exact same
  · cases found : state.node place with
    | none => exact gone
    | some node =>
        rw [removable.taken place (by rw [found]; rfl) swept] at outside
        cases outside

theorem removable_start
    (sweep : ∀ place, (before.node place).isSome → sweeps view before destDir place = true →
      within place = true) : Removable view within before destDir before :=
  ⟨fun _ _ => rfl, sweep⟩

theorem takes_below (taken : takes state destDir top place = true) :
    ∃ more, place = top ++ more := by
  unfold takes at taken
  split at taken
  next => exact ⟨[], by simpa using taken⟩
  next =>
    simp only [Bool.and_eq_true, List.isPrefixOf_iff_prefix] at taken
    exact taken.1.2.imp fun _ same => same.symm

theorem takes_before {more : List String} (held : Within within before state)
    (present : (before.node (top ++ more)).isSome) (outside : within (top ++ more) = false)
    (taken : takes state destDir top (top ++ more) = true) :
    takes before destDir top (top ++ more) = true := by
  unfold takes at taken ⊢
  rw [held.grows.link] at taken
  split
  next link => rwa [if_pos link] at taken
  next link =>
    rw [if_neg link] at taken
    have directory : before.directoryAt top = true := by
      simp only [Bool.and_eq_true, LinkTree.directoryAt, decide_eq_true_eq] at taken ⊢
      rcases taken.1.1 with root | kind
      · exact .inl root
      · right
        by_cases whole : more = []
        · rw [whole, List.append_nil] at outside
          rwa [FileTree.kindAt, held.outside top outside] at kind
        · by_cases root : top = []
          · rw [root, FileTree.kindAt, node_root] at kind
            cases kind
          · exact FileTree.kindAt_above root whole present
    simp only [Bool.and_eq_true] at taken ⊢
    exact ⟨⟨directory, taken.1.2⟩, taken.2⟩

theorem Within.removable (held : Within within before state) (closed : Closed within)
    (routed : Routed view before within destDir base here names)
    (sweep : ∀ place, (before.node place).isSome → sweeps view before destDir place = true →
      within place = true) : Removable view within before destDir state := by
  refine ⟨held.outside, fun place present swept => ?_⟩
  by_contra outside
  rw [Bool.not_eq_true] at outside
  unfold sweeps at swept
  cases located : view.locate state destDir with
  | error stop =>
      rw [located] at swept
      cases swept
  | ok top =>
      rw [located] at swept
      dsimp only at swept
      obtain ⟨more, rfl⟩ := takes_below swept
      by_cases none : names = []
      · -- The destination was there before, and led to the same place.
        have entered : view.enter before destDir = .ok here := by
          rw [routed.path, none, UnixPath.join_nil]
          exact routed.entered
        obtain ⟨first, found⟩ := LinkTree.exists_locate entered
        obtain rfl : first = top := Except.ok.inj ((held.grows.locate found).symm.trans located)
        have there : (before.node (first ++ more)).isSome := by
          rwa [← held.outside _ outside]
        have swept' : sweeps view before destDir (first ++ more) = true := by
          unfold sweeps
          rw [show view.locate before destDir = .ok first from found]
          exact takes_before held there outside swept
        rw [sweep _ there swept'] at outside
        cases outside
      · rw [routed.path] at located
        obtain rfl := locate_straight (held.grows.enter routed.entered)
          (held.straight routed.straight) none located
        have split : here ++ names ++ more = (here ++ names.take 1) ++ (names.drop 1 ++ more) := by
          rw [List.append_assoc, List.append_assoc, ← List.append_assoc (names.take 1),
            List.take_append_drop]
        rw [split, closed _ _ routed.within] at outside
        cases outside

theorem guards_cleanup {failure : StepFailure}
    (removable : Removable view within before destDir state) :
    (hostWorld view).Guards (fun state => ∀ place, within place = false →
        state.node place = before.node place) (fun _ _ => True)
      (do
        let cleanup ← removeHostStaging destDir
        pure (combineOperationAndCleanup (.error failure : Except StepFailure (List UnixPath)) cleanup))
      state := by
  refine FaultyWorld.guards_bind (FaultyWorld.guards_bind (FaultyWorld.guards_request
    fun response failed after answers => ⟨removable.removed (answers_removeDirectoryAll answers), ?_⟩))
  cases response with
  | ok value => trivial
  | error stop => cases stop <;> trivial

theorem confined_of_removable
    (guarded : (hostWorld view).Guards (fun state => ∀ place, inside view roots before place = false →
        state.node place = before.node place)
      (Ends (Removable view (inside view roots before) before destDir) fun _ _ => True)
      (extractZipToDirectoryInner text roots archive destDir).run before) :
    Confined text view roots archive destDir before := by
  intro states after failure visits
  have whole : (hostWorld view).Guards (fun state => ∀ place,
      inside view roots before place = false → state.node place = before.node place) (fun _ _ => True)
      (extractZipToDirectory text roots archive destDir).run before := by
    refine FaultyWorld.guards_bind (guarded.mono (fun _ here => here) fun outcome state ends => ?_)
    cases outcome with
    | error stop => exact guards_cleanup ends
    | ok value => trivial
  exact (FaultyWorld.guards_sound visits whole).1

theorem SafeExtraction.confined (safe : SafeExtraction text view roots archive destDir before) :
    Confined text view roots archive destDir before := by
  have stuck : Stuck view before (extractZipToDirectoryInner text roots archive destDir) →
      Confined text view roots archive destDir before := fun held => by
    refine confined_of_removable (FaultyWorld.Guards.mono held
      (fun state same place _ => by rw [same]) fun outcome state ends => ?_)
    cases outcome with
    | error stop =>
        rw [show state = before from ends]
        exact removable_start safe.sweep
    | ok value => exact absurd ends id
  by_cases checked : accepts text view roots destDir before = true ∧
      passes text view roots archive destDir before = true
  · rcases routed_or_blocked (safe.start checked.1 checked.2) with
      ⟨base, here, names, routed⟩ | ⟨count, here, name, blocked⟩
    · have normal : ∃ base here names,
          Routed view before (inside view roots before) destDir.normalize base here names := by
        by_cases plain : destDir.Plain
        · rw [plain.normalize]
          exact ⟨base, here, names, routed⟩
        · exact safe.normal checked.1 checked.2 plain
      obtain ⟨base', here', names', normal⟩ := normal
      refine confined_of_removable (FaultyWorld.Guards.mono
        (keeps_inner closed_inside routed normal) (fun _ held => held.outside)
        fun outcome state ends => ?_)
      cases outcome with
      | error stop => exact Within.removable ends closed_inside routed safe.sweep
      | ok value => trivial
    · exact stuck (stuck_inner fun _ _ => stuck_createDirAll blocked)
  · exact stuck (stuck_inner fun accepted passed => absurd ⟨accepted, passed⟩ checked)

end

/-! Extractions that touch what is outside. -/

section

variable {text : HostText} {view : HostView} {roots : SandboxRoots} {archive : Archive}
  {before state middle : HostTree} {destDir : UnixPath} {here place : Location} {count : Nat}
  {name : String}

theorem still_hostWorld (state : HostTree) : (hostWorld view).Still state := by
  intro operation
  cases operation with
  | symlinkMetadata path => exact ⟨_, false, .works (.inl rfl)⟩
  | isDirectory path => exact ⟨_, false, .works (.inl rfl)⟩
  | makeDirectory path => exact ⟨_, true, .fails ⟨.other, rfl⟩⟩
  | createFile path => exact ⟨_, true, .fails ⟨.other, rfl⟩⟩
  | write file bytes => exact ⟨_, true, .fails ⟨.other, rfl⟩⟩
  | readDirectory path => exact ⟨_, true, .fails ⟨.other, rfl⟩⟩
  | removeDirectoryAll path => exact ⟨_, true, .fails ⟨.other, rfl⟩⟩

theorem canStop_extractedMembers :
    (hostWorld view).CanStop (extractedMembers text destDir) state := by
  refine FaultyWorld.CanStop.first ⟨[state], .new (text.error .other), ?_⟩
  exact .call (.fails ⟨.other, rfl⟩) (.done _ _)

theorem canStop_inner :
    (hostWorld view).CanStop (extractZipToDirectoryInner text roots archive destDir) state := by
  have still := @still_hostWorld view state
  exact .last still fun _ => .last still fun _ => .last still fun _ => .last still fun _ =>
    .last still fun _ => canStop_extractedMembers

theorem visits_cleanup {states : List HostTree} {failure : StepFailure}
    (stopped : (hostWorld view).Visits (extractZipToDirectoryInner text roots archive destDir).run
      before states middle (.error failure)) :
    ∃ last, (hostWorld view).Visits (extractZipToDirectory text roots archive destDir).run before
      (states ++ [swept view middle destDir]) (swept view middle destDir) (.error last) := by
  have whole : ∀ cleanup : Except StepFailure Unit, ∃ last,
      combineOperationAndCleanup (.error failure : Except StepFailure (List UnixPath)) cleanup =
        .error last := by
    intro cleanup
    cases cleanup <;> exact ⟨_, rfl⟩
  have removal : ∃ last, (hostWorld view).Visits (do
      let cleanup ← removeHostStaging destDir
      pure (combineOperationAndCleanup
        (.error failure : Except StepFailure (List UnixPath)) cleanup)) middle
      [swept view middle destDir] (swept view middle destDir) (.error last) := by
    cases outcome : removalOutcome view middle destDir with
    | ok value =>
        obtain ⟨last, same⟩ := whole (.ok ())
        refine ⟨last, .call (.works (.inl (congrArg (·, _) outcome))) ?_⟩
        rw [← same]
        exact .done _ _
    | error stop =>
        cases stop with
        | missing =>
            obtain ⟨last, same⟩ := whole (.ok ())
            refine ⟨last, .call (.works (.inl (congrArg (·, _) outcome))) ?_⟩
            rw [← same]
            exact .done _ _
        | «exists» | notDirectory | isDirectory | loop | other =>
            obtain ⟨last, same⟩ := whole (.error hostStagingCleanupFailure)
            refine ⟨last, .call (.works (.inl (congrArg (·, _) outcome))) ?_⟩
            rw [← same]
            exact .done _ _
  obtain ⟨last, removed⟩ := removal
  exact ⟨last, FaultyWorld.visits_bind stopped removed⟩

theorem Confined.sweep (confined : Confined text view roots archive destDir before)
    (present : (before.node place).isSome) (taken : sweeps view before destDir place = true) :
    inside view roots before place = true := by
  obtain ⟨states, failure, stopped⟩ := @canStop_inner text view roots archive before destDir
  obtain ⟨last, visits⟩ := visits_cleanup stopped
  by_contra outside
  rw [Bool.not_eq_true] at outside
  have same := confined _ _ _ visits (swept view before destDir) (by simp) place outside
  rw [swept, FileTree.node_prune, taken] at same
  rw [← same] at present
  cases present

theorem visits_attempt {α : Type} {act : HostAttempt α} {value : α}
    (ran : attempt (hostFiles view) act before = (.ok value, middle)) :
    ∃ states, (hostWorld view).Visits act.run before states middle (.ok value) := by
  obtain ⟨states, visits⟩ := @FaultyWorld.visits_run _ _ _ _ (hostWorld view) (hostFiles view)
    (fun _ _ => .inl rfl) act.run before
  rw [show Program.run (hostFiles view) act.run before = (.ok value, middle) from ran] at visits
  exact ⟨states, visits⟩

theorem attempt_of_accepts (accepted : accepts text view roots destDir before = true) :
    attempt (hostFiles view) (ensureRuntimeOrCacheWrite text roots destDir) before =
      (.ok (), before) := by
  rw [attempt_of_check only_ensureRuntimeOrCacheWrite]
  unfold accepts at accepted
  cases outcome : (attempt (hostFiles view)
      (ensureRuntimeOrCacheWrite text roots destDir) before).1 with
  | error stop =>
      rw [outcome] at accepted
      cases accepted
  | ok value => rfl

theorem attempt_of_passes (passed : passes text view roots archive destDir before = true) :
    ∃ found entries, archive = .ok found ∧
      attempt (hostFiles view) (declareEntries text roots destDir found) before =
        (.ok entries, before) := by
  cases archive with
  | error stop => cases passed
  | ok found =>
      have whole := @attempt_of_check view before _ (declareEntries text roots destDir found)
        only_declareEntries
      change (attempt (hostFiles view) (declareEntries text roots destDir found) before).1.isOk =
        true at passed
      cases outcome : (attempt (hostFiles view)
          (declareEntries text roots destDir found) before).1 with
      | error stop =>
          rw [outcome] at passed
          cases passed
      | ok entries => exact ⟨found, entries, rfl, by rw [whole, outcome]⟩

theorem attempt_first_missing (working : before.directoryAt view.workingDirectory = true)
    (step : destDir.steps[count]? = some (.name name))
    (entered : view.enter before (destDir.upTo count) = .ok here)
    (missing : before.node (here ++ [name]) = none) :
    attempt (hostFiles view) ((List.range count).forM fun above =>
        createMissing text (destDir.upTo (above + 1))) before = (.ok (), before) ∧
      ∃ made, attempt (hostFiles view) (createMissing text (destDir.upTo (count + 1))) before =
        (.ok (), made) ∧ made.node (here ++ [name]) = some (.directory ()) := by
  constructor
  · obtain ⟨final, ran, rfl⟩ := @Program.attempt_forM_ok _ _ _ _ _ (hostFiles view)
      (fun above => createMissing text (destDir.upTo (above + 1))) (List.range count) before
      (fun _ state => state = before) rfl
      (fun passed above rest state split same => by
        obtain ⟨rfl, short⟩ := range_split split
        obtain ⟨reached, found⟩ := LinkTree.enter_upTo entered (passed.length + 1)
        rw [UnixPath.upTo, UnixPath.upTo, List.take_take, Nat.min_eq_left short] at found
        rw [same]
        exact ⟨before, createMissing_present found, rfl⟩)
    exact ran
  · have whole : destDir.upTo (count + 1) = (destDir.upTo count).join ([] ++ [name]) := by
      rw [UnixPath.upTo, UnixPath.join, UnixPath.upTo, List.take_add_one, step]
      rfl
    obtain ⟨made, ran, changed⟩ := @createMissing_beneath text view before (destDir.upTo count)
      here [] name entered (LinkTree.enter_directoryAt working entered)
      (fun upper filled leads => absurd (List.prefix_nil.mp leads) filled) (.inl missing)
    exact ⟨made, whole ▸ ran, by rw [changed]; exact if_pos rfl⟩

theorem createDirAll_split (found : count < destDir.steps.length) :
    ∃ rest : HostAttempt Unit, createDirAll text destDir = (do
      (List.range count).forM fun above => createMissing text (destDir.upTo (above + 1))
      createMissing text (destDir.upTo (count + 1))
      rest) := by
  obtain ⟨more, total⟩ : ∃ more, destDir.steps.length = count + (more + 1) :=
    ⟨destDir.steps.length - count - 1, by omega⟩
  refine ⟨((List.range more).map fun later => count + (later + 1)).forM fun above =>
    createMissing text (destDir.upTo (above + 1)), ?_⟩
  rw [createDirAll, total, List.range_add, List.range_succ_eq_map, List.map_cons, List.map_map]
  exact List.forM_append

theorem visits_first_missing (working : before.directoryAt view.workingDirectory = true)
    (accepted : accepts text view roots destDir before = true)
    (passed : passes text view roots archive destDir before = true)
    (step : destDir.steps[count]? = some (.name name))
    (entered : view.enter before (destDir.upTo count) = .ok here)
    (missing : before.node (here ++ [name]) = none) :
    ∃ states made after failure, made ∈ states ∧ made.node (here ++ [name]) ≠ none ∧
      (hostWorld view).Visits (extractZipToDirectoryInner text roots archive destDir).run before
        states after (.error failure) := by
  obtain ⟨found, entries, rfl, declared⟩ := attempt_of_passes passed
  obtain ⟨bound, _⟩ := List.getElem?_eq_some_iff.mp step
  obtain ⟨upper, made, making, present⟩ := @attempt_first_missing text view before destDir here count
    name working step entered missing
  obtain ⟨first, allowed⟩ := visits_attempt (attempt_of_accepts accepted)
  obtain ⟨second, passing⟩ := visits_attempt declared
  obtain ⟨third, walked⟩ := visits_attempt upper
  obtain ⟨fourth, makes⟩ := visits_attempt making
  obtain ⟨rest, split⟩ := @createDirAll_split text destDir count bound
  have still := @still_hostWorld view made
  have member : made ∈ fourth := by
    rcases makes.after_mem with same | there
    · rw [← same, present] at missing
      cases missing
    · exact there
  obtain ⟨fifth, failure, stopped⟩ : (hostWorld view).CanStop (rest >>= fun _ => do
      entries.forM (writeEntry text destDir)
      extractedMembers text destDir) made :=
    .last still fun _ => .last still fun _ => canStop_extractedMembers
  have writes : (hostWorld view).Visits (do
      createDirAll text destDir
      entries.forM (writeEntry text destDir)
      extractedMembers text destDir : HostAttempt (List UnixPath)).run before
      (third ++ (fourth ++ fifth)) made (.error failure) := by
    rw [split, bind_assoc]
    refine FaultyWorld.visits_attempt_bind walked ?_
    rw [bind_assoc]
    exact FaultyWorld.visits_attempt_bind makes stopped
  refine ⟨first ++ (second ++ (third ++ (fourth ++ fifth))), made, made, failure, by simp [member],
    by simp [present], ?_⟩
  have declares : (hostWorld view).Visits (do
      let entries ← declareEntries text roots destDir found
      createDirAll text destDir
      entries.forM (writeEntry text destDir)
      extractedMembers text destDir : HostAttempt (List UnixPath)).run before
      (second ++ (third ++ (fourth ++ fifth))) made (.error failure) :=
    FaultyWorld.visits_attempt_bind passing writes
  exact FaultyWorld.visits_attempt_bind allowed declares

theorem Confined.missing (confined : Confined text view roots archive destDir before)
    (working : before.directoryAt view.workingDirectory = true)
    (accepted : accepts text view roots destDir before = true)
    (passed : passes text view roots archive destDir before = true)
    (step : destDir.steps[count]? = some (.name name))
    (entered : view.enter before (destDir.upTo count) = .ok here)
    (missing : before.node (here ++ [name]) = none) :
    inside view roots before (here ++ [name]) = true := by
  obtain ⟨states, made, after, failure, member, present, stopped⟩ :=
    visits_first_missing working accepted passed step entered missing
  obtain ⟨last, visits⟩ := visits_cleanup stopped
  by_contra outside
  rw [Bool.not_eq_true] at outside
  have same := confined _ _ _ visits made (List.mem_append_left _ member) _ outside
  exact present (same.trans missing)

theorem plain_of_accepts (accepted : accepts text view roots destDir before = true) :
    isSymlink view before destDir = false := by
  have ran := attempt_of_accepts accepted
  unfold ensureRuntimeOrCacheWrite at ran
  split at ran
  next =>
    obtain ⟨_, middle, ancestors, rest⟩ := Program.attempt_bind_finished.mp ran
    rw [attempt_of_check only_rejectSymlinkAncestor] at ancestors
    obtain rfl : before = middle := congrArg Prod.snd ancestors
    exact plain_of_rejectExistingSymlink rest
  next =>
    split at ran
    next =>
      obtain ⟨_, middle, ancestors, rest⟩ := Program.attempt_bind_finished.mp ran
      rw [attempt_of_check only_rejectSymlinkAncestor] at ancestors
      obtain rfl : before = middle := congrArg Prod.snd ancestors
      exact plain_of_rejectExistingSymlink rest
    next => cases congrArg Prod.fst ran

theorem Confined.whole (confined : Confined text view roots archive destDir before)
    (accepted : accepts text view roots destDir before = true) (plain : destDir.Plain)
    (filled : destDir.steps ≠ []) (entered : view.enter before destDir = .ok here) :
    inside view roots before here = true := by
  obtain ⟨names, same⟩ := plain.exists_names
  have steps : destDir.steps = names.map .name := congrArg UnixPath.steps same
  obtain ⟨init, name, rfl⟩ : ∃ init name, names = init ++ [name] :=
    ⟨_, _, (List.dropLast_append_getLast fun none => filled (by rw [steps, none]; rfl)).symm⟩
  have step : destDir.steps[init.length]? = some (.name name) := by simp [steps]
  have all : destDir.upTo (init.length + 1) = destDir := by
    rw [UnixPath.upTo, List.take_of_length_le (by simp [steps])]
  have stepped := @enter_upTo_succ view before destDir init.length _ step
  rw [all, entered] at stepped
  obtain ⟨above, upper⟩ := LinkTree.enter_upTo entered init.length
  rw [show view.enter before (destDir.upTo init.length) = .ok above from upper] at stepped
  have located := locate_upTo_succ step upper
  rw [all] at located
  rcases LinkTree.stepInto_name_ok.mp stepped.symm with ⟨directory, rfl⟩ | ⟨target, link, _⟩
  · have present : (before.node (above ++ [name])).isSome := by
      rw [FileTree.kindAt] at directory
      cases found : before.node (above ++ [name]) with
      | none => simp [found] at directory
      | some node => rfl
    refine confined.sweep present ?_
    have isDirectory : before.directoryAt (above ++ [name]) = true := by
      rw [LinkTree.directoryAt, decide_eq_true_eq]
      exact .inr directory
    rw [sweeps, located]
    dsimp only
    rw [takes, linkAt_directory isDirectory, if_neg (by simp), isDirectory, endsInName, steps]
    simp [List.isPrefixOf_iff_prefix]
  · have real := plain_of_accepts accepted
    rw [isSymlink, located] at real
    dsimp only at real
    rw [link] at real
    cases real

/-- A failed extraction touches nothing outside the roots if the removal of the destination takes
nothing outside, and the destination, where the checks let it through, starts inside. Where the
destination that the checks let through only goes down, this is needed as well. -/
theorem extraction_confined_iff :
    (SafeExtraction text view roots archive destDir before →
      Confined text view roots archive destDir before) ∧
    (before.directoryAt view.workingDirectory = true →
      (accepts text view roots destDir before = true →
        passes text view roots archive destDir before = true →
          destDir.Plain ∧ destDir.steps ≠ []) →
      Confined text view roots archive destDir before →
        SafeExtraction text view roots archive destDir before) := by
  refine ⟨SafeExtraction.confined, fun working down confined => ⟨fun place present taken =>
    confined.sweep present taken, fun accepted passed => ⟨fun here entered => ?_,
    fun count here name step entered missing => ⟨?_, fun parent => ?_⟩⟩,
    fun accepted passed winding => absurd (down accepted passed).1 winding⟩⟩
  · obtain ⟨plain, filled⟩ := down accepted passed
    exact confined.whole accepted plain filled entered
  · exact confined.missing working accepted passed step entered missing
  · exact (down accepted passed).1 (List.mem_of_mem_drop parent)

end

theorem startsInside_unpackDir :
    StartsInside workView workTree (inside workView absoluteRoots workTree)
      (unpackDir absoluteRoots) := by
  have absent : (workView.enter workTree (unpackDir absoluteRoots)).isOk = false := by
    decide +kernel
  have deeper : (workView.enter workTree ((unpackDir absoluteRoots).upTo 2)).isOk = false ∧
      (workView.enter workTree ((unpackDir absoluteRoots).upTo 3)).isOk = false := by decide +kernel
  have none : ∀ {path here}, (workView.enter workTree path).isOk = false →
      workView.enter workTree path ≠ .ok here := by
    intro path here missing found
    rw [found] at missing
    cases missing
  refine ⟨fun here found => absurd found (none absent), fun count here name step entered missing => ?_⟩
  obtain ⟨bound, same⟩ := List.getElem?_eq_some_iff.mp step
  have four : (unpackDir absoluteRoots).steps.length = 4 := rfl
  have cases : count = 0 ∨ count = 1 ∨ count = 2 ∨ count = 3 := by omega
  rcases cases with rfl | rfl | rfl | rfl
  · obtain rfl : [] = here := Except.ok.inj entered
    obtain rfl : "plans" = name := PathStep.name.inj same
    have present : (workTree.node ["plans"]).isSome := by decide +kernel
    rw [List.nil_append] at missing
    rw [missing] at present
    cases present
  · have first : workView.enter workTree ((unpackDir absoluteRoots).upTo 1) = .ok ["plans"] := by
      decide +kernel
    obtain rfl : ["plans"] = here := Except.ok.inj (first.symm.trans entered)
    obtain rfl : ".emuchef_runtime" = name := PathStep.name.inj same
    exact ⟨by decide +kernel, by decide⟩
  · exact absurd entered (none deeper.1)
  · exact absurd entered (none deeper.2)

theorem extraction_confined_iff_sample :
    SafeExtraction plainText workView absoluteRoots (.ok biosEntries) (unpackDir absoluteRoots)
        workTree ∧
      Confined plainText workView absoluteRoots (.ok biosEntries) (unpackDir absoluteRoots)
        workTree := by
  have absent : (workView.locate workTree (unpackDir absoluteRoots)).isOk = false := by
    decide +kernel
  have safe : SafeExtraction plainText workView absoluteRoots (.ok biosEntries)
      (unpackDir absoluteRoots) workTree := by
    refine ⟨fun place _ taken => ?_, fun _ _ => startsInside_unpackDir,
      fun _ _ winding => absurd (by decide) winding⟩
    rw [sweeps] at taken
    cases located : workView.locate workTree (unpackDir absoluteRoots) with
    | error stop =>
        rw [located] at taken
        cases taken
    | ok top =>
        rw [located] at absent
        cases absent
  have confined := extraction_confined_iff.1 safe
  exact ⟨extraction_confined_iff.2 (by decide +kernel) (fun _ _ => by decide) confined, confined⟩

def linkedTree : HostTree :=
  ((hostDirectories [["outside"], ["outside", "unpack"], ["plans"], ["plans", ".emuchef_runtime"],
      ["work"]]).publishFile ["plans", ".emuchef_runtime", "extract"] ()
    (.link (.ofNames true ["outside"]))).toOption.getD workTree

/-- The check refuses the link, and the clean-up follows it. -/
theorem extraction_removes_outside :
    ¬Confined plainText workView absoluteRoots (.ok biosEntries) (unpackDir absoluteRoots)
        linkedTree ∧
      (attempt (hostFiles workView) (extractZipToDirectory plainText absoluteRoots (.ok biosEntries)
        (unpackDir absoluteRoots)) linkedTree).1.isOk = false ∧
      linkedTree.node ["outside", "unpack"] = some (.directory ()) ∧
      (attempt (hostFiles workView) (extractZipToDirectory plainText absoluteRoots (.ok biosEntries)
        (unpackDir absoluteRoots)) linkedTree).2.node ["outside", "unpack"] = none := by
  refine ⟨fun confined => ?_, by decide +kernel, by decide +kernel, by decide +kernel⟩
  have lies : inside workView absoluteRoots linkedTree ["outside", "unpack"] = true :=
    confined.sweep (by decide +kernel) (by decide +kernel)
  have apart : inside workView absoluteRoots linkedTree ["outside", "unpack"] = false := by
    decide +kernel
  rw [lies] at apart
  cases apart

end EmuChef.Executor
