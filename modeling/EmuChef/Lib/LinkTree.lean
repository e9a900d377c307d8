import EmuChef.Lib.NamePath
import Mathlib.Data.List.Induction

/-! File trees with symbolic links, the places that paths lead to in them, and what stays
true of these places while a tree only grows. -/

namespace EmuChef

inductive PathStep where
  | parent
  | name (name : String)
  deriving DecidableEq

structure UnixPath where
  absolute : Bool
  steps : List PathStep
  deriving DecidableEq

namespace UnixPath

def ofNames (absolute : Bool) (names : List String) : UnixPath := ⟨absolute, names.map .name⟩

def join (path : UnixPath) (names : List String) : UnixPath :=
  { path with steps := path.steps ++ names.map .name }

def upTo (path : UnixPath) (count : Nat) : UnixPath :=
  { path with steps := path.steps.take count }

def normalStep (reached : List String) : PathStep → List String
  | .parent => reached.dropLast
  | .name name => reached ++ [name]

def normalNames (path : UnixPath) : List String := path.steps.foldl normalStep []

def normalize (path : UnixPath) : UnixPath := ofNames path.absolute path.normalNames

def components (path : UnixPath) : List (Option PathStep) :=
  (if path.absolute then [none] else []) ++ path.steps.map some

def startsWith (path root : UnixPath) : Bool := root.components.isPrefixOf path.components

def Plain (path : UnixPath) : Prop := PathStep.parent ∉ path.steps

instance decidablePlain (path : UnixPath) : Decidable path.Plain :=
  inferInstanceAs (Decidable (_ ∉ _))

theorem foldl_names (reached names : List String) :
    (names.map PathStep.name).foldl normalStep reached = reached ++ names := by
  induction names generalizing reached with
  | nil => simp
  | cons name rest ih => simp [normalStep, ih]

theorem normalNames_join (path : UnixPath) (names : List String) :
    (path.join names).normalNames = path.normalNames ++ names := by
  rw [normalNames, join, List.foldl_append, foldl_names, normalNames]

theorem normalize_join (path : UnixPath) (names : List String) :
    (path.join names).normalize = path.normalize.join names := by
  rw [normalize, normalNames_join, ofNames, List.map_append]
  rfl

theorem normalNames_ofNames (absolute : Bool) (names : List String) :
    (ofNames absolute names).normalNames = names := by
  rw [normalNames, ofNames, foldl_names, List.nil_append]

theorem Plain.exists_names {path : UnixPath} (plain : path.Plain) :
    ∃ names, path = ofNames path.absolute names := by
  obtain ⟨absolute, steps⟩ := path
  induction steps with
  | nil => exact ⟨[], rfl⟩
  | cons step rest ih =>
      obtain ⟨notParent, later⟩ : PathStep.parent ≠ step ∧ PathStep.parent ∉ rest := by
        simpa [Plain] using plain
      obtain ⟨names, same⟩ := ih later
      have steps : rest = names.map .name := congrArg UnixPath.steps same
      cases step with
      | parent => exact absurd rfl notParent
      | name name => exact ⟨name :: names, by rw [steps]; rfl⟩

theorem Plain.normalize {path : UnixPath} (plain : path.Plain) : path.normalize = path := by
  obtain ⟨names, same⟩ := plain.exists_names
  rw [UnixPath.normalize, same, normalNames_ofNames]
  rfl

theorem startsWith_iff {path root : UnixPath} :
    path.startsWith root = true ↔ root.components <+: path.components :=
  List.isPrefixOf_iff_prefix

theorem components_join (path : UnixPath) (names : List String) :
    (path.join names).components = path.components ++ names.map (some ∘ PathStep.name) := by
  rw [components, components, join, List.map_append, List.map_map, List.append_assoc]

theorem join_nil (path : UnixPath) : path.join [] = path := by
  rw [join, List.map_nil, List.append_nil]

theorem join_join (path : UnixPath) (first second : List String) :
    (path.join first).join second = path.join (first ++ second) := by
  rw [join, join, join, List.map_append, List.append_assoc]

theorem join_injective {path : UnixPath} {first second : List String}
    (same : path.join first = path.join second) : first = second := by
  have steps := List.append_cancel_left (congrArg UnixPath.steps same)
  exact List.map_injective_iff.mpr (fun _ _ => PathStep.name.inj) steps

theorem startsWith_join_join {path : UnixPath} {lower upper : List String} :
    (path.join lower).startsWith (path.join upper) = true ↔ upper <+: lower := by
  have injective : Function.Injective (some ∘ PathStep.name) := fun _ _ same =>
    PathStep.name.inj (Option.some.inj same)
  rw [startsWith_iff, components_join, components_join, List.prefix_append_right_inj]
  exact List.prefix_map_iff_of_injective injective

theorem Plain.of_startsWith {path root : UnixPath} (below : path.startsWith root = true)
    (plain : path.Plain) : root.Plain := by
  intro parent
  have member : some PathStep.parent ∈ root.components :=
    List.mem_append_right _ (List.mem_map_of_mem parent)
  have inside := (startsWith_iff.mp below).mem member
  rw [components] at inside
  rcases List.mem_append.mp inside with first | later
  · cases path.absolute <;> simp at first
  · obtain ⟨step, found, same⟩ := List.mem_map.mp later
    exact plain (Option.some.inj same ▸ found)

theorem plain_normalize_join (path : UnixPath) (names : List String) :
    (path.normalize.join names).Plain := by
  rw [Plain, join, normalize, ofNames, ← List.map_append]
  simp

theorem startsWith_join (path : UnixPath) (names : List String) :
    (path.join names).startsWith path = true := by
  rw [startsWith_iff, components_join]
  exact List.prefix_append _ _

end UnixPath

/-- A place in a tree: the names that lead to it from the root without a link between them. -/
abbrev Location := List String

inductive LinkContent (δ : Type) where
  | regular (content : δ)
  | link (target : UnixPath)
  deriving DecidableEq

abbrev LinkTree (δ : Type) := FileTree Location (LinkContent δ) Unit

namespace FileTree

theorem kindAt_above {δ ι : Type} {tree : FileTree Location δ ι} {above rest : List String}
    (filled : above ≠ []) (more : rest ≠ []) (present : (tree.node (above ++ rest)).isSome) :
    tree.kindAt above = some .directory := by
  induction rest using List.reverseRecOn with
  | nil => exact absurd rfl more
  | append_singleton init name ih =>
      have parent : TreePath.parent (above ++ (init ++ [name])) = some (above ++ init) :=
        parent_eq_some.mpr ⟨by simp [filled], name, by simp⟩
      have directory := kindAt_parent present parent
      by_cases none : init = []
      · rwa [none, List.append_nil] at directory
      · refine ih none ?_
        rw [kindAt] at directory
        cases found : tree.node (above ++ init) with
        | none => simp [found] at directory
        | some node => rfl

theorem kindAt_dropLast {δ ι : Type} {tree : FileTree Location δ ι} {place : Location}
    (filled : place.dropLast ≠ []) (directory : tree.kindAt place = some .directory) :
    tree.kindAt place.dropLast = some .directory := by
  have some : place ≠ [] := by
    rintro rfl
    exact filled rfl
  refine @kindAt_above _ _ tree place.dropLast [place.getLast some] filled (by simp) ?_
  rw [List.dropLast_append_getLast]
  rw [kindAt] at directory
  cases found : tree.node place with
  | none => simp [found] at directory
  | some node => rfl

end FileTree

inductive WalkError where
  | missing
  | notDirectory
  | loop
  deriving DecidableEq

namespace LinkTree

variable {δ : Type}

section

variable (tree : LinkTree δ)

def linkAt (place : Location) : Option UnixPath :=
  match tree.node place with
  | some (.file _ (.link target)) => some target
  | _ => none

def directoryAt (place : Location) : Bool := place = [] ∨ tree.kindAt place = some .directory

def stepInto (followLink : Location → UnixPath → Except WalkError Location) (here : Location) :
    PathStep → Except WalkError Location
  | .parent => .ok here.dropLast
  | .name name =>
      match tree.node (here ++ [name]) with
      | none => .error .missing
      | some (.directory _) => .ok (here ++ [name])
      | some (.file _ (.regular _)) => .error .notDirectory
      | some (.file _ (.link target)) => followLink here target

def start (here : Location) (path : UnixPath) : Location := if path.absolute then [] else here

def follow : Nat → Location → UnixPath → Except WalkError Location
  | 0, _, _ => .error .loop
  | depth + 1, here, target => target.steps.foldlM (tree.stepInto (follow depth)) (start here target)

variable (depth : Nat) (here : Location)

def enter (path : UnixPath) : Except WalkError Location :=
  path.steps.foldlM (tree.stepInto (tree.follow depth)) (start here path)

def locate (path : UnixPath) : Except WalkError Location :=
  match path.steps.getLast? with
  | some (.name name) => (tree.enter depth here { path with steps := path.steps.dropLast }).map (· ++ [name])
  | _ => tree.enter depth here path

/-- The place that a path names when links in the last place are followed, at most the given
number of times. -/
def resolve : Nat → Location → UnixPath → Except WalkError Location
  | 0, here, path => do
      let found ← tree.locate depth here path
      if (tree.linkAt found).isSome then .error .loop else .ok found
  | hops + 1, here, path => do
      let found ← tree.locate depth here path
      match tree.linkAt found with
      | some target => resolve hops found.dropLast target
      | none => .ok found

end

section

variable {tree : LinkTree δ} {depth : Nat} {here : Location} {path : UnixPath}

theorem enter_join (names : List String) :
    tree.enter depth here (path.join names) = tree.enter depth here path >>= fun reached =>
      (names.map PathStep.name).foldlM (tree.stepInto (tree.follow depth)) reached := by
  rw [enter, UnixPath.join, List.foldlM_append]
  rfl

theorem locate_join_concat (names : List String) (name : String) :
    tree.locate depth here (path.join (names ++ [name])) =
      (tree.enter depth here (path.join names)).map (· ++ [name]) := by
  have steps : (path.join (names ++ [name])).steps = (path.join names).steps ++ [.name name] := by
    simp [UnixPath.join]
  rw [locate, steps, List.getLast?_concat]
  simp only [List.dropLast_concat]
  rfl

variable {place : Location}

theorem resolve_of_locate (located : tree.locate depth here path = .ok place)
    (plain : tree.linkAt place = none) (hops : Nat) :
    tree.resolve depth hops here path = .ok place := by
  cases hops with
  | zero =>
      rw [resolve, located]
      exact if_neg (by simp [plain])
  | succ hops =>
      rw [resolve, located]
      change (match tree.linkAt place with
        | some target => tree.resolve depth hops place.dropLast target
        | none => .ok place) = _
      rw [plain]

theorem locate_of_resolve {hops : Nat}
    (plain : ∀ top, tree.locate depth here path = .ok top → tree.linkAt top = none)
    (resolved : tree.resolve depth hops here path = .ok place) :
    tree.locate depth here path = .ok place := by
  cases located : tree.locate depth here path with
  | error stop =>
      have stopped : tree.resolve depth hops here path = .error stop := by
        cases hops <;> rw [resolve, located] <;> rfl
      cases stopped.symm.trans resolved
  | ok top => exact (resolve_of_locate located (plain top located) hops).symm.trans resolved

theorem enter_upTo (found : tree.enter depth here path = .ok place)
    (count : Nat) : ∃ reached, tree.enter depth here (path.upTo count) = .ok reached := by
  rw [enter, ← List.take_append_drop count path.steps, List.foldlM_append] at found
  rw [enter]
  cases first : (path.steps.take count).foldlM (tree.stepInto (tree.follow depth)) (start here path) with
  | error stop =>
      rw [first] at found
      cases found
  | ok reached => exact ⟨reached, first⟩

theorem exists_locate (found : tree.enter depth here path = .ok place) :
    ∃ top, tree.locate depth here path = .ok top := by
  rw [locate]
  cases last : path.steps.getLast? with
  | none => exact ⟨place, found⟩
  | some step =>
      cases step with
      | parent => exact ⟨place, found⟩
      | name name =>
          obtain ⟨reached, above⟩ := enter_upTo found (path.steps.length - 1)
          rw [UnixPath.upTo, ← List.dropLast_eq_take] at above
          dsimp only
          rw [above]
          exact ⟨_, rfl⟩

variable {followLink : Location → UnixPath → Except WalkError Location}

theorem foldlM_unlinked {names : List String}
    (clear : ∀ upper, upper ≠ [] → upper <+: names → tree.linkAt (here ++ upper) = none) :
    (names.map PathStep.name).foldlM (tree.stepInto followLink) here = .ok (here ++ names) ∨
      ∃ stop, (names.map PathStep.name).foldlM (tree.stepInto followLink) here = .error stop := by
  induction names generalizing here with
  | nil => exact .inl (congrArg Except.ok (List.append_nil here).symm)
  | cons name rest ih =>
      have noLink := clear [name] (by simp) (by simp)
      rw [List.map_cons, List.foldlM_cons, stepInto]
      cases found : tree.node (here ++ [name]) with
      | none => exact .inr ⟨_, rfl⟩
      | some node =>
          cases node with
          | directory identity =>
              have below := @ih (here ++ [name]) fun upper some leads => by
                rw [List.append_assoc]
                exact clear ([name] ++ upper) (by simp) (by simpa using leads)
              rw [List.append_assoc] at below
              exact below
          | file identity content =>
              cases content with
              | regular bytes => exact .inr ⟨_, rfl⟩
              | link target => simp [linkAt, found] at noLink

theorem foldlM_directories {names : List String}
    (directories : ∀ upper, upper ≠ [] → upper <+: names →
      tree.kindAt (here ++ upper) = some .directory) :
    (names.map PathStep.name).foldlM (tree.stepInto followLink) here = .ok (here ++ names) := by
  induction names generalizing here with
  | nil => exact congrArg Except.ok (List.append_nil here).symm
  | cons name rest ih =>
      have first := directories [name] (by simp) (by simp)
      rw [List.map_cons, List.foldlM_cons, stepInto]
      cases found : tree.node (here ++ [name]) with
      | none => simp [FileTree.kindAt, found] at first
      | some node =>
          cases node with
          | directory identity =>
              have below := @ih (here ++ [name]) fun upper some leads => by
                rw [List.append_assoc]
                exact directories ([name] ++ upper) (by simp) (by simpa using leads)
              rw [List.append_assoc] at below
              exact below
          | file identity content => simp [FileTree.kindAt, found, TreeNode.kind] at first

theorem enter_of_locate (located : tree.locate depth here path = .ok place)
    (directory : tree.directoryAt place = true) : tree.enter depth here path = .ok place := by
  rw [locate] at located
  cases last : path.steps.getLast? with
  | none => rwa [last] at located
  | some step =>
      rw [last] at located
      cases step with
      | parent => exact located
      | name name =>
          dsimp only at located
          have split : path.steps = path.steps.dropLast ++ [.name name] :=
            (List.dropLast_append_getLast? _ last).symm
          rw [enter, split, List.foldlM_append]
          cases above : tree.enter depth here { path with steps := path.steps.dropLast } with
          | error stop =>
              rw [above] at located
              cases located
          | ok reached =>
              rw [above] at located
              obtain rfl : reached ++ [name] = place := Except.ok.inj located
              have upper : path.steps.dropLast.foldlM (tree.stepInto (tree.follow depth))
                  (start here path) = .ok reached := above
              rw [upper]
              refine @foldlM_directories _ _ reached _ [name] fun names some leads => ?_
              rcases List.prefix_cons_iff.mp leads with none | ⟨rest, rfl, shorter⟩
              · exact absurd none some
              · rw [List.prefix_nil.mp shorter]
                simpa [directoryAt] using directory

theorem stepInto_name_ok {name : String} : tree.stepInto followLink here (.name name) = .ok place ↔
      (tree.kindAt (here ++ [name]) = some .directory ∧ here ++ [name] = place) ∨
      ∃ target, tree.linkAt (here ++ [name]) = some target ∧ followLink here target = .ok place := by
  rw [stepInto, FileTree.kindAt, linkAt]
  cases tree.node (here ++ [name]) with
  | none => simp
  | some node =>
      cases node with
      | directory identity => simp [TreeNode.kind]
      | file identity content => cases content <;> simp [TreeNode.kind]

theorem foldlM_directoryAt (follows : ∀ here target place, tree.directoryAt here = true →
      followLink here target = .ok place → tree.directoryAt place = true)
    {steps : List PathStep} (start : tree.directoryAt here = true)
    (found : steps.foldlM (tree.stepInto followLink) here = .ok place) :
    tree.directoryAt place = true := by
  induction steps generalizing here with
  | nil => rwa [← Except.ok.inj found]
  | cons step rest ih =>
      rw [List.foldlM_cons] at found
      cases reached : tree.stepInto followLink here step with
      | error stop =>
          rw [reached] at found
          cases found
      | ok next =>
          rw [reached] at found
          refine ih ?_ found
          cases step with
          | parent =>
              obtain rfl : here.dropLast = next := Except.ok.inj reached
              rw [directoryAt, decide_eq_true_eq] at start ⊢
              rcases start with rfl | directory
              · exact .inl rfl
              · by_cases top : here.dropLast = []
                · exact .inl top
                · exact .inr (FileTree.kindAt_dropLast top directory)
          | name name =>
              rcases stepInto_name_ok.mp reached with ⟨directory, rfl⟩ | ⟨target, _, led⟩
              · rw [directoryAt, decide_eq_true_eq]
                exact .inr directory
              · exact follows _ _ _ start led

theorem enter_directoryAt (start : tree.directoryAt here = true)
    (found : tree.enter depth here path = .ok place) : tree.directoryAt place = true := by
  have first : ∀ {here : Location} {path : UnixPath}, tree.directoryAt here = true →
      tree.directoryAt (LinkTree.start here path) = true := by
    intro here path start
    rw [LinkTree.start]
    split
    next => rfl
    next => exact start
  have follows : ∀ depth here target place, tree.directoryAt here = true →
      tree.follow depth here target = .ok place → tree.directoryAt place = true := by
    intro depth
    induction depth with
    | zero =>
        intro _ _ _ _ led
        cases led
    | succ depth ih =>
        intro here target place start led
        exact foldlM_directoryAt ih (first start) led
  exact foldlM_directoryAt (follows depth) (first start) found

end

/-- A tree after steps that neither take directories and links away nor make links. -/
structure Grows (before after : LinkTree δ) : Prop where
  directory : ∀ place, before.kindAt place = some .directory →
    after.kindAt place = some .directory
  link : ∀ place, after.linkAt place = before.linkAt place

section

variable {before middle after : LinkTree δ} {depth : Nat} {here place : Location} {path : UnixPath}

theorem Grows.refl (tree : LinkTree δ) : Grows tree tree := ⟨fun _ found => found, fun _ => rfl⟩

theorem Grows.trans (first : Grows before middle) (second : Grows middle after) :
    Grows before after :=
  ⟨fun place found => second.directory place (first.directory place found),
    fun place => (second.link place).trans (first.link place)⟩

theorem Grows.directoryAt (grows : Grows before after) (found : before.directoryAt place = true) :
    after.directoryAt place = true := by
  rw [LinkTree.directoryAt, decide_eq_true_eq] at found ⊢
  exact found.imp_right (grows.directory place)

theorem Grows.foldlM {first second : Location → UnixPath → Except WalkError Location}
    (grows : Grows before after)
    (agree : ∀ here target place, first here target = .ok place → second here target = .ok place)
    {steps : List PathStep} (found : steps.foldlM (before.stepInto first) here = .ok place) :
    steps.foldlM (after.stepInto second) here = .ok place := by
  induction steps generalizing here with
  | nil => exact found
  | cons step rest ih =>
      rw [List.foldlM_cons] at found ⊢
      cases reached : before.stepInto first here step with
      | error stop =>
          rw [reached] at found
          cases found
      | ok next =>
          have same : after.stepInto second here step = .ok next := by
            cases step with
            | parent => exact reached
            | name name =>
                rw [stepInto_name_ok] at reached ⊢
                rcases reached with ⟨directory, here⟩ | ⟨target, link, leads⟩
                · exact .inl ⟨grows.directory _ directory, here⟩
                · exact .inr ⟨target, (grows.link _).trans link, agree _ _ _ leads⟩
          rw [reached] at found
          rw [same]
          exact ih found

theorem Grows.follow (grows : Grows before after)
    (found : before.follow depth here path = .ok place) :
    after.follow depth here path = .ok place := by
  induction depth generalizing here path place with
  | zero => exact found
  | succ depth ih => exact grows.foldlM (fun _ _ _ => ih) found

theorem Grows.enter (grows : Grows before after)
    (found : before.enter depth here path = .ok place) : after.enter depth here path = .ok place :=
  grows.foldlM (fun _ _ _ => grows.follow) found

/-- A place that was found is found again after the tree grew. -/
theorem Grows.locate (grows : Grows before after)
    (found : before.locate depth here path = .ok place) :
    after.locate depth here path = .ok place := by
  rw [LinkTree.locate] at found ⊢
  cases last : path.steps.getLast? with
  | none =>
      rw [last] at found
      exact grows.enter found
  | some step =>
      rw [last] at found
      cases step with
      | parent => exact grows.enter found
      | name name =>
          dsimp only at found ⊢
          cases entered : before.enter depth here { path with steps := path.steps.dropLast } with
          | error stop =>
              rw [entered] at found
              cases found
          | ok above =>
              rw [entered] at found
              rw [grows.enter entered]
              exact found

end

end LinkTree

end EmuChef
