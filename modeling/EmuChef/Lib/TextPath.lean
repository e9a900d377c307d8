import EmuChef.Lib.SlashPath
import EmuChef.Lib.FileTree

/-! Slash-separated paths given as strings, for a host path library and for file trees. -/

namespace EmuChef.TextPath

inductive Component where
  | rootDir
  | curDir
  | parentDir
  | normal (name : String)
  deriving DecidableEq

def parts (path : String) : List (List Char) :=
  path.toList.splitOn '/'

def components (path : String) : List Component :=
  let lead :=
    if path.toList.head? = some '/' then [.rootDir]
    else if (parts path).head? = some ['.'] then [.curDir]
    else []
  lead ++ (parts path).filterMap fun part =>
    if part = [] ∨ part = ['.'] then none
    else if part = ['.', '.'] then some .parentDir
    else some (.normal (String.ofList part))

def Component.name? : Component → Option String
  | normal name => some name
  | _ => none

def names (path : String) : List String :=
  (components path).filterMap Component.name?

def join (names : List String) : String :=
  String.ofList (['/'].intercalate (names.map String.toList))

def depth (path : String) : Nat :=
  path.toList.count '/'

def ancestors (path : String) : List String :=
  (SlashPath.ancestors '/' path.toList).map String.ofList

def Ancestor (above path : String) : Prop :=
  SlashPath.Ancestor '/' above.toList path.toList

def isName (part : List Char) : Bool :=
  !part.isEmpty && part ≠ ['.'] && part ≠ ['.', '.']

def named (path : String) : Bool :=
  (parts path).all isName

variable {above path : String}

theorem mem_ancestors : above ∈ ancestors path ↔ Ancestor above path := by
  simp only [ancestors, Ancestor, List.mem_map, ← SlashPath.mem_ancestors]
  constructor
  · rintro ⟨text, member, rfl⟩
    simpa using member
  · exact fun member => ⟨above.toList, member, by simp⟩

theorem Ancestor.lt (higher : Ancestor above path) : above < path :=
  String.lt_iff_toList_lt.mpr (SlashPath.Ancestor.lt '/' higher)

theorem Ancestor.depth_lt (higher : Ancestor above path) :
    depth above < depth path :=
  SlashPath.Ancestor.count_lt '/' higher

theorem Ancestor.trans {first second third : String} (upper : Ancestor first second)
    (lower : Ancestor second third) : Ancestor first third :=
  SlashPath.Ancestor.trans '/' upper lower

def parent (path : String) : Option String :=
  (SlashPath.parent '/' path.toList).map String.ofList

theorem parent_eq_some_iff :
    parent path = some above ↔ SlashPath.parent '/' path.toList = some above.toList := by
  cases found : SlashPath.parent '/' path.toList with
  | none => simp [parent, found]
  | some upper =>
      simp only [parent, found, Option.map_some, Option.some.injEq]
      constructor
      · rintro rfl
        simp
      · rintro rfl
        simp

theorem parent_ancestor (found : parent path = some above) :
    Ancestor above path :=
  (SlashPath.ancestor_iff_parent '/').mpr ⟨_, parent_eq_some_iff.mp found, .inl rfl⟩

theorem named_parent (isNamed : named path = true) (found : parent path = some above) :
    named above = true := by
  obtain ⟨name, split, _⟩ := (SlashPath.parent_eq_some '/').mp (parent_eq_some_iff.mp found)
  simp only [named, parts, split, SlashPath.splitOn_append_cons, List.all_append,
    Bool.and_eq_true] at isNamed
  exact isNamed.1

instance : TreePath String where
  parent := parent
  named := named
  parent_lt found := (parent_ancestor found).lt
  parent_named := named_parent

theorem tree_ancestor_iff :
    FileTree.Ancestor above path ↔ Ancestor above path := by
  constructor
  · intro higher
    induction higher with
    | single found => exact parent_ancestor found
    | tail _ found ih => exact ih.trans (parent_ancestor found)
  · intro higher
    generalize level : depth path = budget
    induction budget using Nat.strongRecOn generalizing path with
    | ind budget ih =>
        obtain ⟨upper, found, same | further⟩ := (SlashPath.ancestor_iff_parent '/').mp higher
        · obtain rfl : above = String.ofList upper := by simp [← same]
          exact .single (parent_eq_some_iff.mpr (by simpa using found))
        · have parentFound : parent path = some (String.ofList upper) :=
            parent_eq_some_iff.mpr (by simpa using found)
          have upperFirst := ih _ (level ▸ (parent_ancestor parentFound).depth_lt)
            (by simpa [Ancestor] using further) rfl
          exact .tail upperFirst parentFound

theorem components_of_absolute (absolute : path.toList.head? = some '/') :
    (components path).head? = some .rootDir ∧ .curDir ∉ components path ∧
      (.parentDir ∈ components path → ['.', '.'] ∈ parts path) := by
  have lead : ∀ component, component ∈ components path → component = .rootDir ∨
      ∃ part ∈ parts path, (if part = [] ∨ part = ['.'] then none
        else if part = ['.', '.'] then some Component.parentDir
        else some (Component.normal (String.ofList part))) = some component := by
    intro component member
    simpa [components, absolute] using member
  refine ⟨by simp [components, absolute], fun member => ?_, fun member => ?_⟩
  · rcases lead _ member with impossible | ⟨part, _, read⟩
    · exact nomatch impossible
    · split at read
      next => simp at read
      next => split at read <;> simp at read
  · rcases lead _ member with impossible | ⟨part, inside, read⟩
    · exact nomatch impossible
    · split at read
      next => simp at read
      next =>
        split at read
        next isUp => exact isUp ▸ inside
        next => simp at read

theorem join_parts (path : String) : join ((parts path).map String.ofList) = path := by
  rw [join, List.map_map]
  have texts : (parts path).map (String.toList ∘ String.ofList) = parts path := by
    simp [Function.comp_def]
  rw [texts, parts, List.intercalate_splitOn, String.ofList_toList]

theorem names_eq_filter (path : String) :
    names path = ((parts path).filter isName).map String.ofList := by
  have lead : (if path.toList.head? = some '/' then [Component.rootDir]
      else if (parts path).head? = some ['.'] then [.curDir] else []).filterMap Component.name? =
      [] := by
    split
    next => rfl
    next => split <;> rfl
  rw [names, components, List.filterMap_append, lead, List.nil_append, List.filterMap_filterMap]
  induction parts path with
  | nil => rfl
  | cons part rest ih =>
      rw [List.filterMap_cons, ih, List.filter_cons]
      by_cases isEmpty : part = []
      · simp [isName, isEmpty]
      · by_cases isCurrent : part = ['.']
        · simp [isName, isCurrent]
        · by_cases isParent : part = ['.', '.']
          · simp [isName, isParent, Component.name?]
          · simp [isName, isEmpty, isCurrent, isParent, Component.name?]

theorem names_of_named (isNamed : named path = true) :
    names path = (parts path).map String.ofList := by
  rw [names_eq_filter, List.filter_eq_self.mpr (List.all_eq_true.mp isNamed)]

theorem join_names (isNamed : named path = true) : join (names path) = path := by
  rw [names_of_named isNamed, join_parts]

theorem names_ne_nil (isNamed : named path = true) : names path ≠ [] := by
  rw [names_of_named isNamed, ne_eq, List.map_eq_nil_iff]
  exact List.splitOnP_ne_nil _ _

theorem join_append {first second : List String} (firstSome : first ≠ []) (secondSome : second ≠ []) :
    join (first ++ second) = join first ++ "/" ++ join second := by
  refine String.toList_injective ?_
  simp only [join, List.map_append, String.toList_append, String.toList_ofList]
  rw [SlashPath.intercalate_append '/' (by simpa using firstSome) (by simpa using secondSome),
    List.append_assoc]
  rfl

section

variable {root rel : String}

theorem toList_under : (root ++ "/" ++ rel).toList = root.toList ++ '/' :: rel.toList := by
  rw [String.toList_append, String.toList_append, List.append_assoc]
  rfl

theorem named_under : named (root ++ "/" ++ rel) = (named root && named rel) := by
  rw [named, parts, toList_under, SlashPath.splitOn_append_cons, List.all_append]
  rfl

theorem names_under : names (root ++ "/" ++ rel) = names root ++ names rel := by
  rw [names_eq_filter, names_eq_filter, names_eq_filter, parts, toList_under,
    SlashPath.splitOn_append_cons, List.filter_append, List.map_append]
  rfl

theorem under_inj {other : String} : root ++ "/" ++ rel = root ++ "/" ++ other ↔ rel = other := by
  refine ⟨fun same => String.toList_injective ?_, fun same => same ▸ rfl⟩
  have texts := congrArg String.toList same
  rw [toList_under, toList_under] at texts
  simpa using texts

theorem ancestor_root : Ancestor root (root ++ "/" ++ rel) := ⟨rel.toList, toList_under⟩

theorem ancestor_under {above : String} : Ancestor above (root ++ "/" ++ rel) ↔
    Ancestor above root ∨ above = root ∨ ∃ upper, above = root ++ "/" ++ upper ∧ Ancestor upper rel := by
  constructor
  · rintro ⟨rest, split⟩
    rw [toList_under] at split
    rcases List.append_eq_append_iff.mp split with ⟨middle, left, right⟩ | ⟨middle, left, right⟩
    · cases middle with
      | nil => exact .inr (.inl (String.toList_injective (by simpa using left)))
      | cons first middle =>
          obtain ⟨rfl, lower⟩ := List.cons.inj right
          refine .inr (.inr ⟨String.ofList middle, String.toList_injective ?_, rest, ?_⟩)
          · rw [left, toList_under, String.toList_ofList]
          · rw [lower, String.toList_ofList]
            rfl
    · cases middle with
      | nil => exact .inr (.inl (String.toList_injective (by simpa using left.symm)))
      | cons first middle =>
          obtain ⟨rfl, _⟩ := List.cons.inj right
          exact .inl ⟨middle, left⟩
  · rintro (higher | rfl | ⟨upper, rfl, higher⟩)
    · exact higher.trans ancestor_root
    · exact ancestor_root
    · obtain ⟨rest, split⟩ := higher
      refine ⟨rest, ?_⟩
      rw [toList_under, toList_under, split, List.append_assoc, List.cons_append]

theorem ancestor_under_under {upper : String} :
    Ancestor (root ++ "/" ++ upper) (root ++ "/" ++ rel) ↔ Ancestor upper rel := by
  rw [ancestor_under]
  constructor
  · rintro (above | same | ⟨other, equal, lower⟩)
    · exact absurd (above.trans ancestor_root) fun cycle => lt_irrefl _ cycle.lt
    · exact absurd same ancestor_root.lt.ne'
    · rwa [under_inj.mp equal]
  · exact fun lower => .inr (.inr ⟨upper, rfl, lower⟩)

end

end EmuChef.TextPath
