import Mathlib.Data.List.Basic
import Mathlib.Data.List.Lex
import Mathlib.Data.String.Basic

/-! Paths as texts whose components are set apart by one separator, with their parents and
ancestors. -/

namespace EmuChef.SlashPath

variable {α : Type} [DecidableEq α] (separator : α)

def parent : List α → Option (List α)
  | [] => none
  | first :: rest =>
      match parent rest with
      | some above => some (first :: above)
      | none => if first = separator then some [] else none

def ancestors : List α → List (List α)
  | [] => []
  | first :: rest =>
      (if first = separator then [[]] else []) ++ (ancestors rest).map (first :: ·)

def Ancestor (above path : List α) : Prop :=
  ∃ rest, path = above ++ separator :: rest

variable {above path : List α}

theorem mem_ancestors :
    above ∈ ancestors separator path ↔ Ancestor separator above path := by
  induction path generalizing above with
  | nil => simp [ancestors, Ancestor]
  | cons first rest ih =>
      simp only [ancestors, List.mem_append, List.mem_map, ih]
      constructor
      · rintro (top | ⟨tail, ⟨below, rfl⟩, rfl⟩)
        · split at top
          next isSeparator =>
            obtain rfl : above = [] := by simpa using top
            exact ⟨rest, by simp [isSeparator]⟩
          next => simp at top
        · exact ⟨below, rfl⟩
      · rintro ⟨below, split⟩
        cases above with
        | nil =>
            obtain ⟨rfl, rfl⟩ : first = separator ∧ rest = below := by simpa using split
            exact .inl (by simp)
        | cons head tail =>
            obtain ⟨rfl, rfl⟩ : first = head ∧ rest = tail ++ separator :: below := by
              simpa using split
            exact .inr ⟨tail, ⟨below, rfl⟩, rfl⟩

theorem parent_eq_none : parent separator path = none ↔ separator ∉ path := by
  induction path with
  | nil => simp [parent]
  | cons first rest ih =>
      cases found : parent separator rest with
      | some above =>
          have belongs : separator ∈ rest := by simpa [found] using ih
          simp [parent, found, belongs]
      | none =>
          have absent : separator ∉ rest := ih.mp found
          by_cases isSeparator : first = separator
          · simp [parent, found, isSeparator]
          · simp [parent, found, isSeparator, absent, Ne.symm isSeparator]

theorem parent_eq_some :
    parent separator path = some above ↔
      ∃ name, path = above ++ separator :: name ∧ separator ∉ name := by
  induction path generalizing above with
  | nil => simp [parent]
  | cons first rest ih =>
      cases found : parent separator rest with
      | some upper =>
          obtain ⟨name, rfl, clean⟩ := ih.mp found
          simp only [parent, found, Option.some.injEq]
          constructor
          · rintro rfl
            exact ⟨name, rfl, clean⟩
          · rintro ⟨other, split, otherClean⟩
            cases above with
            | nil =>
                obtain ⟨rfl, same⟩ : first = separator ∧ upper ++ separator :: name = other := by
                  simpa using split
                exact absurd (same ▸ otherClean) (by simp)
            | cons head tail =>
                obtain ⟨rfl, same⟩ : first = head ∧
                    upper ++ separator :: name = tail ++ separator :: other := by simpa using split
                have := ih.mpr ⟨other, same, otherClean⟩
                rw [found] at this
                rw [Option.some.inj this]
      | none =>
          have clean := (parent_eq_none separator).mp found
          by_cases isSeparator : first = separator
          · subst isSeparator
            simp only [parent, found, ↓reduceIte, Option.some.injEq]
            constructor
            · rintro rfl
              exact ⟨rest, rfl, clean⟩
            · rintro ⟨name, split, _⟩
              cases above with
              | nil => rfl
              | cons head tail =>
                  have inside : rest = tail ++ first :: name := by simpa using (List.cons.inj split).2
                  exact absurd (by simp [inside]) clean
          · simp only [parent, found, isSeparator, ↓reduceIte, reduceCtorEq, false_iff]
            rintro ⟨name, split, _⟩
            cases above with
            | nil => exact isSeparator (List.cons.inj split).1
            | cons head tail =>
                have inside : rest = tail ++ separator :: name := (List.cons.inj split).2
                exact clean (by simp [inside])

theorem ancestor_iff_parent :
    Ancestor separator above path ↔
      ∃ upper, parent separator path = some upper ∧
        (above = upper ∨ Ancestor separator above upper) := by
  constructor
  · rintro ⟨below, rfl⟩
    cases found : parent separator below with
    | none =>
        refine ⟨above, ?_, .inl rfl⟩
        exact (parent_eq_some separator).mpr ⟨below, rfl, (parent_eq_none separator).mp found⟩
    | some middle =>
        obtain ⟨name, rfl, clean⟩ := (parent_eq_some separator).mp found
        refine ⟨above ++ separator :: middle, ?_, .inr ⟨middle, rfl⟩⟩
        exact (parent_eq_some separator).mpr ⟨name, by simp, clean⟩
  · rintro ⟨upper, found, rfl | ⟨rest, rfl⟩⟩
    · obtain ⟨name, split, _⟩ := (parent_eq_some separator).mp found
      exact ⟨name, split⟩
    · obtain ⟨name, split, _⟩ := (parent_eq_some separator).mp found
      exact ⟨rest ++ separator :: name, by simp [split]⟩

omit [DecidableEq α] in
theorem Ancestor.ne (higher : Ancestor separator above path) :
    above ≠ path := by
  rintro rfl
  obtain ⟨rest, split⟩ := higher
  have := congrArg List.length split
  simp at this

theorem Ancestor.count_lt (higher : Ancestor separator above path) :
    above.count separator < path.count separator := by
  obtain ⟨rest, rfl⟩ := higher
  simp only [List.count_append, List.count_cons_self]
  omega

omit [DecidableEq α] in
theorem Ancestor.lt [LinearOrder α] (higher : Ancestor separator above path) : above < path := by
  obtain ⟨rest, rfl⟩ := higher
  induction above with
  | nil => exact List.nil_lt_cons _ _
  | cons first above ih => exact List.Lex.cons ih

omit [DecidableEq α] in
theorem Ancestor.trans {first second third : List α} (upper : Ancestor separator first second)
    (lower : Ancestor separator second third) : Ancestor separator first third := by
  obtain ⟨middle, rfl⟩ := upper
  obtain ⟨rest, rfl⟩ := lower
  exact ⟨middle ++ separator :: rest, by simp⟩

def scanPrefixes : List (List α) → List α → List (List α)
  | [], _ => []
  | component :: rest, read =>
      let next := if read.isEmpty then component else read ++ separator :: component
      next :: scanPrefixes rest next

theorem splitOn_cons (first : α) (path : List α) :
    (first :: path).splitOn separator =
      if first = separator then [] :: path.splitOn separator
      else (path.splitOn separator).modifyHead (first :: ·) := by
  by_cases isSeparator : first = separator <;>
    simp [List.splitOn, List.splitOnP_cons_eq_if_modifyHead, isSeparator]

theorem splitOn_append_cons (upper path : List α) :
    (upper ++ separator :: path).splitOn separator =
      upper.splitOn separator ++ path.splitOn separator := by
  induction upper with
  | nil => simp [splitOn_cons]
  | cons first upper ih =>
      rw [List.cons_append, splitOn_cons, splitOn_cons, ih]
      by_cases isSeparator : first = separator
      · simp [isSeparator]
      · have nonempty : upper.splitOn separator ≠ [] := List.splitOnP_ne_nil _ _
        cases split : upper.splitOn separator with
        | nil => exact absurd split nonempty
        | cons head tail => simp [isSeparator]

theorem splitOn_eq_singleton (clean : separator ∉ path) :
    path.splitOn separator = [path] := by
  induction path with
  | nil => rfl
  | cons first rest ih =>
      rw [List.mem_cons, not_or] at clean
      rw [splitOn_cons, if_neg (Ne.symm clean.1), ih clean.2]
      rfl

theorem exists_splitOn_eq_cons (path : List α) :
    ∃ head tail, path.splitOn separator = head :: tail := by
  cases split : path.splitOn separator with
  | nil => exact absurd split (List.splitOnP_ne_nil _ _)
  | cons head tail => exact ⟨head, tail, rfl⟩

theorem notMem_of_mem_splitOn {part : List α} (member : part ∈ path.splitOn separator) :
    separator ∉ part := by
  induction path generalizing part with
  | nil =>
      obtain rfl : part = [] := by simpa using member
      simp
  | cons first rest ih =>
      obtain ⟨head, tail, inner⟩ := exists_splitOn_eq_cons separator rest
      rw [splitOn_cons] at member
      by_cases isSeparator : first = separator
      · rcases List.mem_cons.mp (by simpa [isSeparator] using member) with rfl | later
        · simp
        · exact ih later
      · rw [if_neg isSeparator, inner, List.modifyHead_cons] at member
        rcases List.mem_cons.mp member with rfl | later
        · have clean := ih (inner ▸ List.mem_cons_self : head ∈ rest.splitOn separator)
          simp [clean, Ne.symm isSeparator]
        · exact ih (inner ▸ List.mem_cons_of_mem _ later)

theorem scanPrefixes_from (path read head : List α) (tail : List (List α)) (started : read ≠ [])
    (split : path.splitOn separator = head :: tail) :
    (read ++ head) :: scanPrefixes separator tail (read ++ head) =
      (ancestors separator path).map (read ++ ·) ++ [read ++ path] := by
  induction path generalizing read head tail with
  | nil =>
      obtain ⟨rfl, rfl⟩ : [] = head ∧ [] = tail := by simpa using split
      simp [scanPrefixes, ancestors]
  | cons first rest ih =>
      obtain ⟨inner, others, below⟩ := exists_splitOn_eq_cons separator rest
      rw [splitOn_cons, below] at split
      by_cases isSeparator : first = separator
      · obtain ⟨rfl, rfl⟩ : [] = head ∧ inner :: others = tail := by
          simpa [isSeparator] using split
        have stepped := ih (read ++ [separator]) inner others (by simp) below
        simp only [List.append_assoc, List.singleton_append] at stepped
        simp [scanPrefixes, started, ancestors, isSeparator, stepped, Function.comp_def]
      · obtain ⟨rfl, rfl⟩ : first :: inner = head ∧ others = tail := by
          simpa [isSeparator] using split
        have stepped := ih (read ++ [first]) inner others (by simp) below
        simp only [List.append_assoc, List.singleton_append] at stepped
        simp [ancestors, isSeparator, stepped, Function.comp_def]

theorem scanPrefixes_splitOn (first : α) (rest : List α) (named : first ≠ separator) :
    scanPrefixes separator ((first :: rest).splitOn separator) [] =
      ancestors separator (first :: rest) ++ [first :: rest] := by
  obtain ⟨head, tail, split⟩ := exists_splitOn_eq_cons separator rest
  have read := scanPrefixes_from separator rest [first] head tail (by simp) split
  simp only [List.singleton_append] at read
  simp [splitOn_cons, named, split, scanPrefixes, ancestors, read]

omit [DecidableEq α] in
theorem intercalate_append {first second : List (List α)} (firstSome : first ≠ [])
    (secondSome : second ≠ []) : [separator].intercalate (first ++ second) =
      [separator].intercalate first ++ separator :: [separator].intercalate second := by
  induction first with
  | nil => exact absurd rfl firstSome
  | cons part rest ih =>
      cases rest with
      | nil =>
          cases second with
          | nil => exact absurd rfl secondSome
          | cons next others => simp [List.intercalate, List.intersperse]
      | cons other others =>
          have inner := ih (by simp)
          have whole : other :: others ++ second ≠ [] := by simp
          have later : other :: others ≠ [] := by simp
          rw [List.cons_append, List.intercalate_cons_of_ne_nil whole, inner,
            List.intercalate_cons_of_ne_nil later]
          simp only [List.append_assoc]

theorem ancestor_of_take {count : Nat} (positive : 0 < count)
    (short : count < (path.splitOn separator).length) :
    Ancestor separator ([separator].intercalate ((path.splitOn separator).take count)) path := by
  refine ⟨[separator].intercalate ((path.splitOn separator).drop count), ?_⟩
  rw [← intercalate_append, List.take_append_drop, List.intercalate_splitOn]
  · rw [ne_eq, List.take_eq_nil_iff]
    rintro (none | empty)
    · omega
    · rw [empty] at short
      cases short
  · rw [ne_eq, List.drop_eq_nil_iff]
    omega

end EmuChef.SlashPath
