import Mathlib.Data.List.Basic
import Mathlib.Data.List.Sublists
import Mathlib.Data.List.Pairwise

/-! The combinations of a few candidates by size, and the minimal ones of those that pass a test. -/

namespace EmuChef.MinimalSets

section

variable {α : Type}

def appendCombinations : List α → Nat → List α → List (List α)
  | _, 0, current => [current]
  | [], _ + 1, _ => []
  | candidate :: rest, remaining + 1, current =>
      appendCombinations rest remaining (current ++ [candidate]) ++
        appendCombinations rest (remaining + 1) current

theorem mem_appendCombinations {candidates current taken : List α} {remaining : Nat} :
    taken ∈ appendCombinations candidates remaining current ↔
      ∃ part, part.Sublist candidates ∧ part.length = remaining ∧ taken = current ++ part := by
  induction candidates generalizing remaining current with
  | nil =>
      cases remaining with
      | zero =>
          simp only [appendCombinations, List.mem_singleton, List.sublist_nil]
          constructor
          · rintro rfl
            exact ⟨[], rfl, rfl, (List.append_nil _).symm⟩
          · rintro ⟨_, rfl, _, rfl⟩
            exact List.append_nil _
      | succ remaining =>
          simp only [appendCombinations, List.not_mem_nil, false_iff]
          rintro ⟨part, inside, size, _⟩
          have short := inside.length_le
          simp only [List.length_nil] at short
          omega
  | cons candidate rest ih =>
      cases remaining with
      | zero =>
          simp only [appendCombinations, List.mem_singleton, List.length_eq_zero_iff]
          constructor
          · rintro rfl
            exact ⟨[], List.nil_sublist _, rfl, (List.append_nil _).symm⟩
          · rintro ⟨_, _, rfl, rfl⟩
            exact List.append_nil _
      | succ remaining =>
          simp only [appendCombinations, List.mem_append, ih]
          constructor
          · rintro (⟨part, inside, size, rfl⟩ | ⟨part, inside, size, rfl⟩)
            · exact ⟨candidate :: part, inside.cons_cons _, by simp [size], by simp⟩
            · exact ⟨part, inside.cons _, size, rfl⟩
          · rintro ⟨part, inside, size, rfl⟩
            cases inside with
            | cons _ inside => exact .inr ⟨part, inside, size, rfl⟩
            | cons_cons _ inside => exact .inl ⟨_, inside, by simpa using size, by simp⟩

def nonemptyCombinations (candidates : List α) : List (List α) :=
  (List.range candidates.length).flatMap fun size => appendCombinations candidates (size + 1) []

theorem mem_nonemptyCombinations {candidates taken : List α} :
    taken ∈ nonemptyCombinations candidates ↔ taken.Sublist candidates ∧ taken ≠ [] := by
  simp only [nonemptyCombinations, List.mem_flatMap, List.mem_range, mem_appendCombinations,
    List.nil_append]
  constructor
  · rintro ⟨size, _, part, inside, length, rfl⟩
    exact ⟨inside, List.ne_nil_of_length_eq_add_one length⟩
  · rintro ⟨inside, occupied⟩
    have positive := List.length_pos_iff.mpr occupied
    have short := inside.length_le
    exact ⟨taken.length - 1, by omega, taken, inside, by omega, rfl⟩

theorem nonemptyCombinations_sizes (candidates : List α) :
    (nonemptyCombinations candidates).Pairwise fun earlier later => earlier.length ≤ later.length := by
  rw [nonemptyCombinations, List.pairwise_flatMap]
  constructor
  · intro size _
    refine List.pairwise_of_forall_mem_list fun first firstMember second secondMember => ?_
    obtain ⟨_, _, firstSize, same⟩ := mem_appendCombinations.mp firstMember
    obtain ⟨_, _, secondSize, equal⟩ := mem_appendCombinations.mp secondMember
    rw [same, equal, List.nil_append, List.nil_append]
    omega
  · refine List.pairwise_lt_range.imp fun smaller first firstMember second secondMember => ?_
    obtain ⟨_, _, firstSize, same⟩ := mem_appendCombinations.mp firstMember
    obtain ⟨_, _, secondSize, equal⟩ := mem_appendCombinations.mp secondMember
    rw [same, equal, List.nil_append, List.nil_append]
    omega

end

section

variable {σ : Type} (below : σ → σ → Prop) (passes : σ → Prop)

structure Minimal (passed kept : List σ) : Prop where
  sound : ∀ item ∈ kept, item ∈ passed ∧ passes item ∧
    ∀ other ∈ passed, passes other → below other item → below item other
  complete : ∀ item ∈ passed, passes item → ∃ found ∈ kept, below found item

variable {below passes} {passed kept : List σ} {item : σ}

theorem minimal_start : Minimal below passes [] [] :=
  ⟨fun _ member => absurd member List.not_mem_nil, fun _ member => absurd member List.not_mem_nil⟩

theorem Minimal.sound_append (minimal : Minimal below passes passed kept)
    (ordered : ∀ earlier ∈ passed, below item earlier → below earlier item) :
    ∀ found ∈ kept, found ∈ passed ++ [item] ∧ passes found ∧
      ∀ other ∈ passed ++ [item], passes other → below other found → below found other := by
  intro found member
  obtain ⟨listed, good, least⟩ := minimal.sound found member
  refine ⟨List.mem_append_left _ listed, good, fun other inside otherGood under => ?_⟩
  rcases List.mem_append.mp inside with earlier | last
  · exact least other earlier otherGood under
  · cases List.mem_singleton.mp last
    exact ordered found listed under

theorem Minimal.skip (minimal : Minimal below passes passed kept)
    (ordered : ∀ earlier ∈ passed, below item earlier → below earlier item)
    (useless : (∃ found ∈ kept, below found item) ∨ ¬ passes item) :
    Minimal below passes (passed ++ [item]) kept := by
  refine ⟨minimal.sound_append ordered, fun other inside good => ?_⟩
  rcases List.mem_append.mp inside with earlier | last
  · exact minimal.complete other earlier good
  · cases List.mem_singleton.mp last
    exact useless.resolve_right (not_not_intro good)

theorem Minimal.keep (minimal : Minimal below passes passed kept) (refl : below item item)
    (trans : ∀ first second, below first second → below second item → below first item)
    (ordered : ∀ earlier ∈ passed, below item earlier → below earlier item)
    (fresh : ¬ ∃ found ∈ kept, below found item) (good : passes item) :
    Minimal below passes (passed ++ [item]) (kept ++ [item]) := by
  constructor
  · intro found member
    rcases List.mem_append.mp member with earlier | last
    · exact minimal.sound_append ordered found earlier
    · cases List.mem_singleton.mp last
      refine ⟨List.mem_append_right _ last, good, fun other inside otherGood under => ?_⟩
      rcases List.mem_append.mp inside with listed | same
      · obtain ⟨kept, held, least⟩ := minimal.complete other listed otherGood
        exact absurd ⟨kept, held, trans _ _ least under⟩ fresh
      · cases List.mem_singleton.mp same
        exact refl
  · intro other inside otherGood
    rcases List.mem_append.mp inside with earlier | last
    · obtain ⟨found, held, least⟩ := minimal.complete other earlier otherGood
      exact ⟨found, List.mem_append_left _ held, least⟩
    · cases List.mem_singleton.mp last
      exact ⟨item, List.mem_append_right _ (List.mem_singleton.mpr rfl), refl⟩

end

end EmuChef.MinimalSets
