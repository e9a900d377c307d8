import Mathlib.Data.List.Perm.Basic

/-! Items sorted into groups by a key. -/

namespace EmuChef.Grouping

variable {α κ : Type} [DecidableEq κ]

def group (key : α → κ) (items : List α) (wanted : κ) : List α :=
  items.filter fun item => key item = wanted

variable {key : α → κ} {items : List α} {keys : List κ}

theorem mem_group {wanted : κ} {item : α} :
    item ∈ group key items wanted ↔ item ∈ items ∧ key item = wanted := by
  simp [group]

theorem group_sublist (wanted : κ) : (group key items wanted).Sublist items :=
  List.filter_sublist

theorem group_cons (item : α) (wanted : κ) :
    group key (item :: items) wanted =
      if key item = wanted then item :: group key items wanted else group key items wanted := by
  by_cases same : key item = wanted <;> simp [group, same]

theorem groups_cons_perm {item : α} (distinct : keys.Nodup) (listed : key item ∈ keys) :
    (keys.map (group key (item :: items))).flatten.Perm
      (item :: (keys.map (group key items)).flatten) := by
  have others : ∀ rest : List κ, key item ∉ rest →
      rest.map (group key (item :: items)) = rest.map (group key items) := by
    intro rest absent
    apply List.map_congr_left
    intro wanted member
    rw [group_cons, if_neg]
    rintro rfl
    exact absent member
  obtain ⟨before, after, split⟩ := List.append_of_mem listed
  rw [split] at distinct ⊢
  have absent := List.nodup_append.mp distinct
  have notBefore : key item ∉ before := fun member =>
    absent.2.2 (key item) member (key item) (by simp) rfl
  have notAfter : key item ∉ after := (List.nodup_cons.mp absent.2.1).1
  rw [List.map_append, List.map_cons, List.map_append, List.map_cons, others before notBefore,
    others after notAfter, group_cons, if_pos rfl]
  simp only [List.flatten_append, List.flatten_cons, List.cons_append]
  exact List.perm_middle

theorem groups_perm (distinct : keys.Nodup) (covers : ∀ item ∈ items, key item ∈ keys) :
    (keys.map (group key items)).flatten.Perm items := by
  induction items with
  | nil =>
      have empty : (keys.map (group key [])).flatten = [] := by
        apply List.flatten_eq_nil_iff.mpr
        intro group member
        obtain ⟨_, _, rfl⟩ := List.mem_map.mp member
        rfl
      rw [empty]
  | cons item rest ih =>
      have restPerm := ih fun other member => covers other (by simp [member])
      exact (groups_cons_perm distinct (covers item (by simp))).trans (restPerm.cons item)

theorem nested_groups_perm {ι : Type} [DecidableEq ι] {inner : α → ι} {inners : List ι}
    (distinct : keys.Nodup) (covers : ∀ item ∈ items, key item ∈ keys)
    (innerDistinct : inners.Nodup) (innerCovers : ∀ item ∈ items, inner item ∈ inners) :
    ((keys.map fun wanted => inners.map (group inner (group key items wanted))).flatten.flatten).Perm
      items := by
  have each : ∀ wanted ∈ keys,
      (inners.map (group inner (group key items wanted))).flatten.Perm (group key items wanted) :=
    fun wanted _ => groups_perm innerDistinct fun item member =>
      innerCovers item (mem_group.mp member).1
  have flat : (keys.map fun wanted =>
      inners.map (group inner (group key items wanted))).flatten.flatten =
        keys.flatMap fun wanted => (inners.map (group inner (group key items wanted))).flatten := by
    rw [List.flatten_flatten, List.map_map, List.flatMap_def]
    rfl
  rw [flat]
  refine (List.Perm.flatMap_left keys each).trans ?_
  rw [List.flatMap_def]
  exact groups_perm distinct covers

end EmuChef.Grouping
