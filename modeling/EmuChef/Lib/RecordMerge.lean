import Mathlib.Data.List.Induction

/-! Records of a report that are merged by their keys, in the order in which the keys first appear.
-/

namespace EmuChef.RecordMerge

structure Merge (κ α β : Type) where
  shared : κ → Bool
  fresh : κ → α
  key : α → κ
  apply : α → β → α
  key_fresh : ∀ name, key (fresh name) = name
  key_apply : ∀ item line, key (apply item line) = key item

variable {κ α β : Type} (merge : Merge κ α β)

def Merge.applyAll (item : α) (body : List β) : α := body.foldl merge.apply item

section

variable [DecidableEq κ]

def Merge.upsert (items : List α) (name : κ) : List α × Nat :=
  match items.findIdx? fun item => merge.shared (merge.key item) && merge.key item = name with
  | some index => (items, index)
  | none => (items ++ [merge.fresh name], items.length)

def Merge.record (items : List α) (entry : κ × List β) : List α :=
  (merge.upsert items entry.1).1.modify (merge.upsert items entry.1).2 (merge.applyAll · entry.2)

def Merge.records (entries : List (κ × List β)) : List α := entries.foldl merge.record []

def Merge.merged (entries : List (κ × List β)) (name : κ) : α :=
  merge.applyAll (merge.fresh name)
    ((entries.filter fun entry => entry.1 = name).flatMap Prod.snd)

end

def Merge.Unique (items : List α) : Prop :=
  items.Pairwise fun first second =>
    merge.key first = merge.key second → merge.shared (merge.key first) = false

@[simp] theorem key_applyAll (item : α) (body : List β) :
    merge.key (merge.applyAll item body) = merge.key item := by
  induction body generalizing item with
  | nil => rfl
  | cons line rest ih => exact (ih (merge.apply item line)).trans (merge.key_apply item line)

theorem applyAll_append (item : α) (first second : List β) :
    merge.applyAll item (first ++ second) = merge.applyAll (merge.applyAll item first) second :=
  List.foldl_append

theorem modify_at (before after : List α) (item : α) (change : α → α) :
    (before ++ item :: after).modify before.length change = before ++ change item :: after := by
  induction before with
  | nil => rfl
  | cons first rest ih => exact congrArg (first :: ·) ih

theorem exists_of_findIdx? {items : List α} {test : α → Bool} {index : Nat}
    (found : items.findIdx? test = some index) :
    ∃ before item after, items = before ++ item :: after ∧ before.length = index ∧
      test item = true := by
  obtain ⟨bound, held, -⟩ := List.findIdx?_eq_some_iff_getElem.mp found
  refine ⟨items.take index, items[index], items.drop (index + 1), ?_, ?_, held⟩
  · rw [List.getElem_cons_drop, List.take_append_drop]
  · rw [List.length_take, Nat.min_eq_left (Nat.le_of_lt bound)]

section

variable [DecidableEq κ] {items : List α} {name : κ} {body : List β}

theorem record_fresh (absent : merge.shared name = true → name ∉ items.map merge.key) :
    merge.record items (name, body) = items ++ [merge.applyAll (merge.fresh name) body] := by
  have missing : items.findIdx? (fun item =>
      merge.shared (merge.key item) && merge.key item = name) = none := by
    refine List.findIdx?_eq_none_iff.mpr fun item member => ?_
    by_cases same : merge.key item = name
    · have unshared : merge.shared name = false := by
        cases shares : merge.shared name with
        | false => rfl
        | true => exact absurd (List.mem_map.mpr ⟨item, member, same⟩) (absent shares)
      simp [same, unshared]
    · simp [same]
  simp only [Merge.record, Merge.upsert, missing]
  exact modify_at items [] (merge.fresh name) _

theorem record_held (unique : merge.Unique items) (shares : merge.shared name = true)
    (held : name ∈ items.map merge.key) :
    merge.record items (name, body) =
      items.map fun item => if merge.key item = name then merge.applyAll item body else item := by
  obtain ⟨item, member, named⟩ := List.mem_map.mp held
  cases found : items.findIdx? (fun item =>
      merge.shared (merge.key item) && merge.key item = name) with
  | none =>
      have other := List.findIdx?_eq_none_iff.mp found item member
      simp [named, shares] at other
  | some index =>
      obtain ⟨before, first, after, rfl, rfl, matched⟩ := exists_of_findIdx? found
      have firstNamed : merge.key first = name := by
        simp only [Bool.and_eq_true, decide_eq_true_eq] at matched
        exact matched.2
      obtain ⟨-, later, across⟩ := List.pairwise_append.mp unique
      have noneBefore : ∀ other ∈ before, merge.key other ≠ name := by
        intro other inside same
        have unshared := across other inside first List.mem_cons_self (same.trans firstNamed.symm)
        rw [same, shares] at unshared
        cases unshared
      have noneAfter : ∀ other ∈ after, merge.key other ≠ name := by
        intro other inside same
        have unshared := (List.pairwise_cons.mp later).1 other inside (firstNamed.trans same.symm)
        rw [firstNamed, shares] at unshared
        cases unshared
      simp only [Merge.record, Merge.upsert, found]
      rw [modify_at, List.map_append, List.map_cons, if_pos firstNamed]
      congr 1
      · conv_lhs => rw [← List.map_id before]
        exact List.map_congr_left fun other inside => (if_neg (noneBefore other inside)).symm
      · congr 1
        conv_lhs => rw [← List.map_id after]
        exact List.map_congr_left fun other inside => (if_neg (noneAfter other inside)).symm

end

section

variable [DecidableEq κ] {entries : List (κ × List β)}

theorem records_append_singleton {entry : κ × List β} :
    merge.records (entries ++ [entry]) = merge.record (merge.records entries) entry := by
  rw [Merge.records, Merge.records, List.foldl_append]
  rfl

theorem merged_append_singleton {entry : κ × List β} {name : κ} :
    merge.merged (entries ++ [entry]) name =
      if entry.1 = name then merge.applyAll (merge.merged entries name) entry.2
      else merge.merged entries name := by
  simp only [Merge.merged, List.filter_append, List.flatMap_append]
  split
  next same => simp [same, applyAll_append]
  next other => simp [other]

theorem merged_absent {name : κ} (absent : ∀ entry ∈ entries, entry.1 ≠ name) :
    merge.merged entries name = merge.fresh name := by
  have none : (entries.filter fun entry => entry.1 = name) = [] :=
    List.filter_eq_nil_iff.mpr fun entry member => by simp [absent entry member]
  rw [Merge.merged, none]
  rfl

@[simp] theorem key_merged {name : κ} : merge.key (merge.merged entries name) = name := by
  rw [Merge.merged, key_applyAll, merge.key_fresh]

structure Merge.Merged (entries : List (κ × List β)) (items : List α) : Prop where
  unique : merge.Unique items
  mem_iff : ∀ item, item ∈ items ↔
    (∃ entry ∈ entries, merge.shared entry.1 = true ∧ item = merge.merged entries entry.1) ∨
      ∃ entry ∈ entries, merge.shared entry.1 = false ∧
        item = merge.applyAll (merge.fresh entry.1) entry.2

theorem Merge.Merged.mem_keys {merge : Merge κ α β} {items : List α}
    (merged : merge.Merged entries items) {name : κ} :
    name ∈ items.map merge.key ↔ ∃ entry ∈ entries, entry.1 = name := by
  constructor
  · intro held
    obtain ⟨item, member, rfl⟩ := List.mem_map.mp held
    rcases (merged.mem_iff item).mp member with ⟨entry, inside, -, rfl⟩ | ⟨entry, inside, -, rfl⟩
    · exact ⟨entry, inside, (key_merged merge).symm⟩
    · exact ⟨entry, inside, by rw [key_applyAll, merge.key_fresh]⟩
  · rintro ⟨entry, inside, rfl⟩
    cases shares : merge.shared entry.1 with
    | true =>
        have member := (merged.mem_iff _).mpr (.inl ⟨entry, inside, shares, rfl⟩)
        exact List.mem_map.mpr ⟨_, member, key_merged merge⟩
    | false =>
        have member := (merged.mem_iff _).mpr (.inr ⟨entry, inside, shares, rfl⟩)
        exact List.mem_map.mpr ⟨_, member, by rw [key_applyAll, merge.key_fresh]⟩

section

variable {merge} {items : List α} (merged : merge.Merged entries items) {name : κ} {body : List β}
include merged

theorem merged_record_unshared (unshared : merge.shared name = false) :
    merge.Merged (entries ++ [(name, body)]) (merge.record items (name, body)) := by
  rw [record_fresh merge fun shares => absurd (shares.symm.trans unshared) Bool.noConfusion]
  constructor
  · refine List.pairwise_append.mpr ⟨merged.unique, List.pairwise_singleton _ _, ?_⟩
    intro first _ second last same
    rw [List.mem_singleton.mp last, key_applyAll, merge.key_fresh] at same
    rw [same]
    exact unshared
  · intro item
    rw [List.mem_append, merged.mem_iff, List.mem_singleton]
    have other {entry : κ × List β} (shares : merge.shared entry.1 = true) : name ≠ entry.1 :=
      fun same => absurd (unshared.symm.trans (same ▸ shares)) Bool.noConfusion
    constructor
    · rintro ((⟨entry, inside, shares, rfl⟩ | ⟨entry, inside, left, rfl⟩) | rfl)
      · refine .inl ⟨entry, List.mem_append_left _ inside, shares, ?_⟩
        rw [merged_append_singleton, if_neg (other shares)]
      · exact .inr ⟨entry, List.mem_append_left _ inside, left, rfl⟩
      · exact .inr ⟨(name, body), List.mem_append_right _ (List.mem_singleton_self _), unshared, rfl⟩
    · rintro (⟨entry, inside, shares, rfl⟩ | ⟨entry, inside, left, rfl⟩)
      · rcases List.mem_append.mp inside with early | last
        · refine .inl (.inl ⟨entry, early, shares, ?_⟩)
          rw [merged_append_singleton, if_neg (other shares)]
        · cases List.mem_singleton.mp last
          exact absurd rfl (other shares)
      · rcases List.mem_append.mp inside with early | last
        · exact .inl (.inr ⟨entry, early, left, rfl⟩)
        · cases List.mem_singleton.mp last
          exact .inr rfl

theorem merged_record_held (shares : merge.shared name = true)
    (held : name ∈ items.map merge.key) :
    merge.Merged (entries ++ [(name, body)]) (merge.record items (name, body)) := by
  rw [record_held merge merged.unique shares held]
  have unnamed {entry : κ × List β} (left : merge.shared entry.1 = false) : entry.1 ≠ name :=
    fun same => absurd (left.symm.trans (same ▸ shares)) Bool.noConfusion
  constructor
  · refine List.pairwise_map.mpr (merged.unique.imp fun {first second} apart same => ?_)
    have kept (item : α) : merge.key (if merge.key item = name then
        merge.applyAll item body else item) = merge.key item := by
      split
      all_goals simp
    rw [kept, kept] at same
    rw [kept]
    exact apart same
  · intro item
    rw [List.mem_map]
    constructor
    · rintro ⟨old, member, rfl⟩
      rcases (merged.mem_iff old).mp member with ⟨entry, inside, sharing, rfl⟩ | ⟨entry, inside, left, rfl⟩
      · refine .inl ⟨entry, List.mem_append_left _ inside, sharing, ?_⟩
        rw [key_merged, merged_append_singleton]
        simp only [eq_comm]
      · refine .inr ⟨entry, List.mem_append_left _ inside, left, ?_⟩
        rw [key_applyAll, merge.key_fresh, if_neg (unnamed left)]
    · rintro (⟨entry, inside, sharing, rfl⟩ | ⟨entry, inside, left, rfl⟩)
      · have present : ∃ other ∈ entries, other.1 = entry.1 := by
          rcases List.mem_append.mp inside with early | last
          · exact ⟨entry, early, rfl⟩
          · cases List.mem_singleton.mp last
            exact merged.mem_keys.mp held
        obtain ⟨other, early, same⟩ := present
        refine ⟨merge.merged entries entry.1, (merged.mem_iff _).mpr (.inl ⟨other, early, ?_, ?_⟩), ?_⟩
        · rw [same]
          exact sharing
        · rw [same]
        · rw [key_merged, merged_append_singleton]
          simp only [eq_comm]
      · rcases List.mem_append.mp inside with early | last
        · refine ⟨_, (merged.mem_iff _).mpr (.inr ⟨entry, early, left, rfl⟩), ?_⟩
          rw [key_applyAll, merge.key_fresh, if_neg (unnamed left)]
        · cases List.mem_singleton.mp last
          exact absurd rfl (unnamed left)

theorem merged_record_fresh (shares : merge.shared name = true)
    (held : name ∉ items.map merge.key) :
    merge.Merged (entries ++ [(name, body)]) (merge.record items (name, body)) := by
  rw [record_fresh merge fun _ => held]
  have absent : ∀ entry ∈ entries, entry.1 ≠ name := fun entry member same =>
    held (merged.mem_keys.mpr ⟨entry, member, same⟩)
  constructor
  · refine List.pairwise_append.mpr ⟨merged.unique, List.pairwise_singleton _ _, ?_⟩
    intro first member second last same
    rw [List.mem_singleton.mp last, key_applyAll, merge.key_fresh] at same
    exact absurd (List.mem_map.mpr ⟨first, member, same⟩) held
  · intro item
    rw [List.mem_append, merged.mem_iff, List.mem_singleton]
    constructor
    · rintro ((⟨entry, inside, sharing, rfl⟩ | ⟨entry, inside, left, rfl⟩) | rfl)
      · refine .inl ⟨entry, List.mem_append_left _ inside, sharing, ?_⟩
        rw [merged_append_singleton, if_neg fun same => absent entry inside same.symm]
      · exact .inr ⟨entry, List.mem_append_left _ inside, left, rfl⟩
      · refine .inl ⟨(name, body), List.mem_append_right _ (List.mem_singleton_self _), shares, ?_⟩
        rw [merged_append_singleton, if_pos rfl, merged_absent merge absent]
    · rintro (⟨entry, inside, sharing, rfl⟩ | ⟨entry, inside, left, rfl⟩)
      · rw [merged_append_singleton]
        split
        next same =>
          cases same
          rw [merged_absent merge absent]
          exact .inr rfl
        next different =>
          rcases List.mem_append.mp inside with early | last
          · exact .inl (.inl ⟨entry, early, sharing, rfl⟩)
          · cases List.mem_singleton.mp last
            exact absurd rfl different
      · rcases List.mem_append.mp inside with early | last
        · exact .inl (.inr ⟨entry, early, left, rfl⟩)
        · cases List.mem_singleton.mp last
          exact absurd (left.symm.trans shares) Bool.noConfusion

end

/-- Each key keeps one record, merged from its bodies in their order. -/
theorem records_merged (entries : List (κ × List β)) :
    merge.Merged entries (merge.records entries) := by
  induction entries using List.reverseRecOn with
  | nil =>
      constructor
      · exact List.Pairwise.nil
      · intro item
        simp [Merge.records]
  | append_singleton entries entry ih =>
      rw [records_append_singleton]
      cases shares : merge.shared entry.1 with
      | false => exact merged_record_unshared ih shares
      | true =>
          by_cases held : entry.1 ∈ (merge.records entries).map merge.key
          · exact merged_record_held ih shares held
          · exact merged_record_fresh ih shares held

theorem find?_records {name : κ} (shares : merge.shared name = true)
    (held : ∃ entry ∈ entries, entry.1 = name) :
    (merge.records entries).find? (fun item => merge.key item = name) =
      some (merge.merged entries name) := by
  have merged := records_merged merge entries
  obtain ⟨entry, inside, named⟩ := held
  have member : merge.merged entries name ∈ merge.records entries :=
    (merged.mem_iff _).mpr (.inl ⟨entry, inside, by rw [named]; exact shares, by rw [named]⟩)
  cases found : (merge.records entries).find? fun item => merge.key item = name with
  | none =>
      have other := List.find?_eq_none.mp found _ member
      simp at other
  | some item =>
      have keyed : merge.key item = name := by simpa using List.find?_some found
      rcases (merged.mem_iff item).mp (List.mem_of_find?_eq_some found) with
        ⟨other, -, -, rfl⟩ | ⟨other, -, left, rfl⟩
      · rw [key_merged] at keyed
        rw [keyed]
      · rw [key_applyAll, merge.key_fresh] at keyed
        rw [keyed, shares] at left
        cases left

theorem find?_records_none {name : κ} (absent : ¬∃ entry ∈ entries, entry.1 = name) :
    (merge.records entries).find? (fun item => merge.key item = name) = none := by
  refine List.find?_eq_none.mpr fun item member named => absent ?_
  have keyed : merge.key item = name := by simpa using named
  exact (records_merged merge _).mem_keys.mp (List.mem_map.mpr ⟨item, member, keyed⟩)

theorem keys_record (items : List α) (entry : κ × List β) :
    items.map merge.key <+: (merge.record items entry).map merge.key := by
  have kept (before : List α) (index : Nat) :
      (before.modify index (merge.applyAll · entry.2)).map merge.key = before.map merge.key := by
    refine List.ext_getElem? fun position => ?_
    rw [List.getElem?_map, List.getElem?_modify, List.getElem?_map]
    cases before[position]? with
    | none => split_ifs <;> rfl
    | some item => split_ifs <;> simp
  rw [Merge.record, kept, Merge.upsert]
  split
  · exact List.prefix_refl _
  · rw [List.map_append]
    exact List.prefix_append _ _

theorem head?_records (entry : κ × List β) :
    ((merge.records (entry :: entries)).map merge.key).head? = some entry.1 := by
  have first : ((merge.record [] entry).map merge.key) = [entry.1] := by
    rw [show entry = (entry.1, entry.2) from rfl, record_fresh merge fun _ => List.not_mem_nil]
    simp [key_applyAll, merge.key_fresh]
  have grown (items : List α) :
      items.map merge.key <+: (entries.foldl merge.record items).map merge.key := by
    induction entries generalizing items with
    | nil => exact List.prefix_refl _
    | cons next rest ih => exact (keys_record merge items next).trans (ih _)
  obtain ⟨more, found⟩ := grown (merge.record [] entry)
  rw [first] at found
  rw [Merge.records, List.foldl_cons, ← found]
  rfl

end

end EmuChef.RecordMerge
