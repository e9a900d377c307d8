import Mathlib.Data.List.Basic
import Mathlib.Data.List.Induction
import Mathlib.Data.List.Nodup
import Mathlib.Data.List.NodupEquivFin

/-! Finite maps that remember the order in which their keys were first inserted. -/

namespace EmuChef

structure OrderedMap (κ α : Type) where
  entries : List (κ × α)
  distinct : (entries.map Prod.fst).Nodup
  deriving DecidableEq

namespace OrderedMap

variable {κ α β : Type} [DecidableEq κ]

def empty : OrderedMap κ α := ⟨[], by simp⟩

def keys (map : OrderedMap κ α) : List κ := map.entries.map Prod.fst

def values (map : OrderedMap κ α) : List α := map.entries.map Prod.snd

def get? (map : OrderedMap κ α) (key : κ) : Option α :=
  (map.entries.find? fun entry => entry.1 = key).map Prod.snd

def contains (map : OrderedMap κ α) (key : κ) : Bool := key ∈ map.keys

omit [DecidableEq κ] in
theorem ext_entries {first second : OrderedMap κ α} (same : first.entries = second.entries) :
    first = second := by
  obtain ⟨entries, _⟩ := first
  cases same
  rfl

omit [DecidableEq κ] in
theorem keys_nodup (map : OrderedMap κ α) : map.keys.Nodup := map.distinct

def storeEntry (entries : List (κ × α)) (key : κ) (value : α) : List (κ × α) :=
  match entries with
  | [] => [(key, value)]
  | entry :: rest =>
      if entry.1 = key then (key, value) :: rest else entry :: storeEntry rest key value

variable {entries : List (κ × α)} {value : α}

theorem mem_keys_storeEntry {key other : κ} : other ∈ (storeEntry entries key value).map Prod.fst ↔
      other = key ∨ other ∈ entries.map Prod.fst := by
  induction entries with
  | nil => simp [storeEntry]
  | cons entry rest ih =>
      rw [storeEntry]
      split
      next same => simp [← same]
      next different =>
        simp only [List.map_cons, List.mem_cons, ih]
        tauto

theorem nodup_storeEntry (distinct : (entries.map Prod.fst).Nodup)
    (key : κ) (value : α) : ((storeEntry entries key value).map Prod.fst).Nodup := by
  induction entries with
  | nil => simp [storeEntry]
  | cons entry rest ih =>
      rw [List.map_cons, List.nodup_cons] at distinct
      rw [storeEntry]
      split
      next same =>
        rw [List.map_cons, List.nodup_cons]
        exact same ▸ distinct
      next different =>
        rw [List.map_cons, List.nodup_cons, mem_keys_storeEntry]
        exact ⟨fun found => found.elim different distinct.1, ih distinct.2⟩

def insert (map : OrderedMap κ α) (key : κ) (value : α) : OrderedMap κ α :=
  ⟨storeEntry map.entries key value, nodup_storeEntry map.distinct key value⟩

def ofList (entries : List (κ × α)) : OrderedMap κ α :=
  entries.foldl (fun map entry => map.insert entry.1 entry.2) empty

variable {map : OrderedMap κ α} {key : κ}

theorem get?_eq_some : map.get? key = some value ↔ (key, value) ∈ map.entries := by
  obtain ⟨entries, distinct⟩ := map
  simp only [get?]
  induction entries with
  | nil => simp
  | cons entry rest ih =>
      rw [List.map_cons, List.nodup_cons] at distinct
      rw [List.find?_cons]
      by_cases same : entry.1 = key
      · have absent : (key, value) ∉ rest := by
          intro member
          exact distinct.1 (List.mem_map.mpr ⟨_, member, same.symm⟩)
        obtain ⟨found, held⟩ := entry
        subst same
        simp [absent, eq_comm]
      · simp only [same, decide_false, List.mem_cons]
        rw [ih distinct.2]
        constructor
        · exact .inr
        · rintro (rfl | member)
          · exact absurd rfl same
          · exact member

theorem get?_isSome : (map.get? key).isSome ↔ key ∈ map.keys := by
  rw [Option.isSome_iff_exists]
  simp only [get?_eq_some, keys, List.mem_map, Prod.exists, exists_and_right, exists_eq_right]

theorem get?_eq_none : map.get? key = none ↔ key ∉ map.keys := by
  rw [← get?_isSome, Option.not_isSome_iff_eq_none]

@[simp] theorem contains_iff : map.contains key = true ↔ (map.get? key).isSome := by
  rw [get?_isSome, contains, decide_eq_true_iff]

@[simp] theorem get?_empty (key : κ) : (empty : OrderedMap κ α).get? key = none := rfl

@[simp] theorem get?_insert {key other : κ} :
    (map.insert key value).get? other = if other = key then some value else map.get? other := by
  obtain ⟨entries, distinct⟩ := map
  simp only [get?, insert]
  clear distinct
  induction entries with
  | nil =>
      by_cases same : other = key
      · simp [storeEntry, same]
      · simp [storeEntry, same, Ne.symm same]
  | cons entry rest ih =>
      rw [storeEntry]
      by_cases held : entry.1 = key
      · by_cases same : other = key
        · simp [held, same]
        · simp [held, same, Ne.symm same]
      · rw [if_neg held, List.find?_cons, List.find?_cons]
        by_cases found : entry.1 = other
        · have different : other ≠ key := fun same => held (found.trans same)
          simp [found, different]
        · simpa [found] using ih

theorem keys_insert {key other : κ} :
    other ∈ (map.insert key value).keys ↔ other = key ∨ other ∈ map.keys :=
  mem_keys_storeEntry

theorem get?_foldl_insert (distinct : (entries.map Prod.fst).Nodup) :
    (entries.foldl (fun map entry => map.insert entry.1 entry.2) map).get? key = some value ↔
      (key, value) ∈ entries ∨ key ∉ entries.map Prod.fst ∧ map.get? key = some value := by
  induction entries generalizing map with
  | nil => simp
  | cons entry rest ih =>
      obtain ⟨first, held⟩ := entry
      rw [List.map_cons, List.nodup_cons] at distinct
      rw [List.foldl_cons, ih distinct.2]
      simp only [get?_insert, List.mem_cons, Prod.mk.injEq, List.map_cons, not_or]
      by_cases same : key = first
      · subst same
        have absent : (key, value) ∉ rest := fun member =>
          distinct.1 (List.mem_map.mpr ⟨_, member, rfl⟩)
        simp only [distinct.1, absent, not_false_eq_true, true_and, if_pos, Option.some.injEq,
          false_or, not_true_eq_false, false_and, or_false]
        exact eq_comm
      · simp only [same, false_and, false_or, if_false, not_false_eq_true, true_and]

theorem get?_ofList (distinct : (entries.map Prod.fst).Nodup) :
    (ofList entries).get? key = some value ↔ (key, value) ∈ entries := by
  rw [ofList, get?_foldl_insert distinct]
  simp

theorem mem_keys_ofList : key ∈ (ofList entries).keys ↔ key ∈ entries.map Prod.fst := by
  suffices general : ∀ map : OrderedMap κ α,
      key ∈ (entries.foldl (fun map entry => map.insert entry.1 entry.2) map).keys ↔
        key ∈ entries.map Prod.fst ∨ key ∈ map.keys by
    simpa [ofList, keys, empty] using general empty
  induction entries with
  | nil => simp
  | cons entry rest ih =>
      intro map
      rw [List.foldl_cons, ih, keys_insert, List.map_cons, List.mem_cons]
      tauto

theorem mem_of_get?_ofList
    (found : (ofList entries).get? key = some value) : (key, value) ∈ entries := by
  suffices general : ∀ map : OrderedMap κ α,
      (entries.foldl (fun map entry => map.insert entry.1 entry.2) map).get? key = some value →
        (key, value) ∈ entries ∨ map.get? key = some value by
    rcases general empty found with listed | held
    · exact listed
    · simp at held
  clear found
  induction entries with
  | nil => exact fun map held => .inr held
  | cons entry rest ih =>
      intro map held
      rcases ih _ held with later | here
      · exact .inl (List.mem_cons_of_mem _ later)
      · rw [get?_insert] at here
        split at here
        next same =>
          cases Option.some.inj here
          exact .inl (by simp [same])
        next => exact .inr here

theorem get?_ofList_of_agree
    (listed : (key, value) ∈ entries) (agree : ∀ other, (key, other) ∈ entries → other = value) :
    (ofList entries).get? key = some value := by
  have present : ((ofList entries).get? key).isSome :=
    get?_isSome.mpr (mem_keys_ofList.mpr (List.mem_map.mpr ⟨_, listed, rfl⟩))
  obtain ⟨held, found⟩ := Option.isSome_iff_exists.mp present
  rw [found, agree held (mem_of_get?_ofList found)]

theorem exists_last_of_get?_ofList (held : (ofList entries).get? key = some value) :
    ∃ before rest, entries = before ++ (key, value) :: rest ∧ key ∉ rest.map Prod.fst := by
  induction entries using List.reverseRecOn with
  | nil => cases held
  | append_singleton entries last ih =>
      rw [ofList, List.foldl_append, List.foldl_cons, List.foldl_nil, get?_insert] at held
      split_ifs at held with same
      · refine ⟨entries, [], ?_, List.not_mem_nil⟩
        rw [← Option.some.inj held]
        exact congrArg (entries ++ [·]) (Prod.ext same.symm rfl)
      · obtain ⟨before, rest, rfl, absent⟩ := ih held
        refine ⟨before, rest ++ [last], by simp, ?_⟩
        rw [List.map_append, List.mem_append, not_or]
        exact ⟨absent, by simpa using same⟩

theorem get?_ofList_last {before rest : List (κ × α)} (absent : key ∉ rest.map Prod.fst) :
    (ofList (before ++ (key, value) :: rest)).get? key = some value := by
  induction rest using List.reverseRecOn with
  | nil => simp [ofList, List.foldl_append]
  | append_singleton rest last ih =>
      rw [List.map_append, List.mem_append, not_or] at absent
      have apart : key ≠ last.1 := by simpa using absent.2
      have split : before ++ (key, value) :: (rest ++ [last]) =
          (before ++ (key, value) :: rest) ++ [last] := by simp
      rw [split, ofList, List.foldl_append, List.foldl_cons, List.foldl_nil, get?_insert, if_neg apart]
      exact ih absent.1

theorem length_keys_ofList (entries : List (κ × α)) :
    (ofList entries).keys.length ≤ entries.length := by
  have inside : (ofList entries).keys ⊆ entries.map Prod.fst := fun _ => mem_keys_ofList.mp
  simpa using (List.subperm_of_subset (ofList entries).keys_nodup inside).length_le

section

variable {other : κ}

def erase (map : OrderedMap κ α) (key : κ) : OrderedMap κ α where
  entries := map.entries.filter fun entry => entry.1 ≠ key
  distinct := map.distinct.sublist (List.filter_sublist.map Prod.fst)

@[simp] theorem get?_erase :
    (map.erase key).get? other = if other = key then none else map.get? other := by
  split
  next same =>
    rw [get?_eq_none, keys, List.mem_map]
    rintro ⟨entry, member, rfl⟩
    exact absurd same (by simpa [erase] using (List.mem_filter.mp member).2)
  next different =>
    refine Option.ext fun value => ?_
    rw [get?_eq_some, get?_eq_some, erase, List.mem_filter]
    simp [different]

theorem erase_eq_self (absent : key ∉ map.keys) : map.erase key = map := by
  obtain ⟨entries, distinct⟩ := map
  have kept : entries.filter (fun entry => entry.1 ≠ key) = entries := by
    rw [List.filter_eq_self]
    intro entry member
    simpa using fun same => absent (List.mem_map.mpr ⟨entry, member, same⟩)
  simp only [erase, kept]

end

section

variable {γ : Type} {other : α}

def mapValues (map : OrderedMap κ α) (rewrite : κ → α → β) : OrderedMap κ β where
  entries := map.entries.map fun entry => (entry.1, rewrite entry.1 entry.2)
  distinct := by simpa [List.map_map, Function.comp_def] using map.distinct

omit [DecidableEq κ] in
@[simp] theorem keys_mapValues {rewrite : κ → α → β} : (map.mapValues rewrite).keys = map.keys := by
  simp [keys, mapValues, List.map_map, Function.comp_def]

@[simp] theorem get?_mapValues {rewrite : κ → α → β} :
    (map.mapValues rewrite).get? key = (map.get? key).map (rewrite key) := by
  refine Option.ext fun value => ?_
  simp only [get?_eq_some, mapValues, List.mem_map, Option.map_eq_some_iff, Prod.mk.injEq]
  constructor
  · rintro ⟨⟨found, held⟩, member, rfl, rfl⟩
    exact ⟨held, member, rfl⟩
  · rintro ⟨held, member, rfl⟩
    exact ⟨(key, held), member, rfl, rfl⟩

omit [DecidableEq κ] in
theorem mapValues_mapValues {first : κ → α → β} {second : κ → β → γ} :
    (map.mapValues first).mapValues second =
      map.mapValues fun key value => second key (first key value) := by
  simp [mapValues, List.map_map, Function.comp_def]

omit [DecidableEq κ] in
theorem mapValues_congr {first second : κ → α → β}
    (same : ∀ key value, (key, value) ∈ map.entries → first key value = second key value) :
    map.mapValues first = map.mapValues second := by
  simp only [mapValues, mk.injEq, List.map_inj_left]
  rintro ⟨key, value⟩ member
  rw [same key value member]

omit [DecidableEq κ] in
theorem mapValues_eq_self {rewrite : κ → α → α}
    (same : ∀ entry ∈ map.entries, rewrite entry.1 entry.2 = entry.2) :
    map.mapValues rewrite = map := by
  have kept : map.entries.map (fun entry => (entry.1, rewrite entry.1 entry.2)) = map.entries := by
    conv_rhs => rw [← List.map_id map.entries]
    refine List.map_congr_left fun entry member => ?_
    rw [same entry member, id]
  simp only [mapValues, kept]

omit [DecidableEq κ] in
theorem mapValues_eq_self_iff {rewrite : κ → α → α} :
    map.mapValues rewrite = map ↔ ∀ entry ∈ map.entries, rewrite entry.1 entry.2 = entry.2 := by
  refine ⟨fun same => ?_, mapValues_eq_self⟩
  have entries : map.entries.map (fun entry => (entry.1, rewrite entry.1 entry.2)) =
      map.entries.map id := (congrArg OrderedMap.entries same).trans (List.map_id _).symm
  intro entry member
  exact congrArg Prod.snd (List.map_inj_left.mp entries entry member)

theorem insert_insert : (map.insert key value).insert key other = map.insert key other := by
  obtain ⟨entries, distinct⟩ := map
  simp only [insert, mk.injEq]
  clear distinct
  induction entries with
  | nil => simp [storeEntry]
  | cons entry rest ih =>
      by_cases same : entry.1 = key
      · simp [storeEntry, same]
      · simp [storeEntry, same, ih]

theorem insert_eq_self (held : map.get? key = some value) : map.insert key value = map := by
  obtain ⟨entries, distinct⟩ := map
  simp only [get?, insert, mk.injEq] at held ⊢
  clear distinct
  induction entries with
  | nil => simp at held
  | cons entry rest ih =>
      obtain ⟨first, stored⟩ := entry
      by_cases same : first = key
      · have stored_eq : stored = value := by simpa [same] using held
        simp [storeEntry, same, stored_eq]
      · rw [List.find?_cons_of_neg (by simpa using same)] at held
        simp [storeEntry, same, ih held]

theorem get?_renamed {renamed : OrderedMap κ α} {rename : κ → κ}
    (entries : renamed.entries = map.entries.map fun entry => (rename entry.1, entry.2))
    (separated : ∀ held ∈ map.keys, rename held = rename key → held = key) :
    renamed.get? (rename key) = map.get? key := by
  refine Option.ext fun value => ?_
  rw [get?_eq_some, get?_eq_some, entries, List.mem_map]
  constructor
  · rintro ⟨⟨found, held⟩, member, same⟩
    obtain ⟨named, rfl⟩ := Prod.mk.inj same
    rw [← separated found (List.mem_map.mpr ⟨_, member, rfl⟩) named]
    exact member
  · intro member
    exact ⟨(key, value), member, rfl⟩

end

section

variable {old : α} {before after : List (κ × α)}

theorem entries_insert_fresh (fresh : key ∉ map.keys) :
    (map.insert key value).entries = map.entries ++ [(key, value)] := by
  obtain ⟨entries, distinct⟩ := map
  simp only [insert, keys] at fresh ⊢
  clear distinct
  induction entries with
  | nil => rfl
  | cons entry rest ih =>
      rw [List.map_cons, List.mem_cons, not_or] at fresh
      rw [storeEntry, if_neg (Ne.symm fresh.1), ih fresh.2, List.cons_append]

theorem entries_ofList {entries : List (κ × α)} (distinct : (entries.map Prod.fst).Nodup) :
    (ofList entries).entries = entries := by
  suffices general : ∀ map : OrderedMap κ α, (map.keys ++ entries.map Prod.fst).Nodup →
      (entries.foldl (fun map entry => map.insert entry.1 entry.2) map).entries =
        map.entries ++ entries by
    simpa [ofList, empty, keys] using general empty (by simpa [empty, keys] using distinct)
  clear distinct
  induction entries with
  | nil => simp
  | cons entry rest ih =>
      intro map apart
      have fresh : entry.1 ∉ map.keys := by
        intro held
        exact (List.nodup_append.mp apart).2.2 _ held _ (.head _) rfl
      have grown : (map.insert entry.1 entry.2).keys = map.keys ++ [entry.1] := by
        rw [keys, entries_insert_fresh fresh, List.map_append]
        rfl
      rw [List.foldl_cons, ih _ (by simpa [grown] using apart), entries_insert_fresh fresh,
        List.append_assoc]
      rfl

omit [DecidableEq κ] in
theorem notMem_before (place : map.entries = before ++ (key, old) :: after) :
    key ∉ before.map Prod.fst ∧ key ∉ after.map Prod.fst := by
  have distinct := map.distinct
  rw [place, List.map_append, List.map_cons, List.nodup_middle, List.nodup_cons,
    List.mem_append, not_or] at distinct
  exact distinct.1

theorem entries_insert_at (place : map.entries = before ++ (key, old) :: after) :
    (map.insert key value).entries = before ++ (key, value) :: after := by
  have apart := (notMem_before place).1
  obtain ⟨entries, distinct⟩ := map
  simp only [insert] at place ⊢
  clear distinct
  subst place
  induction before with
  | nil => simp [storeEntry]
  | cons entry rest ih =>
      rw [List.map_cons, List.mem_cons, not_or] at apart
      rw [List.cons_append, storeEntry, if_neg (Ne.symm apart.1), ih apart.2, List.cons_append]

theorem entries_erase_at (place : map.entries = before ++ (key, old) :: after) :
    (map.erase key).entries = before ++ after := by
  have kept : ∀ held : List (κ × α), key ∉ held.map Prod.fst →
      held.filter (fun entry => entry.1 ≠ key) = held := by
    intro held absent
    rw [List.filter_eq_self]
    intro entry member
    simpa using fun same => absent (List.mem_map.mpr ⟨entry, member, same⟩)
  have apart := notMem_before place
  simp only [erase, place, List.filter_append, List.filter_cons]
  rw [kept before apart.1, kept after apart.2, if_neg (by simp)]

def revise (map : OrderedMap κ α) (rewrite : κ → α → Option α) : OrderedMap κ α where
  entries := map.entries.filterMap fun entry =>
    (rewrite entry.1 entry.2).map fun value => (entry.1, value)
  distinct := by
    refine map.distinct.sublist ?_
    generalize map.entries = entries
    induction entries with
    | nil => exact .slnil
    | cons entry rest ih =>
        rw [List.filterMap_cons]
        split
        next _ => exact ih.cons _
        next written held =>
          obtain ⟨value, _, rfl⟩ := Option.map_eq_some_iff.mp held
          exact ih.cons_cons _

theorem foldl_revise {rewrite : κ → α → Option α}
    {change : OrderedMap κ α → κ × α → OrderedMap κ α}
    (single : ∀ held key value, held.get? key = some value → change held (key, value) =
      (match rewrite key value with
        | some written => held.insert key written
        | none => held.erase key)) :
    map.entries.foldl change map = map.revise rewrite := by
  suffices general : ∀ (rest before : List (κ × α)) (held : OrderedMap κ α),
      held.entries = before ++ rest → (rest.foldl change held).entries =
        before ++ rest.filterMap fun entry =>
          (rewrite entry.1 entry.2).map fun value => (entry.1, value) by
    exact ext_entries (general map.entries [] map rfl)
  intro rest
  induction rest with
  | nil => exact fun before held place => by simpa using place
  | cons entry rest ih =>
      intro before held place
      obtain ⟨key, value⟩ := entry
      have found : held.get? key = some value := get?_eq_some.mpr (by simp [place])
      rw [List.foldl_cons, single held key value found]
      cases written : rewrite key value with
      | none =>
          rw [ih before _ (entries_erase_at place)]
          simp [written]
      | some written' =>
          rw [ih (before ++ [(key, written')]) _ (by simp [entries_insert_at place])]
          simp [written]

omit [DecidableEq κ] in
theorem revise_eq_mapValues {rewrite : κ → α → Option α} {write : κ → α → α}
    (same : ∀ key value, rewrite key value = some (write key value)) :
    map.revise rewrite = map.mapValues write := by
  refine ext_entries ?_
  simp only [revise, mapValues, same, Option.map_some, List.filterMap_eq_map']

omit [DecidableEq κ] in
theorem mem_entries_revise {rewrite : κ → α → Option α} {entry : κ × α} :
    entry ∈ (map.revise rewrite).entries ↔
      ∃ value, (entry.1, value) ∈ map.entries ∧ rewrite entry.1 value = some entry.2 := by
  obtain ⟨key, written⟩ := entry
  simp only [revise, List.mem_filterMap, Option.map_eq_some_iff, Prod.mk.injEq, Prod.exists]
  constructor
  · rintro ⟨held, value, member, written', rewritten, rfl, rfl⟩
    exact ⟨value, member, rewritten⟩
  · rintro ⟨value, member, rewritten⟩
    exact ⟨key, value, member, written, rewritten, rfl, rfl⟩

theorem insert_eq_mapValues (held : map.get? key = some old) :
    map.insert key value = map.mapValues fun name other => if name = key then value else other := by
  obtain ⟨before, after, place⟩ := List.append_of_mem (get?_eq_some.mp held)
  have kept : ∀ others : List (κ × α), key ∉ others.map Prod.fst →
      others.map (fun entry => (entry.1, if entry.1 = key then value else entry.2)) = others := by
    intro others absent
    refine (List.map_congr_left fun entry member => ?_).trans (List.map_id others)
    rw [if_neg fun same => absent (List.mem_map.mpr ⟨entry, member, same⟩), id]
  refine ext_entries ?_
  have rewritten : map.entries.map (fun entry => (entry.1, if entry.1 = key then value else entry.2)) =
      before ++ (key, value) :: after := by
    rw [place, List.map_append, List.map_cons, kept before (notMem_before place).1,
      kept after (notMem_before place).2, if_pos rfl]
  exact (entries_insert_at place).trans rewritten.symm

end

section

variable {former latter : κ}

def renameKey (map : OrderedMap κ α) (former latter : κ) : OrderedMap κ α :=
  ofList (map.entries.map fun entry => (if entry.1 = former then latter else entry.1, entry.2))

section

variable (free : latter = former ∨ latter ∉ map.keys)

include free

theorem renamed_inj {first second : κ} (inside : first ∈ map.keys) (member : second ∈ map.keys)
    (same : (if first = former then latter else first) =
      if second = former then latter else second) : first = second := by
  split_ifs at same with one other other
  · exact one.trans other.symm
  · rcases free with rfl | absent
    · exact one.trans same
    · exact absurd (same ▸ member) absent
  · rcases free with rfl | absent
    · exact same.trans other.symm
    · exact absurd (same ▸ inside) absent
  · exact same

theorem entries_renameKey : (map.renameKey former latter).entries =
      map.entries.map fun entry => (if entry.1 = former then latter else entry.1, entry.2) := by
  refine entries_ofList ?_
  have keys : (map.entries.map fun entry =>
      ((if entry.1 = former then latter else entry.1, entry.2) : κ × α)).map Prod.fst =
      map.keys.map fun key => if key = former then latter else key := by
    simp only [OrderedMap.keys, List.map_map, Function.comp_def]
  rw [keys]
  exact map.keys_nodup.map_on fun _ inside _ member => renamed_inj free inside member

theorem keys_renameKey : (map.renameKey former latter).keys =
      map.keys.map fun key => if key = former then latter else key := by
  simp only [keys, entries_renameKey free, List.map_map, Function.comp_def]

theorem values_renameKey : (map.renameKey former latter).values = map.values := by
  simp only [values, entries_renameKey free, List.map_map, Function.comp_def]

theorem get?_renameKey : (map.renameKey former latter).get? latter = map.get? former := by
  have moved := @get?_renamed κ α _ map former (map.renameKey former latter)
    (fun key => if key = former then latter else key) (entries_renameKey free)
  rw [if_pos rfl] at moved
  refine moved fun held member same => ?_
  split_ifs at same with named
  · exact named
  · rcases free with rfl | absent
    · exact same
    · exact absurd (same ▸ member) absent

end

@[simp] theorem renameKey_self : map.renameKey former former = map := by
  refine ext_entries ?_
  rw [entries_renameKey (.inl rfl)]
  refine (List.map_congr_left fun entry _ => ?_).trans (List.map_id map.entries)
  split_ifs with same
  · rw [← same, id]
  · rfl

/-- Renaming a key to an absent one is undone by renaming back. -/
theorem renameKey_back (absent : latter ∉ map.keys) :
    (map.renameKey former latter).renameKey latter former = map := by
  have gone : former = latter ∨ former ∉ (map.renameKey former latter).keys := by
    refine or_iff_not_imp_left.mpr fun other member => ?_
    rw [keys_renameKey (.inr absent), List.mem_map] at member
    obtain ⟨key, held, same⟩ := member
    split_ifs at same with named
    · exact other same.symm
    · exact named same
  refine ext_entries ?_
  rw [entries_renameKey gone, entries_renameKey (.inr absent), List.map_map]
  refine (List.map_congr_left fun entry member => ?_).trans (List.map_id map.entries)
  have apart : entry.1 ≠ latter := fun same => absent (same ▸ List.mem_map_of_mem member)
  by_cases named : entry.1 = former
  · simp [named]
    exact named ▸ rfl
  · simp [named, apart]

end

section

def indexOf? (map : OrderedMap κ α) (key : κ) : Option Nat := map.keys.findIdx? fun held => held = key

def shiftInsert (map : OrderedMap κ α) (index : Nat) (key : κ) (value : α) : OrderedMap κ α where
  entries := (map.erase key).entries.insertIdx index (key, value)
  distinct := by
    have absent : key ∉ (map.erase key).keys := get?_eq_none.mp (by simp)
    by_cases bound : index ≤ (map.erase key).entries.length
    · rw [((List.perm_insertIdx _ _ bound).map Prod.fst).nodup_iff, List.map_cons, List.nodup_cons]
      exact ⟨absent, (map.erase key).distinct⟩
    · rw [List.insertIdx_of_length_lt (by omega)]
      exact (map.erase key).distinct

theorem entries_shiftInsert_erase {source destination : κ} {index : Nat}
    (position : map.indexOf? source = some index) (held : map.get? source = some value)
    (free : destination ∉ map.keys) :
    ((map.erase source).shiftInsert index destination value).entries =
      map.entries.map fun entry => (if entry.1 = source then destination else entry.1, entry.2) := by
  have absent : destination ∉ (map.erase source).keys := by
    rw [← get?_eq_none, get?_erase]
    split
    next _ => rfl
    next _ => exact get?_eq_none.mpr free
  simp only [shiftInsert, erase_eq_self absent]
  obtain ⟨entries, distinct⟩ := map
  simp only [indexOf?, keys, get?, erase] at position held ⊢
  clear free absent
  induction entries generalizing index with
  | nil => simp at held
  | cons entry rest ih =>
      obtain ⟨first, stored⟩ := entry
      rw [List.map_cons, List.nodup_cons] at distinct
      by_cases same : first = source
      · subst same
        have others : ∀ entry ∈ rest, entry.1 ≠ first := fun entry member same =>
          distinct.1 (List.mem_map.mpr ⟨entry, member, same⟩)
        have kept : rest.filter (fun entry => entry.1 ≠ first) = rest := by
          rw [List.filter_eq_self]
          intro entry member
          simpa using others entry member
        have named : rest.map (fun entry => (if entry.1 = first then destination else entry.1, entry.2)) =
            rest := by
          refine (List.map_congr_left fun entry member => ?_).trans (List.map_id rest)
          rw [if_neg (others entry member)]
          rfl
        simp only [List.map_cons, List.findIdx?_cons, decide_true, if_true, Option.some.injEq]
          at position
        simp only [List.find?_cons, decide_true, Option.map_some, Option.some.injEq] at held
        subst position held
        rw [List.filter_cons_of_neg (by simp), kept, List.map_cons, named, if_pos rfl,
          List.insertIdx_zero]
      · rw [List.map_cons, List.findIdx?_cons, if_neg (by simpa using same)] at position
        obtain ⟨later, found, rfl⟩ := Option.map_eq_some_iff.mp position
        rw [List.find?_cons_of_neg (by simpa using same)] at held
        rw [List.filter_cons_of_pos (by simpa using same), List.insertIdx_succ_cons,
          ih distinct.2 found held, List.map_cons, if_neg same]

theorem exists_indexOf? (held : map.get? key = some value) : ∃ index, map.indexOf? key = some index := by
  have member : key ∈ map.keys := get?_isSome.mp (by rw [held, Option.isSome_some])
  rw [← Option.isSome_iff_exists, indexOf?, List.findIdx?_isSome, List.any_eq_true]
  exact ⟨key, member, by simp⟩

end

end OrderedMap

end EmuChef
