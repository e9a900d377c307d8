import EmuChef.Lib.Json
import Mathlib.Data.List.Sort
import Mathlib.Data.String.Basic

/-! JSON values whose objects list their fields in the order of the names. -/

namespace EmuChef

section

variable {α β : Type}

def sortKeys (entries : List (String × α)) : List (String × α) :=
  entries.insertionSort fun first second => first.1 ≤ second.1

def keyed (entries : List (String × α)) : List (String × α) :=
  (OrderedMap.ofList (sortKeys entries)).entries

instance keyOrder_total : Std.Total fun first second : String × α => first.1 ≤ second.1 :=
  ⟨fun first second => le_total first.1 second.1⟩

instance keyOrder_trans : IsTrans (String × α) fun first second => first.1 ≤ second.1 :=
  ⟨fun _ _ _ => le_trans⟩

theorem sortKeys_perm (entries : List (String × α)) : (sortKeys entries).Perm entries :=
  List.perm_insertionSort _ entries

variable {entries : List (String × α)}

@[simp] theorem mem_sortKeys {entry : String × α} :
    entry ∈ sortKeys entries ↔ entry ∈ entries :=
  (sortKeys_perm entries).mem_iff

theorem sortKeys_sorted (entries : List (String × α)) :
    (sortKeys entries).Pairwise fun first second => first.1 ≤ second.1 :=
  List.pairwise_insertionSort _ entries

@[simp] theorem sortKeys_sortKeys (entries : List (String × α)) :
    sortKeys (sortKeys entries) = sortKeys entries :=
  (sortKeys_sorted entries).insertionSort_eq

theorem nodup_sortKeys :
    ((sortKeys entries).map Prod.fst).Nodup ↔ (entries.map Prod.fst).Nodup :=
  ((sortKeys_perm entries).map Prod.fst).nodup_iff

theorem sortKeys_map (change : String × α → β) (entries : List (String × α)) :
    sortKeys (entries.map fun entry => (entry.1, change entry)) =
      (sortKeys entries).map fun entry => (entry.1, change entry) :=
  (List.map_insertionSort (fun first second : String × α => first.1 ≤ second.1)
    (fun first second : String × β => first.1 ≤ second.1) (fun entry => (entry.1, change entry))
    entries fun _ _ _ _ => Iff.rfl).symm

theorem nodup_keyed (entries : List (String × α)) : ((keyed entries).map Prod.fst).Nodup :=
  (OrderedMap.ofList (sortKeys entries)).distinct

theorem keyed_eq_sortKeys (distinct : (entries.map Prod.fst).Nodup) :
    keyed entries = sortKeys entries :=
  OrderedMap.entries_ofList (nodup_sortKeys.mpr distinct)

end

namespace Json

instance instInhabitedJson : Inhabited Json := ⟨null⟩

@[elab_as_elim] theorem induct {motive : Json → Prop} (null : motive null)
    (bool : ∀ value, motive (bool value)) (integer : ∀ value, motive (integer value))
    (decimal : ∀ digits, motive (decimal digits)) (string : ∀ text, motive (string text))
    (array : ∀ items, (∀ item ∈ items, motive item) → motive (array items))
    (object : ∀ fields, (∀ field ∈ fields, motive field.2) → motive (object fields))
    (value : Json) : motive value :=
  @Json.rec motive (fun items => ∀ item ∈ items, motive item)
    (fun fields => ∀ field ∈ fields, motive field.2) (fun field => motive field.2)
    null bool integer decimal string array object
    (fun _ member => (List.not_mem_nil member).elim)
    (fun _ _ first rest => List.forall_mem_cons.mpr ⟨first, rest⟩)
    (fun _ member => (List.not_mem_nil member).elim)
    (fun _ _ first rest => List.forall_mem_cons.mpr ⟨first, rest⟩)
    (fun _ _ held => held) value

mutual

def distinct : Json → Prop
  | array items => distinctItems items
  | object fields => (fields.map Prod.fst).Nodup ∧ distinctFields fields
  | _ => True

def distinctItems : List Json → Prop
  | [] => True
  | item :: rest => distinct item ∧ distinctItems rest

def distinctFields : List (String × Json) → Prop
  | [] => True
  | field :: rest => distinctField field ∧ distinctFields rest

def distinctField : String × Json → Prop
  | (_, value) => distinct value

end

theorem distinctItems_iff {items : List Json} :
    distinctItems items ↔ ∀ item ∈ items, distinct item := by
  induction items with
  | nil => simp [distinctItems]
  | cons item rest ih => rw [distinctItems, ih, List.forall_mem_cons]

theorem distinctFields_iff {fields : List (String × Json)} :
    distinctFields fields ↔ ∀ field ∈ fields, distinct field.2 := by
  induction fields with
  | nil => simp [distinctFields]
  | cons field rest ih => rw [distinctFields, ih, List.forall_mem_cons, distinctField]

theorem distinct_array {items : List Json} :
    (array items).distinct ↔ ∀ item ∈ items, distinct item := by
  rw [distinct, distinctItems_iff]

theorem distinct_object {fields : List (String × Json)} :
    (object fields).distinct ↔
      (fields.map Prod.fst).Nodup ∧ ∀ field ∈ fields, distinct field.2 := by
  rw [distinct, distinctFields_iff]

section

mutual

def canonical : Json → Json
  | array items => array (canonicalItems items)
  | object fields => object (keyed (canonicalFields fields))
  | other => other

def canonicalItems : List Json → List Json
  | [] => []
  | item :: rest => canonical item :: canonicalItems rest

def canonicalFields : List (String × Json) → List (String × Json)
  | [] => []
  | field :: rest => canonicalField field :: canonicalFields rest

def canonicalField : String × Json → String × Json
  | (name, value) => (name, canonical value)

end

theorem canonicalItems_eq (items : List Json) : canonicalItems items = items.map canonical := by
  induction items with
  | nil => rfl
  | cons item rest ih => rw [canonicalItems, ih, List.map_cons]

theorem canonicalFields_eq (fields : List (String × Json)) :
    canonicalFields fields = fields.map fun field => (field.1, canonical field.2) := by
  induction fields with
  | nil => rfl
  | cons field rest ih => rw [canonicalFields, ih, List.map_cons, canonicalField]

variable {fields : List (String × Json)}

theorem canonical_object (names : (fields.map Prod.fst).Nodup) : (object fields).canonical =
      object ((sortKeys fields).map fun field => (field.1, canonical field.2)) := by
  have kept : ((canonicalFields fields).map Prod.fst).Nodup := by
    rw [canonicalFields_eq, List.map_map]
    exact names
  rw [canonical, keyed_eq_sortKeys kept, canonicalFields_eq,
    sortKeys_map fun field => canonical field.2]

theorem field?_eq_some (names : (fields.map Prod.fst).Nodup) {name : String} {value : Json} :
    (object fields).field? name = some value ↔ (name, value) ∈ fields :=
  @OrderedMap.get?_eq_some _ _ _ value ⟨fields, names⟩ name

theorem fieldsWithin_iff {other : Json} :
    fieldsWithin fields other = true ↔
      ∀ field ∈ fields, ∃ found, other.field? field.1 = some found ∧ field.2.equal found = true := by
  induction fields with
  | nil => simp [fieldsWithin]
  | cons field rest ih =>
      rw [fieldsWithin, Bool.and_eq_true, ih, List.forall_mem_cons, fieldWithin]
      cases other.field? field.1 with
      | none => simp
      | some found => simp

theorem equalItems_map {items : List Json} {change : Json → Json}
    (each : ∀ item ∈ items, item.equal (change item) = true) :
    equalItems items (items.map change) = true := by
  induction items with
  | nil => simp [equalItems]
  | cons item rest ih =>
      rw [List.forall_mem_cons] at each
      rw [List.map_cons, equalItems, each.1, ih each.2, Bool.and_self]

/-- A value without repeated fields equals its canonical form. -/
theorem equal_canonical {value : Json} : value.distinct → value.equal value.canonical = true := by
  induction value using induct with
  | array items ih =>
      intro distinct
      rw [canonical, equal, canonicalItems_eq]
      exact equalItems_map fun item member => ih item member (distinct_array.mp distinct item member)
  | object fields ih =>
      intro distinct
      obtain ⟨names, values⟩ := distinct_object.mp distinct
      rw [canonical_object names, equal, List.length_map, (sortKeys_perm fields).length_eq]
      have kept : (((sortKeys fields).map fun field => (field.1, canonical field.2)).map
          Prod.fst).Nodup := by
        rw [List.map_map]
        exact nodup_sortKeys.mpr names
      simp only [decide_true, Bool.true_and]
      refine fieldsWithin_iff.mpr fun field member => ⟨field.2.canonical, ?_, ?_⟩
      · refine (field?_eq_some kept).mpr (List.mem_map.mpr ⟨field, ?_, rfl⟩)
        exact mem_sortKeys.mpr member
      · exact ih field member (values field member)
  | _ => exact fun _ => by simp [canonical, equal]

end

end Json

end EmuChef
