import EmuChef.Lib.CanonicalJson

/-! YAML value trees: any value is a key of a mapping, and a value may carry a tag. -/

namespace EmuChef

inductive NonFinite where
  | notANumber
  | infinity
  | negativeInfinity
  deriving DecidableEq

inductive Yaml where
  | null
  | bool (value : Bool)
  | integer (value : Int)
  | float (digits : String)
  | nonFinite (value : NonFinite)
  | string (text : String)
  | sequence (items : List Yaml)
  | mapping (entries : List (Yaml × Yaml))
  | tagged (tag : String) (value : Yaml)

namespace Yaml

@[elab_as_elim] theorem induct {motive : Yaml → Prop} (null : motive null)
    (bool : ∀ value, motive (bool value)) (integer : ∀ value, motive (integer value))
    (float : ∀ digits, motive (float digits)) (nonFinite : ∀ value, motive (nonFinite value))
    (string : ∀ text, motive (string text))
    (sequence : ∀ items, (∀ item ∈ items, motive item) → motive (sequence items))
    (mapping : ∀ entries, (∀ entry ∈ entries, motive entry.1 ∧ motive entry.2) →
      motive (mapping entries))
    (tagged : ∀ tag value, motive value → motive (tagged tag value)) (value : Yaml) :
    motive value :=
  @Yaml.rec motive (fun items => ∀ item ∈ items, motive item)
    (fun entries => ∀ entry ∈ entries, motive entry.1 ∧ motive entry.2)
    (fun entry => motive entry.1 ∧ motive entry.2)
    null bool integer float nonFinite string sequence mapping tagged
    (fun _ member => (List.not_mem_nil member).elim)
    (fun _ _ first rest => List.forall_mem_cons.mpr ⟨first, rest⟩)
    (fun _ member => (List.not_mem_nil member).elim)
    (fun _ _ first rest => List.forall_mem_cons.mpr ⟨first, rest⟩)
    (fun _ _ first second => ⟨first, second⟩) value

def asStr : Yaml → Option String
  | string text => some text
  | tagged _ value => asStr value
  | _ => none

def asI64 : Yaml → Option Int
  | integer value => if -(2 ^ 63) ≤ value ∧ value < 2 ^ 63 then some value else none
  | tagged _ value => asI64 value
  | _ => none

def asBool : Yaml → Option Bool
  | bool value => some value
  | tagged _ value => asBool value
  | _ => none

def isText (key : String) : Yaml → Bool
  | string text => text = key
  | _ => false

theorem isText_iff {key : String} {value : Yaml} : value.isText key = true ↔ value = string key := by
  cases value with
  | string text => simp [isText]
  | _ => simp [isText]

def get? (entries : List (Yaml × Yaml)) (key : String) : Option Yaml :=
  (entries.find? fun entry => entry.1.isText key).map Prod.snd

@[simp] theorem get?_nil {key : String} : get? [] key = none := rfl

@[simp] theorem get?_cons {text key : String} {value : Yaml} {rest : List (Yaml × Yaml)} :
    get? ((string text, value) :: rest) key = if text = key then some value else get? rest key := by
  by_cases same : text = key
  · simp [get?, isText, same]
  · simp [get?, isText, same]

mutual

def equal : Yaml → Yaml → Bool
  | null, null => true
  | bool first, bool second => first = second
  | integer first, integer second => first = second
  | float first, float second => first = second
  | nonFinite first, nonFinite second => first = second
  | string first, string second => first = second
  | sequence first, sequence second => equalItems first second
  | mapping first, mapping second => first.length = second.length && entriesWithin first second
  | tagged first value, tagged second other => first = second && equal value other
  | _, _ => false
termination_by structural first => first

def equalItems : List Yaml → List Yaml → Bool
  | [], [] => true
  | first :: rest, second :: others => equal first second && equalItems rest others
  | _, _ => false
termination_by structural first => first

def entriesWithin : List (Yaml × Yaml) → List (Yaml × Yaml) → Bool
  | [], _ => true
  | entry :: rest, others =>
      others.any (fun other => equalEntry entry other) && entriesWithin rest others
termination_by structural first => first

def equalEntry : Yaml × Yaml → Yaml × Yaml → Bool
  | (key, value), other => equal key other.1 && equal value other.2
termination_by structural first => first

end

theorem entriesWithin_iff {entries others : List (Yaml × Yaml)} :
    entriesWithin entries others = true ↔ ∀ entry ∈ entries, ∃ other ∈ others,
      entry.1.equal other.1 = true ∧ entry.2.equal other.2 = true := by
  induction entries with
  | nil => simp [entriesWithin]
  | cons entry rest ih =>
      obtain ⟨key, value⟩ := entry
      simp only [entriesWithin, Bool.and_eq_true, ih, List.forall_mem_cons, List.any_eq_true,
        equalEntry]

theorem equal_mapping {entries others : List (Yaml × Yaml)} :
    (mapping entries).equal (mapping others) = true ↔
      entries.length = others.length ∧ ∀ entry ∈ entries, ∃ other ∈ others,
        entry.1.equal other.1 = true ∧ entry.2.equal other.2 = true := by
  rw [equal, Bool.and_eq_true, entriesWithin_iff, decide_eq_true_eq]

theorem equal_string {text : String} {value : Yaml} :
    (string text).equal value = true ↔ value = string text := by
  cases value with
  | string other => simp [equal, eq_comm]
  | _ => simp [equal]

theorem equal_to_string {text : String} {value : Yaml} :
    value.equal (string text) = true ↔ value = string text := by
  cases value with
  | string other => simp [equal]
  | _ => simp [equal]

theorem equalItems_cons {first : Yaml} {rest others : List Yaml} :
    equalItems (first :: rest) others = true ↔
      ∃ second tail, others = second :: tail ∧ first.equal second = true ∧
        equalItems rest tail = true := by
  cases others with
  | nil => simp [equalItems]
  | cons second tail => simp [equalItems]

mutual

def distinct : Yaml → Prop
  | sequence items => distinctItems items
  | mapping entries =>
      entries.Pairwise (fun first second => first.1.equal second.1 = false) ∧ distinctEntries entries
  | tagged _ value => distinct value
  | _ => True

def distinctItems : List Yaml → Prop
  | [] => True
  | item :: rest => distinct item ∧ distinctItems rest

def distinctEntries : List (Yaml × Yaml) → Prop
  | [] => True
  | entry :: rest => distinctEntry entry ∧ distinctEntries rest

def distinctEntry : Yaml × Yaml → Prop
  | (key, value) => distinct key ∧ distinct value

end

@[simp] theorem distinct_string {text : String} : (string text).distinct := trivial

@[simp] theorem distinct_bool {value : Bool} : (bool value).distinct := trivial

@[simp] theorem distinct_integer {value : Int} : (integer value).distinct := trivial

@[simp] theorem distinct_null : null.distinct := trivial

theorem distinct_sequence {items : List Yaml} :
    (sequence items).distinct ↔ ∀ item ∈ items, distinct item := by
  rw [distinct]
  induction items with
  | nil => simp [distinctItems]
  | cons item rest ih => rw [distinctItems, ih, List.forall_mem_cons]

theorem distinctEntries_iff {entries : List (Yaml × Yaml)} :
    distinctEntries entries ↔ ∀ entry ∈ entries, distinct entry.1 ∧ distinct entry.2 := by
  induction entries with
  | nil => simp [distinctEntries]
  | cons entry rest ih => rw [distinctEntries, ih, List.forall_mem_cons, distinctEntry]

theorem distinct_mapping {entries : List (Yaml × Yaml)} :
    (mapping entries).distinct ↔
      entries.Pairwise (fun first second => first.1.equal second.1 = false) ∧
        ∀ entry ∈ entries, distinct entry.1 ∧ distinct entry.2 := by
  rw [distinct, distinctEntries_iff]

def ofTexts (entries : List (String × Yaml)) : List (Yaml × Yaml) :=
  entries.map fun entry => (string entry.1, entry.2)

theorem distinct_ofTexts {entries : List (String × Yaml)} :
    (mapping (ofTexts entries)).distinct ↔
      (entries.map Prod.fst).Nodup ∧ ∀ entry ∈ entries, distinct entry.2 := by
  rw [distinct_mapping, ofTexts, List.pairwise_map, List.Nodup, List.pairwise_map,
    List.forall_mem_map]
  refine and_congr (by simp [equal]) ?_
  exact forall₂_congr fun entry _ => and_iff_right trivial

theorem get?_ofTexts {entries : List (String × Yaml)} (distinct : (entries.map Prod.fst).Nodup)
    {key : String} {value : Yaml} :
    get? (ofTexts entries) key = some value ↔ (key, value) ∈ entries := by
  rw [← @OrderedMap.get?_eq_some _ _ _ _ ⟨entries, distinct⟩, get?, ofTexts, List.find?_map,
    Option.map_map]
  rfl

mutual

def plain : Yaml → Bool
  | nonFinite _ => false
  | tagged _ _ => false
  | sequence items => plainItems items
  | mapping entries => plainEntries entries
  | _ => true

def plainItems : List Yaml → Bool
  | [] => true
  | item :: rest => plain item && plainItems rest

def plainEntries : List (Yaml × Yaml) → Bool
  | [] => true
  | entry :: rest => plainEntry entry && plainEntries rest

def plainEntry : Yaml × Yaml → Bool
  | (string _, value) => plain value
  | _ => false

end

theorem plain_sequence {items : List Yaml} :
    (sequence items).plain = true ↔ ∀ item ∈ items, item.plain = true := by
  rw [plain]
  induction items with
  | nil => simp [plainItems]
  | cons item rest ih => rw [plainItems, Bool.and_eq_true, ih, List.forall_mem_cons]

theorem plainEntry_iff {key value : Yaml} :
    plainEntry (key, value) = true ↔ (∃ text, key = string text) ∧ value.plain = true := by
  cases key with
  | string text => simp [plainEntry]
  | _ => simp [plainEntry]

theorem plain_mapping {entries : List (Yaml × Yaml)} :
    (mapping entries).plain = true ↔
      ∀ entry ∈ entries, (∃ text, entry.1 = string text) ∧ entry.2.plain = true := by
  rw [plain]
  induction entries with
  | nil => simp [plainEntries]
  | cons entry rest ih =>
      rw [plainEntries, Bool.and_eq_true, ih, List.forall_mem_cons, plainEntry_iff]

theorem plain_of_equal {value : Yaml} :
    ∀ {other : Yaml}, value.equal other = true → other.plain = true → value.plain = true := by
  induction value using induct with
  | nonFinite value =>
      intro other same held
      cases other with
      | nonFinite _ => cases held
      | _ => simp [equal] at same
  | tagged tag value _ =>
      intro other same held
      cases other with
      | tagged _ _ => cases held
      | _ => simp [equal] at same
  | sequence items ih =>
      intro other same held
      cases other with
      | sequence others =>
          rw [equal] at same
          rw [plain_sequence] at held ⊢
          induction items generalizing others with
          | nil => simp
          | cons item rest step =>
              obtain ⟨second, tail, rfl, first, later⟩ := equalItems_cons.mp same
              rw [List.forall_mem_cons] at ih held ⊢
              exact ⟨ih.1 first held.1, step ih.2 tail later held.2⟩
      | _ => simp [equal] at same
  | mapping entries ih =>
      intro other same held
      cases other with
      | mapping others =>
          rw [plain_mapping] at held ⊢
          intro entry member
          obtain ⟨other, kept, keys, values⟩ := (equal_mapping.mp same).2 entry member
          obtain ⟨⟨text, named⟩, settled⟩ := held other kept
          rw [named, equal_to_string] at keys
          exact ⟨⟨text, keys⟩, (ih entry member).2 values settled⟩
      | _ => simp [equal] at same
  | _ => exact fun _ _ => rfl

mutual

def ofJson : Json → Yaml
  | .null => null
  | .bool value => bool value
  | .integer value => integer value
  | .decimal digits => float digits
  | .string text => string text
  | .array items => sequence (ofItems items)
  | .object fields => mapping (ofTexts (keyed (ofFields fields)))

def ofItems : List Json → List Yaml
  | [] => []
  | item :: rest => ofJson item :: ofItems rest

def ofFields : List (String × Json) → List (String × Yaml)
  | [] => []
  | field :: rest => ofField field :: ofFields rest

def ofField : String × Json → String × Yaml
  | (name, value) => (name, ofJson value)

end

theorem ofItems_eq (items : List Json) : ofItems items = items.map ofJson := by
  induction items with
  | nil => rfl
  | cons item rest ih => rw [ofItems, ih, List.map_cons]

theorem ofFields_eq (fields : List (String × Json)) :
    ofFields fields = fields.map fun field => (field.1, ofJson field.2) := by
  induction fields with
  | nil => rfl
  | cons field rest ih => rw [ofFields, ih, List.map_cons, ofField]

theorem ofJson_object {fields : List (String × Json)} (names : (fields.map Prod.fst).Nodup) :
    ofJson (.object fields) =
      mapping (ofTexts ((sortKeys fields).map fun field => (field.1, ofJson field.2))) := by
  have kept : ((ofFields fields).map Prod.fst).Nodup := by
    rw [ofFields_eq, List.map_map]
    exact names
  rw [ofJson, keyed_eq_sortKeys kept, ofFields_eq, sortKeys_map fun field => ofJson field.2]

theorem mem_of_mem_ofJson_object {fields : List (String × Json)} {entry : String × Yaml}
    (member : entry ∈ keyed (ofFields fields)) :
    ∃ field ∈ fields, entry.2 = ofJson field.2 := by
  rw [ofFields_eq] at member
  have held := OrderedMap.mem_of_get?_ofList (OrderedMap.get?_eq_some.mpr member)
  obtain ⟨field, kept, same⟩ := List.mem_map.mp (mem_sortKeys.mp held)
  exact ⟨field, kept, (congrArg Prod.snd same).symm⟩

theorem plain_ofJson {value : Json} : (ofJson value).plain = true := by
  induction value using Json.induct with
  | array items ih =>
      rw [ofJson, ofItems_eq, plain_sequence]
      intro item member
      obtain ⟨origin, held, rfl⟩ := List.mem_map.mp member
      exact ih origin held
  | object fields ih =>
      rw [ofJson, plain_mapping, ofTexts, List.forall_mem_map]
      intro entry member
      obtain ⟨field, held, same⟩ := mem_of_mem_ofJson_object member
      exact ⟨⟨entry.1, rfl⟩, by rw [same]; exact ih field held⟩
  | _ => rfl

theorem distinct_ofJson {value : Json} : (ofJson value).distinct := by
  induction value using Json.induct with
  | array items ih =>
      rw [ofJson, ofItems_eq, distinct_sequence]
      intro item member
      obtain ⟨origin, held, rfl⟩ := List.mem_map.mp member
      exact ih origin held
  | object fields ih =>
      rw [ofJson, distinct_ofTexts]
      refine ⟨nodup_keyed _, fun entry member => ?_⟩
      obtain ⟨field, held, same⟩ := mem_of_mem_ofJson_object member
      rw [same]
      exact ih field held
  | _ => trivial

theorem ofJson_canonical {value : Json} : value.distinct → ofJson value.canonical = ofJson value := by
  induction value using Json.induct with
  | array items ih =>
      intro distinct
      have each := Json.distinct_array.mp distinct
      rw [Json.canonical, ofJson, ofJson, ofItems_eq, ofItems_eq, Json.canonicalItems_eq, List.map_map]
      exact congrArg sequence (List.map_congr_left fun item member => ih item member (each item member))
  | object fields ih =>
      intro distinct
      obtain ⟨names, values⟩ := Json.distinct_object.mp distinct
      have kept : (((sortKeys fields).map fun field => (field.1, Json.canonical field.2)).map
          Prod.fst).Nodup := by
        rw [List.map_map]
        exact nodup_sortKeys.mpr names
      rw [Json.canonical_object names, ofJson_object kept, ofJson_object names,
        sortKeys_map fun field => Json.canonical field.2, sortKeys_sortKeys, List.map_map]
      refine congrArg mapping (congrArg ofTexts (List.map_congr_left fun field member => ?_))
      have held := mem_sortKeys.mp member
      exact Prod.ext rfl (ih field held (values field held))
  | _ => exact fun _ => rfl

end Yaml

end EmuChef
