import EmuChef.Lib.Checks
import EmuChef.Lib.Yaml

/-! Typed values read from YAML trees, and the trees they are written as. A settled value is read
back from what is written of it. -/

namespace EmuChef.Serde

open Checks (mem_left_of_forall₂)

variable {α : Type}

mutual

def uniqueKeys : Yaml → Bool
  | .sequence items => uniqueItems items
  | .mapping entries =>
      decide (entries.Pairwise fun first second => first.1.equal second.1 = false) &&
        uniqueValues entries
  | .tagged _ _ => false
  | _ => true

def uniqueItems : List Yaml → Bool
  | [] => true
  | item :: rest => uniqueKeys item && uniqueItems rest

def uniqueValues : List (Yaml × Yaml) → Bool
  | [] => true
  | entry :: rest => uniqueValue entry && uniqueValues rest

def uniqueValue : Yaml × Yaml → Bool
  | (_, value) => uniqueKeys value

end

theorem uniqueKeys_sequence {items : List Yaml} :
    uniqueKeys (.sequence items) = true ↔ ∀ item ∈ items, uniqueKeys item = true := by
  rw [uniqueKeys]
  induction items with
  | nil => simp [uniqueItems]
  | cons item rest ih => rw [uniqueItems, Bool.and_eq_true, ih, List.forall_mem_cons]

theorem uniqueValues_iff {entries : List (Yaml × Yaml)} :
    uniqueValues entries = true ↔ ∀ entry ∈ entries, uniqueKeys entry.2 = true := by
  induction entries with
  | nil => simp [uniqueValues]
  | cons entry rest ih =>
      obtain ⟨key, value⟩ := entry
      rw [uniqueValues, Bool.and_eq_true, ih, List.forall_mem_cons, uniqueValue]

theorem uniqueKeys_ofTexts {entries : List (String × Yaml)} :
    uniqueKeys (.mapping (Yaml.ofTexts entries)) = true ↔
      (entries.map Prod.fst).Nodup ∧ ∀ entry ∈ entries, uniqueKeys entry.2 = true := by
  rw [uniqueKeys, Bool.and_eq_true, decide_eq_true_eq, uniqueValues_iff, Yaml.ofTexts,
    List.pairwise_map, List.Nodup, List.pairwise_map, List.forall_mem_map]
  exact and_congr (by simp [Yaml.equal]) Iff.rfl

structure Format (α : Type) where
  read : Yaml → Option α
  write : α → Yaml

structure Format.Settled (format : Format α) (value : α) : Prop where
  again : format.read (format.write value) = some value
  unique : uniqueKeys (format.write value) = true

def Format.Settles (format : Format α) : Prop :=
  ∀ tree value, format.read tree = some value → format.Settled value

def text : Format String where
  read := Yaml.asStr
  write := .string

def boolean : Format Bool where
  read := Yaml.asBool
  write := .bool

def i64 : Format Int where
  read := Yaml.asI64
  write := .integer

def readUsize : Yaml → Option Nat
  | .integer value => if 0 ≤ value ∧ value < 2 ^ 64 then some value.toNat else none
  | .tagged _ value => readUsize value
  | _ => none

def usize : Format Nat where
  read := readUsize
  write value := .integer value

def variants (name : α → String) (all : List α) : Format α where
  read
    | .string variant => all.find? fun value => name value = variant
    | .tagged variant .null => all.find? fun value => name value = variant
    | _ => none
  write value := .string (name value)

theorem text_settled (value : String) : text.Settled value := ⟨rfl, rfl⟩

theorem boolean_settled (value : Bool) : boolean.Settled value := ⟨rfl, rfl⟩

variable {tree : Yaml}

theorem i64_range {value : Int} : tree.asI64 = some value → -(2 ^ 63) ≤ value ∧ value < 2 ^ 63 := by
  induction tree using Yaml.induct with
  | integer held =>
      intro found
      rw [Yaml.asI64] at found
      split at found
      next within =>
        cases found
        exact within
      next => cases found
  | tagged _ value ih => exact ih
  | _ => exact fun found => by cases found

theorem i64_settles : i64.Settles := by
  intro tree value found
  refine ⟨?_, rfl⟩
  simp only [i64]
  rw [Yaml.asI64, if_pos (i64_range found)]

theorem usize_range {value : Nat} : readUsize tree = some value → (value : Int) < 2 ^ 64 := by
  induction tree using Yaml.induct with
  | integer held =>
      intro found
      rw [readUsize] at found
      split at found
      next within =>
        cases found
        rw [Int.toNat_of_nonneg within.1]
        exact within.2
      next => cases found
  | tagged _ value ih => exact ih
  | _ => exact fun found => by cases found

theorem usize_settles : usize.Settles := by
  intro tree value found
  refine ⟨?_, rfl⟩
  simp only [usize]
  rw [readUsize, if_pos ⟨Int.natCast_nonneg value, usize_range found⟩, Int.toNat_natCast]

theorem variants_settled {name : α → String} {all : List α} {value : α}
    (first : all.find? (fun other => name other = name value) = some value) :
    (variants name all).Settled value := ⟨first, rfl⟩

section

def untag : Yaml → Yaml
  | .tagged _ value => untag value
  | value => value

def sequenceOf (tree : Yaml) : Option (List Yaml) :=
  match untag tree with
  | .sequence items => some items
  | .null => some []
  | _ => none

def mappingOf (tree : Yaml) : Option (List (Yaml × Yaml)) :=
  match untag tree with
  | .mapping entries => some entries
  | .null => some []
  | _ => none

def sequence (format : Format α) : Format (List α) where
  read tree := (sequenceOf tree).bind fun items => items.mapM format.read
  write values := .sequence (values.map format.write)

def readEntry (format : Format α) (entry : Yaml × Yaml) : Option (String × α) := do
  let name ← entry.1.asStr
  let value ← format.read entry.2
  some (name, value)

def writeEntries (format : Format α) (map : OrderedMap String α) : Yaml :=
  .mapping (Yaml.ofTexts (map.entries.map fun entry => (entry.1, format.write entry.2)))

def indexMap (format : Format α) : Format (OrderedMap String α) where
  read tree := do
    let entries ← mappingOf tree
    let named ← entries.mapM (readEntry format)
    some (.ofList named)
  write := writeEntries format

def registry (format : Format α) : Format (OrderedMap String α) where
  read tree := do
    let entries ← mappingOf tree
    let named ← entries.mapM (readEntry format)
    if (named.map Prod.fst).Nodup then some (.ofList named) else none
  write := writeEntries format

theorem mapM_map_eq_some {β : Type} {read : β → Option α} {write : α → β} {values : List α}
    (settled : ∀ value ∈ values, read (write value) = some value) :
    (values.map write).mapM read = some values := by
  induction values with
  | nil => rfl
  | cons value rest ih =>
      rw [List.forall_mem_cons] at settled
      rw [List.map_cons, List.mapM_cons, settled.1, ih settled.2]
      rfl

theorem forall₂_of_mapM {β : Type} {read : β → Option α} {parts : List β} {values : List α}
    (found : parts.mapM read = some values) :
    List.Forall₂ (fun part value => read part = some value) parts values := by
  induction parts generalizing values with
  | nil =>
      cases found
      exact .nil
  | cons part rest ih =>
      rw [List.mapM_cons] at found
      obtain ⟨first, head, later⟩ := Option.bind_eq_some_iff.mp found
      obtain ⟨others, tail, same⟩ := Option.bind_eq_some_iff.mp later
      cases same
      exact .cons head (ih tail)

variable {format : Format α} {map : OrderedMap String α}

theorem sequence_settled {values : List α} (settled : ∀ value ∈ values, format.Settled value) :
    (sequence format).Settled values where
  again := mapM_map_eq_some fun value member => (settled value member).again
  unique := by
    refine uniqueKeys_sequence.mpr (List.forall_mem_map.mpr fun value member => ?_)
    exact (settled value member).unique

theorem exists_of_mem_sequence {values : List α}
    (found : (sequence format).read tree = some values) {value : α} (member : value ∈ values) :
    ∃ part, format.read part = some value := by
  obtain ⟨items, _, read⟩ := Option.bind_eq_some_iff.mp found
  obtain ⟨part, _, held⟩ := mem_left_of_forall₂ (forall₂_of_mapM read) member
  exact ⟨part, held⟩

theorem sequence_settles (settles : format.Settles) :
    (sequence format).Settles := by
  intro tree values found
  refine sequence_settled fun value member => ?_
  obtain ⟨part, read⟩ := exists_of_mem_sequence found member
  exact settles part value read

theorem readEntry_eq_some {entry : Yaml × Yaml} {named : String × α} :
    readEntry format entry = some named ↔
      entry.1.asStr = some named.1 ∧ format.read entry.2 = some named.2 := by
  constructor
  · intro found
    obtain ⟨name, key, later⟩ := Option.bind_eq_some_iff.mp found
    obtain ⟨value, read, same⟩ := Option.bind_eq_some_iff.mp later
    cases same
    exact ⟨key, read⟩
  · rintro ⟨key, read⟩
    rw [readEntry, key, read]
    rfl

section

variable (settled : ∀ entry ∈ map.entries, format.Settled entry.2)

include settled

theorem readEntries_written :
    (Yaml.ofTexts (map.entries.map fun entry => (entry.1, format.write entry.2))).mapM
      (readEntry format) = some map.entries := by
  rw [Yaml.ofTexts, List.map_map]
  refine mapM_map_eq_some fun entry member => ?_
  exact readEntry_eq_some.mpr ⟨rfl, (settled entry member).again⟩

theorem writeEntries_unique : uniqueKeys (writeEntries format map) = true := by
  refine uniqueKeys_ofTexts.mpr ⟨?_, List.forall_mem_map.mpr fun entry member => ?_⟩
  · rw [List.map_map]
    exact map.distinct
  · exact (settled entry member).unique

omit settled in
theorem ofList_entries (map : OrderedMap String α) : OrderedMap.ofList map.entries = map :=
  OrderedMap.ext_entries (OrderedMap.entries_ofList map.distinct)

theorem indexMap_settled : (indexMap format).Settled map := by
  refine ⟨?_, writeEntries_unique settled⟩
  change ((Yaml.ofTexts (map.entries.map fun entry => (entry.1, format.write entry.2))).mapM
    (readEntry format) >>= fun named => some (OrderedMap.ofList named)) = some map
  rw [readEntries_written settled]
  exact congrArg some (ofList_entries map)

theorem registry_settled : (registry format).Settled map := by
  refine ⟨?_, writeEntries_unique settled⟩
  change ((Yaml.ofTexts (map.entries.map fun entry => (entry.1, format.write entry.2))).mapM
    (readEntry format) >>= fun named =>
      if (named.map Prod.fst).Nodup then some (OrderedMap.ofList named) else none) = some map
  rw [readEntries_written settled]
  change (if (map.entries.map Prod.fst).Nodup then some (OrderedMap.ofList map.entries)
    else none) = some map
  rw [if_pos map.distinct, ofList_entries]

end

theorem exists_of_mem_ofList {entries : List (Yaml × Yaml)} {named : List (String × α)}
    (read : entries.mapM (readEntry format) = some named) {entry : String × α}
    (member : entry ∈ (OrderedMap.ofList named).entries) :
    ∃ part, format.read part = some entry.2 := by
  have held := OrderedMap.mem_of_get?_ofList (OrderedMap.get?_eq_some.mpr member)
  obtain ⟨origin, _, found⟩ := mem_left_of_forall₂ (forall₂_of_mapM read) held
  exact ⟨origin.2, (readEntry_eq_some.mp found).2⟩

theorem exists_of_mem_indexMap (found : (indexMap format).read tree = some map)
    {entry : String × α} (member : entry ∈ map.entries) :
    ∃ part, format.read part = some entry.2 := by
  obtain ⟨entries, _, later⟩ := Option.bind_eq_some_iff.mp found
  obtain ⟨named, read, same⟩ := Option.bind_eq_some_iff.mp later
  cases same
  exact exists_of_mem_ofList read member

theorem exists_of_mem_registry (found : (registry format).read tree = some map)
    {entry : String × α} (member : entry ∈ map.entries) :
    ∃ part, format.read part = some entry.2 := by
  obtain ⟨entries, _, later⟩ := Option.bind_eq_some_iff.mp found
  obtain ⟨named, read, same⟩ := Option.bind_eq_some_iff.mp later
  split at same
  next =>
    cases same
    exact exists_of_mem_ofList read member
  next => cases same

end

section

/-- How one field of a structure is read where the key may be absent, and what is written of it. -/
structure StructField (α : Type) where
  read : Option Yaml → Option α
  write : α → Option Yaml

structure StructField.Settled (field : StructField α) (value : α) : Prop where
  again : field.read (field.write value) = some value
  unique : ∀ tree ∈ field.write value, uniqueKeys tree = true

def StructField.Settles (field : StructField α) : Prop :=
  ∀ slot value, field.read slot = some value → field.Settled value

def required (format : Format α) : StructField α where
  read slot := slot.bind format.read
  write value := some (format.write value)

def optional (format : Format α) : StructField (Option α) where
  read
    | none => some none
    | some .null => some none
    | some value => (format.read value).map some
  write value := value.map format.write

def nonNullOption (format : Format α) : StructField (Option α) where
  read
    | none => some none
    | some .null => none
    | some value => (format.read value).map some
  write value := value.map format.write

def defaulted (format : Format α) (default : α) (skips : α → Bool) : StructField α where
  read
    | none => some default
    | some value => format.read value
  write value := if skips value then none else some (format.write value)

theorem unique_some {tree : Yaml} (unique : uniqueKeys tree = true) :
    ∀ other ∈ some tree, uniqueKeys other = true := by
  intro other member
  cases member
  exact unique

theorem read_settled {β : Type} {field : StructField α} {value : α} (settled : field.Settled value)
    {next : α → Option β} {result : β} (later : next value = some result) :
    (field.read (field.write value) >>= next) = some result := by
  rw [settled.again]
  exact later

variable {format : Format α}

theorem required_settled {value : α} (settled : format.Settled value) :
    (required format).Settled value := ⟨settled.again, unique_some settled.unique⟩

theorem required_settles (settles : format.Settles) :
    (required format).Settles := by
  intro slot value found
  obtain ⟨tree, _, read⟩ := Option.bind_eq_some_iff.mp found
  exact required_settled (settles tree value read)

theorem optional_none : (optional format).Settled none :=
  ⟨rfl, by simp [optional]⟩

theorem optional_some {value : α} (settled : format.Settled value)
    (written : format.write value ≠ .null) : (optional format).Settled (some value) := by
  refine ⟨?_, unique_some settled.unique⟩
  change (optional format).read (some (format.write value)) = some (some value)
  have again := settled.again
  generalize format.write value = tree at again written
  cases tree with
  | null => exact absurd rfl written
  | _ => exact congrArg (Option.map some) again

theorem optional_settles (settles : format.Settles)
    (written : ∀ value, format.write value ≠ .null) : (optional format).Settles := by
  intro slot value found
  cases value with
  | none => exact optional_none
  | some value =>
      refine optional_some ?_ (written value)
      cases slot with
      | none => cases found
      | some tree =>
          have read : format.read tree = some value := by
            cases tree with
            | null => cases found
            | _ => exact Option.map_injective (Option.some_injective α) found
          exact settles tree value read

theorem nonNullOption_none : (nonNullOption format).Settled none :=
  ⟨rfl, by simp [nonNullOption]⟩

theorem nonNullOption_some {value : α} (settled : format.Settled value)
    (written : format.write value ≠ .null) : (nonNullOption format).Settled (some value) := by
  refine ⟨?_, unique_some settled.unique⟩
  change (nonNullOption format).read (some (format.write value)) = some (some value)
  have again := settled.again
  generalize format.write value = tree at again written
  cases tree with
  | null => exact absurd rfl written
  | _ => exact congrArg (Option.map some) again

theorem nonNullOption_read {slot : Option Yaml} {value : α}
    (found : (nonNullOption format).read slot = some (some value)) :
    ∃ tree, format.read tree = some value := by
  cases slot with
  | none => cases found
  | some tree =>
      refine ⟨tree, ?_⟩
      cases tree with
      | null => cases found
      | _ => exact Option.map_injective (Option.some_injective α) found

theorem nonNullOption_settled (settles : format.Settles) {slot : Option Yaml} {value : Option α}
    (found : (nonNullOption format).read slot = some value)
    (written : ∀ held ∈ value, format.write held ≠ .null) :
    (nonNullOption format).Settled value := by
  cases value with
  | none => exact nonNullOption_none
  | some value =>
      obtain ⟨tree, read⟩ := nonNullOption_read found
      exact nonNullOption_some (settles tree value read) (written value rfl)

theorem defaulted_settled {default value : α} {skips : α → Bool}
    (skipped : skips value = true → value = default)
    (kept : skips value = false → format.Settled value) :
    (defaulted format default skips).Settled value := by
  cases left : skips value with
  | true =>
      have same := skipped left
      subst same
      constructor
      · simp [defaulted, left]
      · simp [defaulted, left]
  | false =>
      constructor
      · simpa [defaulted, left] using (kept left).again
      · simpa [defaulted, left] using (kept left).unique

theorem defaulted_settles {default : α} {skips : α → Bool}
    (skipped : ∀ value, skips value = true ↔ value = default) (settles : format.Settles) :
    (defaulted format default skips).Settles := by
  intro slot value found
  refine defaulted_settled (skipped value).mp fun left => ?_
  cases slot with
  | none =>
      cases found
      rw [(skipped default).mpr rfl] at left
      cases left
  | some tree => exact settles tree value found

end

section

def readField (known : List String) (entry : Yaml × Yaml) : Option (String × Yaml) := do
  let name ← entry.1.asStr
  if name ∈ known then some (name, entry.2) else none

def readStruct (known : List String) (tree : Yaml) : Option (String → Option Yaml) := do
  let entries ← mappingOf tree
  let fields ← entries.mapM (readField known)
  if (fields.map Prod.fst).Nodup then
    some fun name => (fields.find? fun field => field.1 = name).map Prod.snd
  else none

def slotOf : List (String × Option Yaml) → String → Option Yaml
  | [], _ => none
  | (key, value) :: rest, name => if key = name then value else slotOf rest name

def writtenFields (slots : List (String × Option Yaml)) : List (String × Yaml) :=
  slots.filterMap fun slot => slot.2.map fun value => (slot.1, value)

def writeStruct (slots : List (String × Option Yaml)) : Yaml :=
  .mapping (Yaml.ofTexts (writtenFields slots))

theorem names_writtenFields (slots : List (String × Option Yaml)) :
    ((writtenFields slots).map Prod.fst).Sublist (slots.map Prod.fst) := by
  induction slots with
  | nil => exact List.Sublist.slnil
  | cons slot rest ih =>
      obtain ⟨name, value⟩ := slot
      cases value with
      | none => exact ih.cons name
      | some value => exact ih.cons_cons name

variable {slots : List (String × Option Yaml)}

theorem find?_writtenFields (distinct : (slots.map Prod.fst).Nodup) (name : String) :
    ((writtenFields slots).find? fun field => field.1 = name).map Prod.snd = slotOf slots name := by
  induction slots with
  | nil => rfl
  | cons slot rest ih =>
      obtain ⟨key, value⟩ := slot
      obtain ⟨absent, later⟩ := List.nodup_cons.mp distinct
      by_cases same : key = name
      · cases value with
        | none =>
            have missing : ((writtenFields rest).find? fun field => field.1 = name) = none := by
              refine List.find?_eq_none.mpr fun field member named => absent ?_
              have held := (names_writtenFields rest).subset (List.mem_map_of_mem member)
              rwa [of_decide_eq_true named, ← same] at held
            rw [slotOf, if_pos same]
            exact congrArg (Option.map Prod.snd) missing
        | some value => simp [writtenFields, slotOf, same]
      · rw [slotOf, if_neg same, ← ih later]
        cases value with
        | none => rfl
        | some value => simp [writtenFields, same]

theorem readStruct_writeStruct {known : List String} (distinct : (slots.map Prod.fst).Nodup)
    (within : slots.map Prod.fst ⊆ known) :
    readStruct known (writeStruct slots) = some (slotOf slots) := by
  have read : (Yaml.ofTexts (writtenFields slots)).mapM (readField known) =
      some (writtenFields slots) := by
    refine mapM_map_eq_some fun field member => ?_
    have held := within ((names_writtenFields slots).subset (List.mem_map_of_mem member))
    change (if field.1 ∈ known then some (field.1, field.2) else none) = some field
    rw [if_pos held]
  change ((Yaml.ofTexts (writtenFields slots)).mapM (readField known) >>= fun fields =>
    if (fields.map Prod.fst).Nodup then
      some fun name => (fields.find? fun field => field.1 = name).map Prod.snd
    else none) = some (slotOf slots)
  rw [read]
  change (if ((writtenFields slots).map Prod.fst).Nodup then
      some fun name => ((writtenFields slots).find? fun field => field.1 = name).map Prod.snd
    else none) = some (slotOf slots)
  rw [if_pos ((names_writtenFields slots).nodup distinct)]
  exact congrArg some (funext (find?_writtenFields distinct))

theorem writeStruct_unique (distinct : (slots.map Prod.fst).Nodup)
    (unique : ∀ slot ∈ slots, ∀ tree ∈ slot.2, uniqueKeys tree = true) :
    uniqueKeys (writeStruct slots) = true := by
  refine uniqueKeys_ofTexts.mpr ⟨(names_writtenFields slots).nodup distinct, fun field member => ?_⟩
  obtain ⟨slot, held, written⟩ := List.mem_filterMap.mp member
  obtain ⟨tree, value, same⟩ := Option.map_eq_some_iff.mp written
  rw [← same]
  exact unique slot held tree value

def struct (known : List String) (read : (String → Option Yaml) → Option α)
    (slots : α → List (String × Option Yaml)) : Format α where
  read tree := (readStruct known tree).bind read
  write value := writeStruct (slots value)

/-- A struct is settled if its slots are distinct, known and read back. -/
theorem struct_settled {known : List String} {read : (String → Option Yaml) → Option α}
    {slots : α → List (String × Option Yaml)} {value : α}
    (distinct : ((slots value).map Prod.fst).Nodup) (within : (slots value).map Prod.fst ⊆ known)
    (again : read (slotOf (slots value)) = some value)
    (unique : ∀ slot ∈ slots value, ∀ tree ∈ slot.2, uniqueKeys tree = true) :
    (struct known read slots).Settled value := by
  refine ⟨?_, writeStruct_unique distinct unique⟩
  change (readStruct known (writeStruct (slots value))).bind read = some value
  rw [readStruct_writeStruct distinct within]
  exact again

end

mutual

def readJson : Yaml → Option Json
  | .null => some .null
  | .bool value => some (.bool value)
  | .integer value => some (.integer value)
  | .float digits => some (.decimal digits)
  | .nonFinite _ => some .null
  | .string text => some (.string text)
  | .sequence items => (readItems items).map .array
  | .mapping entries => (readMembers entries).map fun members =>
      .object (OrderedMap.ofList members).entries
  | .tagged _ _ => none

def readItems : List Yaml → Option (List Json)
  | [] => some []
  | item :: rest => do
      let value ← readJson item
      let values ← readItems rest
      some (value :: values)

def readMembers : List (Yaml × Yaml) → Option (List (String × Json))
  | [] => some []
  | entry :: rest => do
      let member ← readMember entry
      let members ← readMembers rest
      some (member :: members)

def readMember : Yaml × Yaml → Option (String × Json)
  | (key, value) => do
      let name ← key.asStr
      let held ← readJson value
      some (name, held)

end

mutual

def writeJson : Json → Yaml
  | .null => .null
  | .bool value => .bool value
  | .integer value => .integer value
  | .decimal digits => .float digits
  | .string text => .string text
  | .array items => .sequence (writeItems items)
  | .object members => .mapping (writeMembers members)

def writeItems : List Json → List Yaml
  | [] => []
  | item :: rest => writeJson item :: writeItems rest

def writeMembers : List (String × Json) → List (Yaml × Yaml)
  | [] => []
  | member :: rest => writeMember member :: writeMembers rest

def writeMember : String × Json → Yaml × Yaml
  | (name, value) => (.string name, writeJson value)

end

def json : Format Json where
  read := readJson
  write := writeJson

theorem readItems_eq (items : List Yaml) : readItems items = items.mapM readJson := by
  induction items with
  | nil => rfl
  | cons item rest ih =>
      rw [readItems, ih, List.mapM_cons]
      rfl

theorem readMembers_eq (entries : List (Yaml × Yaml)) :
    readMembers entries = entries.mapM (readEntry json) := by
  induction entries with
  | nil => rfl
  | cons entry rest ih =>
      obtain ⟨key, value⟩ := entry
      rw [readMembers, ih, List.mapM_cons]
      rfl

theorem writeItems_eq (items : List Json) : writeItems items = items.map writeJson := by
  induction items with
  | nil => rfl
  | cons item rest ih => rw [writeItems, ih, List.map_cons]

theorem writeMembers_eq (members : List (String × Json)) :
    writeMembers members = members.map fun member => (.string member.1, writeJson member.2) := by
  induction members with
  | nil => rfl
  | cons member rest ih => rw [writeMembers, ih, List.map_cons, writeMember]

theorem distinct_of_readJson : ∀ {value : Json}, readJson tree = some value → value.distinct := by
  induction tree using Yaml.induct with
  | sequence items ih =>
      intro value found
      rw [readJson, readItems_eq] at found
      obtain ⟨values, read, rfl⟩ := Option.map_eq_some_iff.mp found
      refine Json.distinct_array.mpr fun value member => ?_
      obtain ⟨item, held, single⟩ := mem_left_of_forall₂ (forall₂_of_mapM read) member
      exact ih item held single
  | mapping entries ih =>
      intro value found
      rw [readJson, readMembers_eq] at found
      obtain ⟨members, read, rfl⟩ := Option.map_eq_some_iff.mp found
      refine Json.distinct_object.mpr ⟨(OrderedMap.ofList members).distinct, ?_⟩
      intro member inside
      have held := OrderedMap.mem_of_get?_ofList (OrderedMap.get?_eq_some.mpr inside)
      obtain ⟨entry, origin, single⟩ := mem_left_of_forall₂ (forall₂_of_mapM read) held
      exact (ih entry origin).2 (readEntry_eq_some.mp single).2
  | tagged _ _ _ =>
      intro value found
      cases found
  | _ =>
      intro value found
      cases found
      trivial

theorem readJson_writeJson {value : Json} : value.distinct → readJson (writeJson value) = some value := by
  induction value using Json.induct with
  | array items ih =>
      intro distinct
      have read : (items.map writeJson).mapM readJson = some items :=
        mapM_map_eq_some fun item member => ih item member (Json.distinct_array.mp distinct item member)
      rw [writeJson, readJson, writeItems_eq, readItems_eq, read]
      rfl
  | object members ih =>
      intro distinct
      obtain ⟨names, values⟩ := Json.distinct_object.mp distinct
      have read : (members.map fun member => (Yaml.string member.1, writeJson member.2)).mapM
          (readEntry json) = some members := by
        refine mapM_map_eq_some fun member inside => readEntry_eq_some.mpr ⟨rfl, ?_⟩
        exact ih member inside (values member inside)
      rw [writeJson, readJson, writeMembers_eq, readMembers_eq, read]
      exact congrArg (fun entries => some (Json.object entries)) (OrderedMap.entries_ofList names)
  | _ => exact fun _ => rfl

theorem writeJson_unique {value : Json} : value.distinct → uniqueKeys (writeJson value) = true := by
  induction value using Json.induct with
  | array items ih =>
      intro distinct
      rw [writeJson, writeItems_eq, uniqueKeys_sequence, List.forall_mem_map]
      exact fun item member => ih item member (Json.distinct_array.mp distinct item member)
  | object members ih =>
      intro distinct
      obtain ⟨names, values⟩ := Json.distinct_object.mp distinct
      have texts : writeMembers members =
          Yaml.ofTexts (members.map fun member => (member.1, writeJson member.2)) := by
        rw [writeMembers_eq, Yaml.ofTexts, List.map_map]
        rfl
      rw [writeJson, texts, uniqueKeys_ofTexts, List.map_map, List.forall_mem_map]
      exact ⟨names, fun member inside => ih member inside (values member inside)⟩
  | _ => exact fun _ => rfl

theorem json_settled {value : Json} (distinct : value.distinct) : json.Settled value :=
  ⟨readJson_writeJson distinct, writeJson_unique distinct⟩

theorem json_settles : json.Settles := fun _ _ found => json_settled (distinct_of_readJson found)

theorem writeJson_ne_null {value : Json} (present : value.isNull = false) :
    json.write value ≠ .null := by
  cases value with
  | null => cases present
  | _ => exact Yaml.noConfusion

end EmuChef.Serde
