import EmuChef.Configuration.Emit
import Mathlib.Data.List.TakeWhile

/-! Reading back what is written of a saved configuration, and what the text keeps of its source. -/

namespace EmuChef.Configuration

open Checks
open Executor (isWhitespace)
open Planner (trim)
open Yaml (ofTexts)

theorem itemsToJson_eq (items : List Yaml) : itemsToJson items = items.mapM yamlToJson := by
  induction items with
  | nil => rfl
  | cons item rest ih => rw [itemsToJson, ih, List.mapM_cons]

theorem entriesToJson_eq (entries : List (Yaml × Yaml)) :
    entriesToJson entries = entries.mapM entryToJson := by
  induction entries with
  | nil => rfl
  | cons entry rest ih => rw [entriesToJson, ih, List.mapM_cons]

theorem yamlToJson_sequence {items : List Yaml} {value : Json} :
    yamlToJson (.sequence items) = .ok value ↔
      ∃ values, List.Forall₂ (fun item result => yamlToJson item = .ok result) items values ∧
        value = .array values := by
  rw [yamlToJson, itemsToJson_eq, bind_eq_ok]
  refine exists_congr fun values => and_congr mapM_eq_ok ?_
  exact ⟨fun same => (Except.ok.inj same).symm, fun same => congrArg Except.ok same.symm⟩

theorem yamlToJson_mapping {entries : List (Yaml × Yaml)} {value : Json} :
    yamlToJson (.mapping entries) = .ok value ↔
      ∃ fields, List.Forall₂ (fun entry field => entry.1.asStr = some field.1 ∧
          yamlToJson entry.2 = .ok field.2) entries fields ∧ value = .object (keyed fields) := by
  have read : ∀ (entry : Yaml × Yaml) (field : String × Json), entryToJson entry = .ok field ↔
      entry.1.asStr = some field.1 ∧ yamlToJson entry.2 = .ok field.2 := by
    rintro ⟨key, value⟩ ⟨name, written⟩
    rw [entryToJson]
    cases key.asStr with
    | none => simp
    | some text =>
        rw [bind_eq_ok]
        constructor
        · rintro ⟨result, converted, same⟩
          cases Except.ok.inj same
          exact ⟨rfl, converted⟩
        · rintro ⟨same, converted⟩
          cases same
          exact ⟨written, converted, rfl⟩
  rw [yamlToJson, entriesToJson_eq, bind_eq_ok]
  refine exists_congr fun fields => and_congr ?_ ?_
  · rw [mapM_eq_ok]
    simp only [read]
  · exact ⟨fun same => (Except.ok.inj same).symm, fun same => congrArg Except.ok same.symm⟩

theorem distinct_of_yamlToJson {value : Yaml} :
    ∀ {written : Json}, yamlToJson value = .ok written → written.distinct := by
  induction value using Yaml.induct with
  | sequence items ih =>
      intro written converted
      obtain ⟨values, each, rfl⟩ := yamlToJson_sequence.mp converted
      rw [Json.distinct_array]
      intro result member
      obtain ⟨item, held, read⟩ := Checks.mem_left_of_forall₂ each member
      exact ih item held read
  | mapping entries ih =>
      intro written converted
      obtain ⟨fields, each, rfl⟩ := yamlToJson_mapping.mp converted
      rw [Json.distinct_object]
      refine ⟨nodup_keyed fields, fun field member => ?_⟩
      have listed := OrderedMap.mem_of_get?_ofList (OrderedMap.get?_eq_some.mpr member)
      obtain ⟨entry, held, _, read⟩ := Checks.mem_left_of_forall₂ each (mem_sortKeys.mp listed)
      exact (ih entry held).2 read
  | tagged tag value ih => exact fun converted => ih converted
  | _ =>
      intro written converted
      cases Except.ok.inj converted
      trivial

/-- A JSON value comes back from YAML in canonical form. -/
theorem yamlToJson_jsonToYaml {value : Json} :
    value.distinct → yamlToJson (jsonToYaml value) = .ok value.canonical := by
  induction value using Json.induct with
  | array items ih =>
      intro distinct
      rw [jsonToYaml, Yaml.ofJson, Yaml.ofItems_eq, yamlToJson_sequence]
      refine ⟨items.map Json.canonical, ?_, by rw [Json.canonical, Json.canonicalItems_eq]⟩
      rw [List.forall₂_map_left_iff, List.forall₂_map_right_iff, List.forall₂_same]
      exact fun item member => ih item member (Json.distinct_array.mp distinct item member)
  | object fields ih =>
      intro distinct
      obtain ⟨names, values⟩ := Json.distinct_object.mp distinct
      have kept : (((sortKeys fields).map fun field => (field.1, Json.canonical field.2)).map
          Prod.fst).Nodup := by
        rw [List.map_map]
        exact nodup_sortKeys.mpr names
      rw [jsonToYaml, Yaml.ofJson_object names, ofTexts, List.map_map, yamlToJson_mapping]
      refine ⟨(sortKeys fields).map fun field => (field.1, Json.canonical field.2), ?_, ?_⟩
      · rw [List.forall₂_map_left_iff, List.forall₂_map_right_iff, List.forall₂_same]
        intro field member
        have held := mem_sortKeys.mp member
        exact ⟨rfl, ih field held (values field held)⟩
      · rw [Json.canonical_object names, keyed_eq_sortKeys kept,
          sortKeys_map fun field => Json.canonical field.2, sortKeys_sortKeys]
  | _ => exact fun _ => rfl

theorem equalItems_of_forall₂ {items : List Yaml} {values : List Json}
    (each : List.Forall₂ (fun item result => item.equal (jsonToYaml result) = true) items values) :
    Yaml.equalItems items (values.map jsonToYaml) = true := by
  induction each with
  | nil => rfl
  | cons first _ ih => exact Yaml.equalItems_cons.mpr ⟨_, _, rfl, first, ih⟩

theorem exists_yamlToJson {value : Yaml} : value.plain = true → value.distinct →
    ∃ written, yamlToJson value = .ok written ∧ value.equal (jsonToYaml written) = true := by
  induction value using Yaml.induct with
  | sequence items ih =>
      intro plain distinct
      rw [Yaml.plain_sequence] at plain
      rw [Yaml.distinct_sequence] at distinct
      choose! written converted same using fun item member =>
        ih item member (plain item member) (distinct item member)
      refine ⟨.array (items.map written), yamlToJson_sequence.mpr ⟨_, ?_, rfl⟩, ?_⟩
      · rw [List.forall₂_map_right_iff, List.forall₂_same]
        exact converted
      · rw [jsonToYaml, Yaml.ofJson, Yaml.ofItems_eq]
        refine equalItems_of_forall₂ ?_
        rw [List.forall₂_map_right_iff, List.forall₂_same]
        exact same
  | mapping entries ih =>
      intro plain distinct
      rw [Yaml.plain_mapping] at plain
      obtain ⟨apart, parts⟩ := Yaml.distinct_mapping.mp distinct
      choose! written converted same using fun entry member =>
        (ih entry member).2 (plain entry member).2 (parts entry member).2
      choose! text named using fun entry member => (plain entry member).1
      have names : ((entries.map fun entry => (text entry, written entry)).map Prod.fst).Nodup := by
        rw [List.map_map, List.Nodup, List.pairwise_map]
        refine apart.imp_of_mem fun {first second} one other different both => ?_
        rw [named first one, named second other, Yaml.equal] at different
        exact absurd both (by simpa using different)
      refine ⟨.object (keyed (entries.map fun entry => (text entry, written entry))),
        yamlToJson_mapping.mpr ⟨_, ?_, rfl⟩, ?_⟩
      · rw [List.forall₂_map_right_iff, List.forall₂_same]
        intro entry member
        exact ⟨by rw [named entry member]; rfl, converted entry member⟩
      · rw [keyed_eq_sortKeys names, jsonToYaml, Yaml.ofJson_object (nodup_sortKeys.mpr names),
          sortKeys_sortKeys, Yaml.equal_mapping]
        constructor
        · simp [ofTexts, (sortKeys_perm _).length_eq]
        · intro entry member
          refine ⟨(.string (text entry), jsonToYaml (written entry)), ?_, ?_, same entry member⟩
          · refine List.mem_map.mpr ⟨(text entry, jsonToYaml (written entry)), ?_, rfl⟩
            refine List.mem_map.mpr ⟨(text entry, written entry), mem_sortKeys.mpr ?_, rfl⟩
            exact List.mem_map.mpr ⟨entry, member, rfl⟩
          · rw [named entry member, Yaml.equal_string]
  | nonFinite _ => exact fun plain => by cases plain
  | tagged _ _ _ => exact fun plain => by cases plain
  | _ => exact fun _ _ => ⟨_, rfl, by simp [jsonToYaml, Yaml.ofJson, Yaml.equal]⟩

section

theorem trim_eq_empty {text : String} : trim text = "" ↔ ∀ letter ∈ text.toList, isWhitespace letter = true := by
  rw [trim, ← String.toList_inj, String.toList_ofList]
  change _ = [] ↔ _
  rw [List.reverse_eq_nil_iff, List.dropWhile_eq_nil_iff]
  constructor
  · intro trailing letter member
    rw [← @List.takeWhile_append_dropWhile _ isWhitespace text.toList, List.mem_append] at member
    rcases member with leading | later
    · exact List.mem_takeWhile_imp leading
    · exact trailing letter (List.mem_reverse.mpr later)
  · intro blank letter member
    exact blank letter ((List.dropWhile_sublist _).subset (List.mem_reverse.mp member))

theorem toLower_hexdigit {letter : Char} (hexadecimal : isAsciiHexdigit letter = true) :
    isAsciiHexdigit letter.toLower = true ∧ letter.toLower.toLower = letter.toLower ∧
      isWhitespace letter.toLower = false := by
  have bound : letter.toNat < 103 := by
    simp only [isAsciiHexdigit, Bool.or_eq_true, Bool.and_eq_true, decide_eq_true_eq] at hexadecimal
    rcases hexadecimal with (⟨_, most⟩ | ⟨_, most⟩) | ⟨_, most⟩
    · exact lt_of_le_of_lt (show letter.toNat ≤ 57 from most) (by decide)
    · exact lt_of_le_of_lt (show letter.toNat ≤ 102 from most) (by decide)
    · exact lt_of_le_of_lt (show letter.toNat ≤ 70 from most) (by decide)
  have listed : ∀ code < 103, isAsciiHexdigit (Char.ofNat code) = true →
      isAsciiHexdigit (Char.ofNat code).toLower = true ∧
        (Char.ofNat code).toLower.toLower = (Char.ofNat code).toLower ∧
        isWhitespace (Char.ofNat code).toLower = false := by decide
  have found := listed letter.toNat bound
  rw [Char.ofNat_toNat] at found
  exact found hexadecimal

variable {mapping : List (Yaml × Yaml)} {key text : String}

theorem requiredNonEmptyString_eq_ok : requiredNonEmptyString mapping key = .ok text ↔
    Yaml.get? mapping key = some (.string text) ∧ trim text ≠ "" := by
  rw [requiredNonEmptyString]
  split
  next value found =>
    rw [found, Option.some.injEq, Yaml.string.injEq]
    split_ifs with blank
    · refine iff_of_false (by simp) ?_
      rintro ⟨rfl, filled⟩
      exact filled blank
    · constructor
      · intro same
        cases Except.ok.inj same
        exact ⟨rfl, blank⟩
      · rintro ⟨rfl, _⟩
        rfl
  next absent =>
    refine iff_of_false (by simp) ?_
    rintro ⟨found, _⟩
    exact absent text found

theorem requiredFingerprint_eq_ok : requiredFingerprint mapping = .ok text ↔
    ∃ written, Yaml.get? mapping "fingerprint" = some (.string written) ∧ trim written ≠ "" ∧
      (written.toList.length = 64 ∧ written.toList.all isAsciiHexdigit = true) ∧
      text = toAsciiLowercase written := by
  simp only [requiredFingerprint, bind_eq_ok, requiredNonEmptyString_eq_ok]
  constructor
  · rintro ⟨written, ⟨found, filled⟩, _, letters, same⟩
    exact ⟨written, found, filled, require_eq_ok.mp letters, (Except.ok.inj same).symm⟩
  · rintro ⟨written, found, filled, letters, rfl⟩
    exact ⟨written, ⟨found, filled⟩, (), require_eq_ok.mpr letters, rfl⟩

theorem requiredFingerprint_again {other : List (Yaml × Yaml)}
    (read : requiredFingerprint mapping = .ok text)
    (held : Yaml.get? other "fingerprint" = some (.string text)) :
    requiredFingerprint other = .ok text := by
  obtain ⟨written, _, _, ⟨count, letters⟩, rfl⟩ := requiredFingerprint_eq_ok.mp read
  have spelled : (toAsciiLowercase written).toList = written.toList.map Char.toLower :=
    String.toList_ofList
  rw [List.all_eq_true] at letters
  refine requiredFingerprint_eq_ok.mpr ⟨_, held, fun blank => ?_, ⟨?_, ?_⟩, ?_⟩
  · obtain ⟨letter, member⟩ := List.exists_mem_of_length_pos (by omega : 0 < written.toList.length)
    have dark := trim_eq_empty.mp blank letter.toLower (spelled ▸ List.mem_map_of_mem member)
    rw [(toLower_hexdigit (letters letter member)).2.2] at dark
    cases dark
  · rw [spelled, List.length_map, count]
  · rw [spelled, List.all_map, List.all_eq_true]
    exact fun letter member => (toLower_hexdigit (letters letter member)).1
  · rw [toAsciiLowercase, toAsciiLowercase, String.toList_ofList, List.map_map]
    refine congrArg String.ofList (List.map_congr_left fun letter member => ?_)
    exact (toLower_hexdigit (letters letter member)).2.1.symm

end
section

variable {mapping entries : List (Yaml × Yaml)} {key label : String}

theorem validateIdentifier_eq_ok {value : String} :
    validateIdentifier value label = .ok () ↔ isIdentifier value = true := by
  rw [validateIdentifier]
  split_ifs with named
  · simp [named]
  · simp [named]

theorem requiredMapping_eq_ok :
    requiredMapping mapping key = .ok entries ↔ Yaml.get? mapping key = some (.mapping entries) := by
  rw [requiredMapping]
  split
  next value found => simp [found]
  next absent => exact iff_of_false (by simp) (absent entries)

theorem listField_eq_ok {missing wrong : String} {items : List Yaml} :
    listField mapping key missing wrong = .ok items ↔
      Yaml.get? mapping key = some (.sequence items) := by
  rw [listField]
  split
  next absent => simp [absent]
  next values found => simp [found]
  next held other found =>
    refine iff_of_false (by simp) fun same => other items ?_
    exact Option.some.inj (found.symm.trans same)

theorem selectedField_eq_ok {selected : Bool} : selectedField mapping = .ok selected ↔
    (Yaml.get? mapping "selected").bind Yaml.asBool = some selected := by
  rw [selectedField]
  split
  next value found => simp [found]
  next absent => simp [absent]

theorem rejectUnknownMappingFields_ofTexts {fields : List (String × Yaml)} {allowed : List String}
    (known : ∀ field ∈ fields, field.1 ∈ allowed) :
    rejectUnknownMappingFields (ofTexts fields) allowed label = .ok () := by
  rw [rejectUnknownMappingFields, Checks.forM_eq_ok, ofTexts, List.forall_mem_map]
  exact fun field member => require_eq_ok.mpr (known field member)

theorem parseContractSnapshot_eq_ok {snapshot : SavedContractSnapshot} :
    parseContractSnapshot mapping label = .ok snapshot ↔
      (Yaml.get? mapping "id" = some (.string snapshot.id) ∧ trim snapshot.id ≠ "") ∧
        isIdentifier snapshot.id = true ∧
        (Yaml.get? mapping "label" = some (.string snapshot.label) ∧ trim snapshot.label ≠ "") ∧
        requiredFingerprint mapping = .ok snapshot.fingerprint := by
  simp only [parseContractSnapshot, bind_eq_ok, requiredNonEmptyString_eq_ok]
  constructor
  · rintro ⟨id, identified, _, valid, shown, labelled, fingerprint, read, same⟩
    cases Except.ok.inj same
    exact ⟨identified, validateIdentifier_eq_ok.mp valid, labelled, read⟩
  · rintro ⟨identified, valid, labelled, read⟩
    exact ⟨_, identified, (), validateIdentifier_eq_ok.mpr valid, _, labelled, _, read, rfl⟩

theorem parseContractSnapshot_again {snapshot : SavedContractSnapshot} {later : String}
    {rest : List (String × Yaml)} (read : parseContractSnapshot mapping label = .ok snapshot) :
    parseContractSnapshot (ofTexts (snapshotFields snapshot ++ rest)) later = .ok snapshot := by
  obtain ⟨⟨_, identified⟩, valid, ⟨_, labelled⟩, fingerprint⟩ := parseContractSnapshot_eq_ok.mp read
  refine parseContractSnapshot_eq_ok.mpr ⟨⟨?_, identified⟩, valid, ⟨?_, labelled⟩, ?_⟩
  · simp [ofTexts, snapshotFields]
  · simp [ofTexts, snapshotFields]
  · exact requiredFingerprint_again fingerprint (by simp [ofTexts, snapshotFields])

theorem parseInputSnapshot_again {value : Yaml} {input : SavedInputContractSnapshot}
    (read : parseInputSnapshot value = .ok input) :
    parseInputSnapshot (emitInputSnapshot input) = .ok input := by
  cases value with
  | mapping entries =>
      simp only [parseInputSnapshot, bind_eq_ok, requiredNonEmptyString_eq_ok] at read
      obtain ⟨_, _, key, ⟨_, keyed⟩, label, ⟨_, labelled⟩, fingerprint, printed, same⟩ := read
      cases Except.ok.inj same
      simp only [emitInputSnapshot, parseInputSnapshot, bind_eq_ok, requiredNonEmptyString_eq_ok]
      refine ⟨(), rejectUnknownMappingFields_ofTexts (by simp), key, ⟨?_, keyed⟩, label,
        ⟨?_, labelled⟩, fingerprint, requiredFingerprint_again printed ?_, rfl⟩
      · simp [ofTexts]
      · simp [ofTexts]
      · simp [ofTexts]
  | _ => cases read

theorem parseRecipeSnapshot_again {value : Yaml} {index position : Nat}
    {recipe : SavedRecipeContractSnapshot} (read : parseRecipeSnapshot index value = .ok recipe) :
    parseRecipeSnapshot position (emitRecipeSnapshot recipe) = .ok recipe := by
  cases value with
  | mapping entries =>
      simp only [parseRecipeSnapshot, bind_eq_ok] at read
      obtain ⟨_, _, snapshot, held, selected, _, values, _, inputs, mapped, same⟩ := read
      cases Except.ok.inj same
      simp only [emitRecipeSnapshot, parseRecipeSnapshot, bind_eq_ok]
      refine ⟨(), rejectUnknownMappingFields_ofTexts (by simp [snapshotFields]), snapshot,
        parseContractSnapshot_again held, selected, selectedField_eq_ok.mpr ?_,
        inputs.map emitInputSnapshot, listField_eq_ok.mpr ?_, inputs, ?_, rfl⟩
      · simp [ofTexts, snapshotFields, Yaml.asBool]
      · simp [ofTexts, snapshotFields]
      · rw [mapM_eq_ok, List.forall₂_map_left_iff, List.forall₂_same]
        intro input member
        obtain ⟨origin, _, parsed⟩ := Checks.mem_left_of_forall₂ (mapM_eq_ok.mp mapped) member
        exact parseInputSnapshot_again parsed
  | _ => cases read

theorem parseCompatibility_again {compatibility : SavedCompatibilityBaseline}
    (read : parseCompatibility mapping = .ok compatibility) :
    parseCompatibility (ofTexts (compatibilityFields compatibility)) = .ok compatibility := by
  simp only [parseCompatibility, bind_eq_ok, requiredMapping_eq_ok] at read ⊢
  obtain ⟨_, _, planMapping, _, devicePlan, planned, values, _, recipes, mapped, same⟩ := read
  cases Except.ok.inj same
  refine ⟨(), rejectUnknownMappingFields_ofTexts (by simp [compatibilityFields]),
    ofTexts (snapshotFields devicePlan ++ []), ?_, devicePlan, parseContractSnapshot_again planned,
    recipes.map emitRecipeSnapshot, listField_eq_ok.mpr ?_, recipes, ?_, rfl⟩
  · simp [ofTexts, compatibilityFields, emitContractSnapshot]
  · simp [ofTexts, compatibilityFields]
  · rw [mapM_eq_ok, List.zipIdx_map, List.forall₂_map_left_iff]
    have each : List.Forall₂ (fun entry recipe =>
        parseRecipeSnapshot entry.2 (emitRecipeSnapshot entry.1) = .ok recipe)
        recipes.zipIdx (recipes.zipIdx.map Prod.fst) := by
      rw [List.forall₂_map_right_iff, List.forall₂_same]
      intro entry member
      obtain ⟨origin, _, parsed⟩ := Checks.mem_left_of_forall₂ (mapM_eq_ok.mp mapped)
        (List.fst_mem_of_mem_zipIdx member)
      exact parseRecipeSnapshot_again parsed
    rwa [List.zipIdx_map_fst] at each

end

end EmuChef.Configuration
