import EmuChef.Configuration.RoundTrip
import Mathlib.Data.List.ReduceOption

/-! Emission and structural loading are inverse to each other, and the extensions of the source
survive. -/

namespace EmuChef.Configuration

open Checks
open Planner (trim)
open Yaml (ofTexts)

section

variable {mapping entries : List (Yaml × Yaml)} {key : String} {value : Json}
  {configuration : UserConfiguration}

theorem requiredI64_eq_ok {version : Int} : requiredI64 mapping key = .ok version ↔
    (Yaml.get? mapping key).bind Yaml.asI64 = some version := by
  rw [requiredI64]
  split
  next found held => simp [held]
  next absent => simp [absent]

theorem listedIdentifier_eq_ok {item : Yaml} {id : String} :
    listedIdentifier key item = .ok id ↔ item = .string id ∧ isIdentifier id = true := by
  cases item with
  | string text =>
      rw [listedIdentifier, bind_eq_ok]
      constructor
      · rintro ⟨_, valid, same⟩
        cases Except.ok.inj same
        exact ⟨rfl, validateIdentifier_eq_ok.mp valid⟩
      · rintro ⟨same, valid⟩
        cases same
        exact ⟨(), validateIdentifier_eq_ok.mpr valid, rfl⟩
  | _ => simp [listedIdentifier]

theorem requiredIdentifierList_eq_ok {ids : List String} :
    requiredIdentifierList mapping key = .ok ids ↔
      Yaml.get? mapping key = some (.sequence (ids.map .string)) ∧
        ∀ id ∈ ids, isIdentifier id = true := by
  have listed : ∀ items : List Yaml, items.mapM (listedIdentifier key) = .ok ids ↔
      items = ids.map .string ∧ ∀ id ∈ ids, isIdentifier id = true := by
    intro items
    rw [mapM_eq_ok]
    simp only [listedIdentifier_eq_ok]
    constructor
    · intro each
      induction each with
      | nil => simp
      | cons first _ ih =>
          exact ⟨by rw [first.1, ih.1, List.map_cons], List.forall_mem_cons.mpr ⟨first.2, ih.2⟩⟩
    · rintro ⟨rfl, valid⟩
      rw [List.forall₂_map_left_iff, List.forall₂_same]
      exact fun id member => ⟨rfl, valid id member⟩
  rw [requiredIdentifierList]
  split
  next items found => simp [found, listed]
  next absent => exact iff_of_false (by simp) fun held => absent _ held.1

theorem parseBaseline_eq_ok {version : Int} {baseline : Option SavedCompatibilityBaseline} :
    parseBaseline mapping version = .ok baseline ↔
      (version = 2 → ∃ entries held, Yaml.get? mapping "compatibility" = some (.mapping entries) ∧
        parseCompatibility entries = .ok held ∧ baseline = some held) ∧
        (version ≠ 2 → baseline = none) := by
  rw [parseBaseline]
  split_ifs with second
  · simp only [bind_eq_ok, requiredMapping_eq_ok, second, true_implies, ne_eq, not_true_eq_false,
      false_implies, and_true]
    refine exists_congr fun entries => ?_
    constructor
    · rintro ⟨found, held, read, same⟩
      exact ⟨held, found, read, (Except.ok.inj same).symm⟩
    · rintro ⟨held, found, read, rfl⟩
      exact ⟨found, held, read, rfl⟩
  · simp only [second, false_implies, ne_eq, not_false_eq_true, true_implies, true_and]
    exact ⟨fun same => (Except.ok.inj same).symm, fun same => congrArg Except.ok same.symm⟩

theorem parseBinding_eq_ok {binding : Yaml × Yaml} : parseBinding binding = .ok (key, value) ↔
    binding.1.asStr = some key ∧ validateBindingKey key = .ok () ∧
      ∃ entry source, binding.2 = .mapping entry ∧ bindingSource key entry = .ok source ∧
        yamlToJson source = .ok value := by
  rw [parseBinding]
  cases binding.1.asStr with
  | none => simp
  | some text =>
      rw [bind_eq_ok]
      cases binding.2 with
      | mapping entry =>
          simp only [bind_eq_ok]
          constructor
          · rintro ⟨_, valid, source, found, written, converted, same⟩
            cases Except.ok.inj same
            exact ⟨rfl, valid, entry, source, rfl, found, converted⟩
          · rintro ⟨same, valid, other, source, held, found, converted⟩
            cases same
            cases held
            exact ⟨(), valid, source, found, value, converted, rfl⟩
      | _ => simp

theorem parseExtension_eq_some {field : Yaml × Yaml} :
    parseExtension field = .ok (some (key, value)) ↔
      field.1.asStr = some key ∧ prohibitedAuthorityField key = false ∧ key ∉ knownFields ∧
        yamlToJson field.2 = .ok value := by
  rw [parseExtension]
  cases field.1.asStr with
  | none => simp
  | some text =>
      simp only [bind_eq_ok]
      constructor
      · rintro ⟨_, allowed, read⟩
        have authority := require_eq_ok.mp allowed
        split_ifs at read with known
        · cases read
        · obtain ⟨written, converted, same⟩ := bind_eq_ok.mp read
          cases Except.ok.inj same
          exact ⟨rfl, by simpa using authority, known, converted⟩
      · rintro ⟨same, authority, unknown, converted⟩
        cases same
        refine ⟨(), require_eq_ok.mpr (by simp [authority]), ?_⟩
        rw [if_neg unknown]
        exact bind_eq_ok.mpr ⟨value, converted, rfl⟩

theorem parseExtension_known (known : key ∈ knownFields) {held : Yaml} :
    parseExtension (.string key, held) = .ok none := by
  have allowed : ∀ name ∈ knownFields, prohibitedAuthorityField name = false := by decide
  refine bind_eq_ok.mpr ⟨(), require_eq_ok.mpr (by simp [allowed key known]), ?_⟩
  rw [if_pos known]
  rfl

theorem parseExtension_unknown {field : Yaml × Yaml} {result : Option (String × Json)}
    (parsed : parseExtension field = .ok result) (named : field.1.asStr = some key)
    (unknown : key ∉ knownFields) :
    ∃ value, result = some (key, value) ∧ yamlToJson field.2 = .ok value := by
  rw [parseExtension, named] at parsed
  obtain ⟨_, _, parsed⟩ := bind_eq_ok.mp parsed
  rw [if_neg unknown] at parsed
  obtain ⟨value, converted, same⟩ := bind_eq_ok.mp parsed
  exact ⟨value, (Except.ok.inj same).symm, converted⟩

structure Read (mapping : List (Yaml × Yaml)) (configuration : UserConfiguration) : Prop where
  schemaVersion : requiredI64 mapping "schema_version" = .ok configuration.schemaVersion
  supported : configuration.schemaVersion = 1 ∨ configuration.schemaVersion = 2
  kind : requiredNonEmptyString mapping "kind" = .ok configuration.kind
  documentKind : configuration.kind = "user_configuration"
  id : requiredNonEmptyString mapping "id" = .ok configuration.id
  identifier : isIdentifier configuration.id = true
  name : requiredNonEmptyString mapping "name" = .ok configuration.name
  devicePlan : requiredNonEmptyString mapping "device_plan" = .ok configuration.devicePlan
  selectedRecipes :
    requiredIdentifierList mapping "selected_recipes" = .ok configuration.selectedRecipes
  bindings : ∃ entries pairs, requiredMapping mapping "bindings" = .ok entries ∧
    entries.mapM parseBinding = .ok pairs ∧ configuration.bindings = .ofList pairs
  compatibility :
    parseBaseline mapping configuration.schemaVersion = .ok configuration.compatibility
  extensions : ∃ fields, mapping.mapM parseExtension = .ok fields ∧
    configuration.extensions = .ofList fields.reduceOption ∧
    configuration.unsupportedExtensions = (fields.reduceOption.map Prod.fst).filter
      (unsupportedExtension configuration.schemaVersion)

theorem read_iff : parseUserConfigurationMapping mapping = .ok configuration ↔
    Read mapping configuration := by
  simp only [parseUserConfigurationMapping, parseBindings, bind_eq_ok]
  constructor
  · rintro ⟨version, versioned, _, supported, kind, kindRead, _, documentKind, id, idRead, _, valid,
      name, nameRead, plan, planRead, selected, selectedRead, held, heldRead, bindings,
      ⟨pairs, mapped, built⟩, baseline, baselineRead, fields, fieldsRead, same⟩
    cases Except.ok.inj built
    cases Except.ok.inj same
    exact ⟨versioned, require_eq_ok.mp supported, kindRead, require_eq_ok.mp documentKind, idRead,
      validateIdentifier_eq_ok.mp valid, nameRead, planRead, selectedRead,
      ⟨held, pairs, heldRead, mapped, rfl⟩, baselineRead, ⟨fields, fieldsRead, rfl, rfl⟩⟩
  · intro read
    obtain ⟨entries, pairs, held, mapped, built⟩ := read.bindings
    obtain ⟨fields, listed, kept, refused⟩ := read.extensions
    refine ⟨_, read.schemaVersion, (), require_eq_ok.mpr read.supported, _, read.kind, (),
      require_eq_ok.mpr read.documentKind, _, read.id, (),
      validateIdentifier_eq_ok.mpr read.identifier, _, read.name, _, read.devicePlan, _,
      read.selectedRecipes, _, held, _, ⟨pairs, mapped, rfl⟩, _, read.compatibility, fields, listed, ?_⟩
    rw [← built, ← kept, ← refused]
    rfl

end

section

structure Sound (configuration : UserConfiguration) : Prop where
  supported : configuration.schemaVersion = 1 ∨ configuration.schemaVersion = 2
  documentKind : configuration.kind = "user_configuration"
  identified : trim configuration.id ≠ ""
  identifier : isIdentifier configuration.id = true
  named : trim configuration.name ≠ ""
  planned : trim configuration.devicePlan ≠ ""
  selected : ∀ recipeId ∈ configuration.selectedRecipes, isIdentifier recipeId = true
  keys : configuration.KeysValid
  values : ∀ binding ∈ configuration.bindings.entries, binding.2.distinct
  baseline : configuration.schemaVersion = 2 → ∃ held, configuration.compatibility = some held ∧
    parseCompatibility (ofTexts (compatibilityFields held)) = .ok held
  unversioned : configuration.schemaVersion ≠ 2 → configuration.compatibility = none
  extensions : ∀ extension ∈ configuration.extensions.entries, extension.1 ∉ knownFields ∧
    prohibitedAuthorityField extension.1 = false ∧ extension.2.distinct
  unsupported : ∀ key, key ∈ configuration.unsupportedExtensions ↔
    key ∈ configuration.extensions.keys ∧
      unsupportedExtension configuration.schemaVersion key = true

def Edit.distinct : Edit → Prop
  | .setBinding _ (some value) => value.distinct
  | _ => True

variable {mapping : List (Yaml × Yaml)} {configuration : UserConfiguration}

theorem mem_of_mem_ofList {pairs : List (String × Json)} {pair : String × Json}
    (member : pair ∈ (OrderedMap.ofList pairs).entries) : pair ∈ pairs :=
  OrderedMap.mem_of_get?_ofList (OrderedMap.get?_eq_some.mpr member)

theorem Read.sound (read : Read mapping configuration) : Sound configuration where
  supported := read.supported
  documentKind := read.documentKind
  identified := (requiredNonEmptyString_eq_ok.mp read.id).2
  identifier := read.identifier
  named := (requiredNonEmptyString_eq_ok.mp read.name).2
  planned := (requiredNonEmptyString_eq_ok.mp read.devicePlan).2
  selected := (requiredIdentifierList_eq_ok.mp read.selectedRecipes).2
  keys := by
    obtain ⟨entries, pairs, _, mapped, built⟩ := read.bindings
    intro key member
    rw [built, OrderedMap.mem_keys_ofList, List.mem_map] at member
    obtain ⟨pair, held, rfl⟩ := member
    obtain ⟨binding, _, parsed⟩ := Checks.mem_left_of_forall₂ (mapM_eq_ok.mp mapped) held
    exact (parseBinding_eq_ok.mp parsed).2.1
  values := by
    obtain ⟨entries, pairs, _, mapped, built⟩ := read.bindings
    intro binding member
    rw [built] at member
    obtain ⟨origin, _, parsed⟩ :=
      Checks.mem_left_of_forall₂ (mapM_eq_ok.mp mapped) (mem_of_mem_ofList member)
    obtain ⟨_, _, _, source, _, _, converted⟩ := parseBinding_eq_ok.mp parsed
    exact distinct_of_yamlToJson converted
  baseline second := by
    obtain ⟨entries, held, _, parsed, kept⟩ := (parseBaseline_eq_ok.mp read.compatibility).1 second
    exact ⟨held, kept, parseCompatibility_again parsed⟩
  unversioned := (parseBaseline_eq_ok.mp read.compatibility).2
  extensions := by
    obtain ⟨fields, mapped, built, _⟩ := read.extensions
    intro extension member
    rw [built] at member
    have listed := List.reduceOption_mem_iff.mp (mem_of_mem_ofList member)
    obtain ⟨field, _, parsed⟩ := Checks.mem_left_of_forall₂ (mapM_eq_ok.mp mapped) listed
    obtain ⟨_, allowed, unknown, converted⟩ := parseExtension_eq_some.mp parsed
    exact ⟨unknown, allowed, distinct_of_yamlToJson converted⟩
  unsupported key := by
    obtain ⟨fields, _, built, refused⟩ := read.extensions
    rw [built, refused, List.mem_filter, OrderedMap.mem_keys_ofList]

theorem setBinding_sound {key : String} {value : Option Json} {result : UserConfiguration × Bool}
    (sound : Sound configuration) (distinct : (Edit.setBinding key value).distinct)
    (set : setBinding configuration key value = .ok result) : Sound result.1 := by
  obtain ⟨_, valid, set⟩ := bind_eq_ok.mp set
  cases value with
  | none =>
      cases Except.ok.inj set
      refine { sound with keys := fun other member => ?_, values := fun binding member => ?_ }
      · obtain ⟨entry, kept, rfl⟩ := List.mem_map.mp member
        exact sound.keys _ (List.mem_map_of_mem (List.mem_of_mem_filter kept))
      · exact sound.values binding (List.mem_of_mem_filter member)
  | some value =>
      dsimp only at set
      split_ifs at set
      · cases Except.ok.inj set
        exact sound
      · cases Except.ok.inj set
        refine { sound with keys := fun other member => ?_, values := fun binding member => ?_ }
        · rcases OrderedMap.keys_insert.mp member with rfl | held
          · exact valid
          · exact sound.keys other held
        · have found := OrderedMap.get?_eq_some.mpr member
          rw [OrderedMap.get?_insert] at found
          split_ifs at found
          · cases found
            exact distinct
          · exact sound.values binding (OrderedMap.get?_eq_some.mp found)

theorem afterEdit_sound {edit : Edit} (sound : Sound configuration) (distinct : edit.distinct) :
    Sound (afterEdit configuration edit) := by
  rw [afterEdit]
  split
  next result changed set =>
    cases edit with
    | setBinding key value => exact setBinding_sound sound distinct set
    | setSelectedRecipes selectedRecipes =>
        obtain ⟨_, valid, set⟩ := bind_eq_ok.mp set
        cases Except.ok.inj set
        refine { sound with selected := fun recipeId member => ?_ }
        exact validateIdentifier_eq_ok.mp (Checks.forM_eq_ok.mp valid recipeId member)
    | setDevicePlan devicePlan =>
        obtain ⟨_, filled, set⟩ := bind_eq_ok.mp set
        cases Except.ok.inj set
        exact { sound with planned := require_eq_ok.mp filled }
  next => exact sound

theorem afterEdits_sound {edits : List Edit} (distinct : ∀ edit ∈ edits, edit.distinct)
    (sound : Sound configuration) : Sound (edits.foldl afterEdit configuration) := by
  induction edits generalizing configuration with
  | nil => exact sound
  | cons edit rest ih =>
      rw [List.forall_mem_cons] at distinct
      exact ih distinct.2 (afterEdit_sound sound distinct.1)

theorem afterEdit_extensions {edit : Edit} :
    (afterEdit configuration edit).extensions = configuration.extensions ∧
      (afterEdit configuration edit).schemaVersion = configuration.schemaVersion := by
  rw [afterEdit]
  split
  next result changed set =>
    cases edit with
    | setBinding key value =>
        obtain ⟨_, _, set⟩ := bind_eq_ok.mp set
        cases value with
        | none => cases Except.ok.inj set; exact ⟨rfl, rfl⟩
        | some value =>
            dsimp only at set
            split_ifs at set
            · cases Except.ok.inj set; exact ⟨rfl, rfl⟩
            · cases Except.ok.inj set; exact ⟨rfl, rfl⟩
    | setSelectedRecipes selectedRecipes =>
        obtain ⟨_, _, set⟩ := bind_eq_ok.mp set
        cases Except.ok.inj set
        exact ⟨rfl, rfl⟩
    | setDevicePlan devicePlan =>
        obtain ⟨_, _, set⟩ := bind_eq_ok.mp set
        cases Except.ok.inj set
        exact ⟨rfl, rfl⟩
  next => exact ⟨rfl, rfl⟩

theorem afterEdits_extensions {edits : List Edit} :
    (edits.foldl afterEdit configuration).extensions = configuration.extensions ∧
      (edits.foldl afterEdit configuration).schemaVersion = configuration.schemaVersion := by
  induction edits generalizing configuration with
  | nil => exact ⟨rfl, rfl⟩
  | cons edit rest ih =>
      obtain ⟨extensions, version⟩ := @afterEdit_extensions configuration edit
      rw [List.foldl_cons, ih.1, ih.2]
      exact ⟨extensions, version⟩

end

section

def canonicalMap (map : OrderedMap String Json) : OrderedMap String Json :=
  .ofList ((sortKeys map.entries).map fun entry => (entry.1, Json.canonical entry.2))

def reread (configuration : UserConfiguration) : UserConfiguration :=
  { configuration with
    bindings := canonicalMap configuration.bindings
    extensions := canonicalMap configuration.extensions
    unsupportedExtensions := (canonicalMap configuration.extensions).keys.filter
      (unsupportedExtension configuration.schemaVersion) }

variable {map : OrderedMap String Json} {configuration : UserConfiguration} {key : String}

theorem nodup_sorted_map {α : Type} (change : String × Json → α) :
    (((sortKeys map.entries).map fun entry => (entry.1, change entry)).map Prod.fst).Nodup := by
  rw [List.map_map]
  exact nodup_sortKeys.mpr map.distinct

theorem entries_canonicalMap : (canonicalMap map).entries =
    (sortKeys map.entries).map fun entry => (entry.1, Json.canonical entry.2) :=
  OrderedMap.entries_ofList (nodup_sorted_map fun entry => Json.canonical entry.2)

theorem get?_canonicalMap : (canonicalMap map).get? key = (map.get? key).map Json.canonical := by
  refine Option.ext fun value => ?_
  simp only [OrderedMap.get?_eq_some, entries_canonicalMap, List.mem_map, mem_sortKeys,
    Option.map_eq_some_iff]
  constructor
  · rintro ⟨entry, member, same⟩
    cases same
    exact ⟨entry.2, member, rfl⟩
  · rintro ⟨held, member, rfl⟩
    exact ⟨(key, held), member, rfl⟩

theorem mem_keys_canonicalMap : key ∈ (canonicalMap map).keys ↔ key ∈ map.keys := by
  rw [← OrderedMap.get?_isSome, ← OrderedMap.get?_isSome, get?_canonicalMap, Option.isSome_map]

def SameMap (first second : OrderedMap String Json) : Prop :=
  ∀ key, Option.Rel (fun value other => Json.equal value other = true)
    (first.get? key) (second.get? key)

theorem sameMap_canonicalMap (distinct : ∀ entry ∈ map.entries, entry.2.distinct) :
    SameMap map (canonicalMap map) := by
  intro key
  rw [get?_canonicalMap]
  cases found : map.get? key with
  | none => exact .none
  | some value => exact .some (Json.equal_canonical (distinct _ (OrderedMap.get?_eq_some.mp found)))

theorem sortKeys_canonicalMap {α : Type} {write : String × Json → α}
    (blind : ∀ entry ∈ map.entries, write (entry.1, Json.canonical entry.2) = write entry) :
    (sortKeys (canonicalMap map).entries).map write = (sortKeys map.entries).map write := by
  rw [entries_canonicalMap, sortKeys_map fun entry => Json.canonical entry.2, sortKeys_sortKeys,
    List.map_map]
  exact List.map_congr_left fun entry member => blind entry (mem_sortKeys.mp member)

end

section

variable {configuration : UserConfiguration}

theorem extensionEntries_eq (sound : Sound configuration) : extensionEntries configuration =
    (sortKeys configuration.extensions.entries).map fun entry => (entry.1, jsonToYaml entry.2) := by
  rw [extensionEntries, List.filter_eq_self.mpr]
  intro entry member
  exact decide_eq_true (sound.extensions entry (mem_sortKeys.mp member)).1

theorem knownEntries_names : ∀ entry ∈ knownEntries configuration, entry.1 ∈ knownFields := by
  cases held : configuration.compatibility with
  | none => simp [knownEntries, held, knownFields]
  | some baseline => simp [knownEntries, held, knownFields]

theorem nodup_emittedFields (sound : Sound configuration) :
    ((emittedFields configuration).map Prod.fst).Nodup := by
  rw [emittedFields, List.map_append, List.nodup_append']
  refine ⟨?_, ?_, ?_⟩
  · cases held : configuration.compatibility with
    | none => simp [knownEntries, held]
    | some baseline => simp [knownEntries, held]
  · rw [extensionEntries_eq sound]
    exact nodup_sorted_map fun entry => jsonToYaml entry.2
  · rw [List.disjoint_left, extensionEntries_eq sound]
    intro name known listed
    obtain ⟨entry, member, rfl⟩ := List.mem_map.mp known
    rw [List.map_map] at listed
    obtain ⟨extension, held, same⟩ := List.mem_map.mp listed
    have unknown := (sound.extensions extension (mem_sortKeys.mp held)).1
    rw [show extension.1 = entry.1 from same] at unknown
    exact unknown (knownEntries_names entry member)

theorem get?_emitted (sound : Sound configuration) {key : String} {value : Yaml}
    (member : (key, value) ∈ knownEntries configuration) :
    Yaml.get? (ofTexts (emittedFields configuration)) key = some value :=
  (Yaml.get?_ofTexts (nodup_emittedFields sound)).mpr (List.mem_append_left _ member)

theorem bindingSource_value {key : String} {value : Yaml} :
    bindingSource key (ofTexts [("value", value)]) = .ok value := rfl

theorem parse_emittedBindings (sound : Sound configuration) :
    (ofTexts ((sortKeys configuration.bindings.entries).map emitBinding)).mapM parseBinding =
      .ok ((sortKeys configuration.bindings.entries).map fun entry =>
        (entry.1, Json.canonical entry.2)) := by
  rw [mapM_eq_ok, ofTexts, List.map_map, List.forall₂_map_left_iff, List.forall₂_map_right_iff,
    List.forall₂_same]
  intro entry member
  have held := mem_sortKeys.mp member
  refine parseBinding_eq_ok.mpr ⟨rfl, sound.keys _ (List.mem_map_of_mem held), _, _, rfl,
    bindingSource_value, ?_⟩
  exact yamlToJson_jsonToYaml (sound.values entry held)

theorem parse_emittedExtensions (sound : Sound configuration) :
    (ofTexts (emittedFields configuration)).mapM parseExtension =
      .ok ((knownEntries configuration).map (fun _ => none) ++
        (sortKeys configuration.extensions.entries).map fun entry =>
          some (entry.1, Json.canonical entry.2)) := by
  rw [mapM_eq_ok, emittedFields, ofTexts, List.map_append]
  refine List.rel_append ?_ ?_
  · rw [List.forall₂_map_left_iff, List.forall₂_map_right_iff, List.forall₂_same]
    exact fun entry member => parseExtension_known (knownEntries_names entry member)
  · rw [extensionEntries_eq sound, List.map_map, List.forall₂_map_left_iff,
      List.forall₂_map_right_iff, List.forall₂_same]
    intro entry member
    obtain ⟨unknown, allowed, distinct⟩ := sound.extensions entry (mem_sortKeys.mp member)
    exact parseExtension_eq_some.mpr ⟨rfl, allowed, unknown, yamlToJson_jsonToYaml distinct⟩

theorem reduceOption_emitted : List.reduceOption ((knownEntries configuration).map (fun _ => none) ++
      (sortKeys configuration.extensions.entries).map fun entry =>
        some (entry.1, Json.canonical entry.2)) =
    (sortKeys configuration.extensions.entries).map fun entry =>
      (entry.1, Json.canonical entry.2) := by
  rw [List.reduceOption_append, List.map_const', List.reduceOption_replicate_none, List.nil_append,
    List.reduceOption, List.filterMap_map]
  exact congrFun List.filterMap_eq_map _

theorem parse_emit (sound : Sound configuration) :
    parseUserConfigurationValue (emitUserConfiguration configuration) = .ok (reread configuration) := by
  refine read_iff.mpr {
    schemaVersion := requiredI64_eq_ok.mpr ?_
    supported := sound.supported
    kind := requiredNonEmptyString_eq_ok.mpr ⟨get?_emitted sound (by simp [knownEntries, reread]), ?_⟩
    documentKind := sound.documentKind
    id := requiredNonEmptyString_eq_ok.mpr
      ⟨get?_emitted sound (by simp [knownEntries, reread]), sound.identified⟩
    identifier := sound.identifier
    name := requiredNonEmptyString_eq_ok.mpr
      ⟨get?_emitted sound (by simp [knownEntries, reread]), sound.named⟩
    devicePlan := requiredNonEmptyString_eq_ok.mpr
      ⟨get?_emitted sound (by simp [knownEntries, reread]), sound.planned⟩
    selectedRecipes := requiredIdentifierList_eq_ok.mpr
      ⟨get?_emitted sound (by simp [knownEntries, reread]), sound.selected⟩
    bindings := ⟨_, _, requiredMapping_eq_ok.mpr (get?_emitted sound (by simp [knownEntries])),
      parse_emittedBindings sound, rfl⟩
    compatibility := parseBaseline_eq_ok.mpr ⟨fun second => ?_, sound.unversioned⟩
    extensions := ⟨_, parse_emittedExtensions sound, ?_, ?_⟩ }
  · have held : ("schema_version", .integer configuration.schemaVersion) ∈ knownEntries configuration :=
      by simp [knownEntries]
    rw [get?_emitted sound held]
    change Yaml.asI64 (.integer configuration.schemaVersion) = some configuration.schemaVersion
    rcases sound.supported with version | version
    · rw [version]
      rfl
    · rw [version]
      rfl
  · rw [show (reread configuration).kind = "user_configuration" from sound.documentKind]
    decide
  · obtain ⟨held, found, again⟩ := sound.baseline second
    exact ⟨_, held, get?_emitted sound (by simp [knownEntries, found, emitCompatibility]), again, found⟩
  · rw [reduceOption_emitted]
    rfl
  · rw [reduceOption_emitted]
    exact congrArg (List.filter _) (congrArg (List.map Prod.fst) entries_canonicalMap)

end

section

structure SameConfiguration (first second : UserConfiguration) : Prop where
  schemaVersion : first.schemaVersion = second.schemaVersion
  kind : first.kind = second.kind
  id : first.id = second.id
  name : first.name = second.name
  devicePlan : first.devicePlan = second.devicePlan
  selectedRecipes : first.selectedRecipes = second.selectedRecipes
  bindings : SameMap first.bindings second.bindings
  compatibility : first.compatibility = second.compatibility
  extensions : SameMap first.extensions second.extensions
  unsupportedExtensions : ∀ key,
    key ∈ first.unsupportedExtensions ↔ key ∈ second.unsupportedExtensions

def definedFields (source : List (Yaml × Yaml)) : List String :=
  if (Yaml.get? source "schema_version").bind Yaml.asI64 = some 2 then knownFields
  else knownFields.erase "compatibility"

def extensionFields (source : List (Yaml × Yaml)) : List (Yaml × Yaml) :=
  source.filter fun field => !(definedFields source).any fun key => field.1.isText key

def Keeps (tree : Yaml) (field : Yaml × Yaml) : Prop :=
  ∃ entries, tree = .mapping entries ∧
    ∃ other ∈ entries, field.1.equal other.1 = true ∧ field.2.equal other.2 = true

/-- The written tree is a valid one, reads back as the same configuration, whose tree is the same,
and keeps every extension of the source with its value. -/
structure Faithful (source : List (Yaml × Yaml)) (configuration : UserConfiguration) : Prop where
  valid : (emitUserConfiguration configuration).distinct
  again : ∃ other,
    parseUserConfigurationValue (emitUserConfiguration configuration) = .ok other ∧
      SameConfiguration configuration other ∧
      emitUserConfiguration other = emitUserConfiguration configuration
  kept : ∀ field ∈ extensionFields source, Keeps (emitUserConfiguration configuration) field

/-- Every extension of the source has an untagged text as its key, which no version of the schema
defines, and a value that JSON can hold. -/
def PlainExtensions (source : List (Yaml × Yaml)) : Prop :=
  ∀ field ∈ extensionFields source,
    (∃ key, field.1 = .string key ∧ key ∉ knownFields) ∧ field.2.plain = true

variable {source : List (Yaml × Yaml)} {configuration : UserConfiguration}

theorem emit_reread (sound : Sound configuration) :
    emitUserConfiguration (reread configuration) = emitUserConfiguration configuration := by
  have bindings : (sortKeys (canonicalMap configuration.bindings).entries).map emitBinding =
      (sortKeys configuration.bindings.entries).map emitBinding :=
    sortKeys_canonicalMap fun entry member => by
      simp only [emitBinding, jsonToYaml, Yaml.ofJson_canonical (sound.values entry member)]
  have extensions : extensionEntries (reread configuration) = extensionEntries configuration := by
    have kept (entries : List (String × Json)) :
        ((entries.filter (·.1 ∉ knownFields)).map fun entry => (entry.1, jsonToYaml entry.2)) =
          (entries.map fun entry => (entry.1, jsonToYaml entry.2)).filter (·.1 ∉ knownFields) := by
      rw [List.filter_map]
      rfl
    rw [extensionEntries, extensionEntries, kept, kept]
    refine congrArg (List.filter _) (sortKeys_canonicalMap fun entry member => ?_)
    rw [jsonToYaml, Yaml.ofJson_canonical (sound.extensions entry member).2.2]
    rfl
  have known : knownEntries (reread configuration) = knownEntries configuration := by
    rw [knownEntries, knownEntries, ← bindings]
    rfl
  rw [emitUserConfiguration, emittedFields, known, extensions]
  rfl

theorem same_reread (sound : Sound configuration) :
    SameConfiguration configuration (reread configuration) where
  schemaVersion := rfl
  kind := rfl
  id := rfl
  name := rfl
  devicePlan := rfl
  selectedRecipes := rfl
  bindings := sameMap_canonicalMap sound.values
  compatibility := rfl
  extensions := sameMap_canonicalMap fun entry member => (sound.extensions entry member).2.2
  unsupportedExtensions key := by
    rw [sound.unsupported, reread, List.mem_filter, mem_keys_canonicalMap]

theorem distinct_texts (texts : List String) : (Yaml.sequence (texts.map .string)).distinct := by
  rw [Yaml.distinct_sequence, List.forall_mem_map]
  exact fun _ _ => trivial

theorem distinct_emitCompatibility (held : SavedCompatibilityBaseline) :
    (emitCompatibility held).distinct := by
  have input (snapshot : SavedInputContractSnapshot) : (emitInputSnapshot snapshot).distinct :=
    Yaml.distinct_ofTexts.mpr ⟨by simp, by simp⟩
  have recipe (snapshot : SavedRecipeContractSnapshot) : (emitRecipeSnapshot snapshot).distinct := by
    refine Yaml.distinct_ofTexts.mpr ⟨by simp [snapshotFields], ?_⟩
    have inputs : (Yaml.sequence (snapshot.inputs.map emitInputSnapshot)).distinct := by
      rw [Yaml.distinct_sequence, List.forall_mem_map]
      exact fun each _ => input each
    simp [snapshotFields, inputs]
  refine Yaml.distinct_ofTexts.mpr ⟨by simp [compatibilityFields], ?_⟩
  have recipes : (Yaml.sequence (held.recipes.map emitRecipeSnapshot)).distinct := by
    rw [Yaml.distinct_sequence, List.forall_mem_map]
    exact fun each _ => recipe each
  have plan : (emitContractSnapshot held.devicePlan).distinct :=
    Yaml.distinct_ofTexts.mpr ⟨by simp [snapshotFields], by simp [snapshotFields]⟩
  simp [compatibilityFields, plan, recipes]

theorem distinct_emit (sound : Sound configuration) : (emitUserConfiguration configuration).distinct := by
  refine Yaml.distinct_ofTexts.mpr ⟨nodup_emittedFields sound, fun entry member => ?_⟩
  have bindings : (Yaml.mapping (ofTexts ((sortKeys configuration.bindings.entries).map
      emitBinding))).distinct := by
    refine Yaml.distinct_ofTexts.mpr ⟨nodup_sorted_map _, List.forall_mem_map.mpr fun binding _ => ?_⟩
    refine Yaml.distinct_ofTexts.mpr ⟨by simp, ?_⟩
    simp [jsonToYaml, Yaml.distinct_ofJson]
  rcases List.mem_append.mp member with known | listed
  · rcases List.mem_append.mp known with fixed | baseline
    · simp only [List.mem_cons, List.not_mem_nil, or_false] at fixed
      rcases fixed with rfl | rfl | rfl | rfl | rfl | rfl | rfl
      · trivial
      · trivial
      · trivial
      · trivial
      · trivial
      · exact distinct_texts _
      · exact bindings
    · obtain ⟨held, _, rfl⟩ := Option.map_eq_some_iff.mp (Option.mem_toList.mp baseline)
      exact distinct_emitCompatibility held
  · obtain ⟨extension, _, rfl⟩ := List.mem_map.mp listed
    exact Yaml.distinct_ofJson

theorem mem_extensionFields {field : Yaml × Yaml} : field ∈ extensionFields source ↔
    field ∈ source ∧ ∀ key ∈ definedFields source, field.1 ≠ .string key := by
  rw [extensionFields, List.mem_filter, Bool.not_eq_true', List.any_eq_false]
  simp only [Yaml.isText_iff, ne_eq]

variable {key : String}

theorem definedFields_known (defined : key ∈ definedFields source) : key ∈ knownFields := by
  rw [definedFields] at defined
  split_ifs at defined
  · exact defined
  · exact List.mem_of_mem_erase defined

theorem entry_unique {entries : List (Yaml × Yaml)} {first second : Yaml × Yaml}
    (apart : entries.Pairwise fun one other => one.1.equal other.1 = false)
    (one : first ∈ entries) (other : second ∈ entries) (named : first.1 = .string key)
    (again : second.1 = .string key) : first = second := by
  have clash : Yaml.equal (.string key) (.string key) = true := Yaml.equal_string.mpr rfl
  induction apart with
  | nil => cases one
  | cons before _ ih =>
      rcases List.mem_cons.mp one with rfl | first
      · rcases List.mem_cons.mp other with rfl | second
        · rfl
        · have different := before _ second
          rw [named, again, clash] at different
          cases different
      · rcases List.mem_cons.mp other with rfl | second
        · have different := before _ first
          rw [again, named, clash] at different
          cases different
        · exact ih first second

theorem mem_emitted_of_extension {value : Json} (unknown : key ∉ knownFields)
    (held : configuration.extensions.get? key = some value) :
    (.string key, jsonToYaml value) ∈ ofTexts (emittedFields configuration) := by
  refine List.mem_map.mpr ⟨(key, jsonToYaml value), List.mem_append_right _ ?_, rfl⟩
  refine List.mem_map.mpr ⟨(key, value), List.mem_filter.mpr ⟨?_, decide_eq_true unknown⟩, rfl⟩
  exact mem_sortKeys.mpr (OrderedMap.get?_eq_some.mp held)

theorem extension_read (valid : (Yaml.mapping source).distinct) (read : Read source configuration)
    (plain : PlainExtensions source) {field : Yaml × Yaml} (member : field ∈ extensionFields source) :
    ∃ key value, field.1 = .string key ∧ key ∉ knownFields ∧
      configuration.extensions.get? key = some value ∧ field.2.equal (jsonToYaml value) = true := by
  obtain ⟨apart, parts⟩ := Yaml.distinct_mapping.mp valid
  obtain ⟨⟨key, named, unknown⟩, held⟩ := plain field member
  have inside := (mem_extensionFields.mp member).1
  obtain ⟨value, converted, same⟩ := exists_yamlToJson held (parts field inside).2
  obtain ⟨fields, mapped, built, _⟩ := read.extensions
  have each := mapM_eq_ok.mp mapped
  refine ⟨key, value, named, unknown, ?_, same⟩
  rw [built]
  refine OrderedMap.get?_ofList_of_agree ?_ ?_
  · obtain ⟨result, listed, parsed⟩ := Checks.mem_right_of_forall₂ each inside
    obtain ⟨other, rfl, again⟩ := parseExtension_unknown parsed (by rw [named]; rfl) unknown
    rw [Except.ok.inj (again.symm.trans converted)] at listed
    exact List.reduceOption_mem_iff.mpr listed
  · intro other listed
    obtain ⟨twin, place, parsed⟩ :=
      Checks.mem_left_of_forall₂ each (List.reduceOption_mem_iff.mp listed)
    obtain ⟨read, _, _, again⟩ := parseExtension_eq_some.mp parsed
    have extra : twin ∈ extensionFields source := by
      refine mem_extensionFields.mpr ⟨place, fun text defined spelled => unknown ?_⟩
      rw [spelled, Yaml.asStr, Option.some.injEq] at read
      exact read ▸ definedFields_known defined
    obtain ⟨⟨text, spelled, _⟩, _⟩ := plain twin extra
    rw [spelled, Yaml.asStr, Option.some.injEq] at read
    rw [read] at spelled
    rw [entry_unique apart place inside spelled named] at again
    exact Except.ok.inj (again.symm.trans converted)

theorem knownEntries_defined (sound : Sound configuration)
    (version : requiredI64 source "schema_version" = .ok configuration.schemaVersion) :
    ∀ entry ∈ knownEntries configuration, entry.1 ∈ definedFields source := by
  intro entry member
  have held := requiredI64_eq_ok.mp version
  by_cases second : configuration.schemaVersion = 2
  · rw [definedFields, if_pos (by rw [held, second])]
    exact knownEntries_names entry member
  · rw [definedFields, if_neg (by rwa [held, Option.some.injEq])]
    have names : ∀ entry ∈ knownEntries configuration,
        entry.1 ∈ knownFields.erase "compatibility" := by
      simp [knownEntries, sound.unversioned second, knownFields]
    exact names entry member

theorem plain_of_keeps (sound : Sound configuration)
    (version : requiredI64 source "schema_version" = .ok configuration.schemaVersion)
    {field : Yaml × Yaml} (member : field ∈ extensionFields source)
    (kept : Keeps (emitUserConfiguration configuration) field) :
    (∃ key, field.1 = .string key ∧ key ∉ knownFields) ∧ field.2.plain = true := by
  obtain ⟨entries, written, other, listed, keys, values⟩ := kept
  cases written
  obtain ⟨entry, place, rfl⟩ := List.mem_map.mp listed
  have named : field.1 = .string entry.1 := Yaml.equal_to_string.mp keys
  rcases List.mem_append.mp place with known | extra
  · have defined := knownEntries_defined sound version entry known
    exact absurd named ((mem_extensionFields.mp member).2 entry.1 defined)
  · obtain ⟨extension, held, rfl⟩ := List.mem_map.mp extra
    exact ⟨⟨_, named, of_decide_eq_true (List.mem_filter.mp held).2⟩,
      Yaml.plain_of_equal values Yaml.plain_ofJson⟩

theorem faithful_of_plain (valid : (Yaml.mapping source).distinct) (read : Read source configuration)
    (plain : PlainExtensions source) {latest : UserConfiguration} (sound : Sound latest)
    (extensions : latest.extensions = configuration.extensions) : Faithful source latest where
  valid := distinct_emit sound
  again := ⟨reread latest, parse_emit sound, same_reread sound, emit_reread sound⟩
  kept field member := by
    obtain ⟨key, value, named, unknown, held, same⟩ := extension_read valid read plain member
    rw [← extensions] at held
    refine ⟨_, rfl, _, mem_emitted_of_extension unknown held, ?_, same⟩
    rw [named]
    exact Yaml.equal_string.mpr rfl

/-- For every accepted source and all edits: what is written reads back as it is, and it keeps the
extensions of the source where each is a field that JSON can hold and no version defines. -/
theorem faithful_iff (valid : (Yaml.mapping source).distinct)
    (accepted : parseUserConfigurationMapping source = .ok configuration) {edits : List Edit}
    (distinct : ∀ edit ∈ edits, edit.distinct) :
    Faithful source (edits.foldl afterEdit configuration) ↔ PlainExtensions source := by
  have read := read_iff.mp accepted
  have sound := afterEdits_sound distinct read.sound
  obtain ⟨extensions, version⟩ := @afterEdits_extensions configuration edits
  constructor
  · intro faithful field member
    refine plain_of_keeps sound ?_ member (faithful.kept field member)
    rw [version]
    exact read.schemaVersion
  · exact fun plain => faithful_of_plain valid read plain sound extensions

def extendedSource (key : String) (value : Yaml) : List (Yaml × Yaml) :=
  ofTexts
    [("schema_version", .integer 1), ("kind", .string "user_configuration"),
      ("id", .string "handheld"), ("name", .string "Handheld"), ("device_plan", .string "base"),
      ("selected_recipes", .sequence [.string "roms"]), ("bindings", .mapping []), (key, value)]

theorem distinct_extendedSource {value : Yaml} (distinct : value.distinct)
    (unknown : key ∉ knownFields.erase "compatibility") :
    (Yaml.mapping (extendedSource key value)).distinct := by
  refine Yaml.distinct_ofTexts.mpr ⟨?_, ?_⟩
  · change (["schema_version", "kind", "id", "name", "device_plan", "selected_recipes",
      "bindings"] ++ [key]).Nodup
    refine List.nodup_append'.mpr ⟨by decide, List.nodup_singleton key, ?_⟩
    exact List.disjoint_singleton.mpr unknown
  · have empty : (Yaml.mapping []).distinct := Yaml.distinct_mapping.mpr (by simp)
    simp [Yaml.distinct_sequence, distinct, empty]

theorem extensionFields_extendedSource {value : Yaml}
    (unknown : key ∉ knownFields.erase "compatibility") {field : Yaml × Yaml} :
    field ∈ extensionFields (extendedSource key value) ↔ field = (.string key, value) := by
  have defined : definedFields (extendedSource key value) = knownFields.erase "compatibility" := rfl
  rw [mem_extensionFields, defined]
  constructor
  · rintro ⟨member, extra⟩
    obtain ⟨entry, listed, rfl⟩ := List.mem_map.mp member
    have named : entry.1 ∉ knownFields.erase "compatibility" := fun known => extra entry.1 known rfl
    simp only [List.mem_cons, List.not_mem_nil, or_false] at listed
    rcases listed with rfl | rfl | rfl | rfl | rfl | rfl | rfl | rfl
    · exact absurd (by decide) named
    · exact absurd (by decide) named
    · exact absurd (by decide) named
    · exact absurd (by decide) named
    · exact absurd (by decide) named
    · exact absurd (by decide) named
    · exact absurd (by decide) named
    · rfl
  · rintro rfl
    refine ⟨by simp [extendedSource, ofTexts], fun name known same => unknown ?_⟩
    rwa [Yaml.string.inj same]

theorem faithful_iff_extended :
    let source := extendedSource "x-notes" (.mapping (ofTexts [("b", .integer 1), ("a", .null)]))
    let edits := [Edit.setBinding "roms/source" (some (.string "/roms")), .setDevicePlan "other"]
    ∃ configuration, parseUserConfigurationMapping source = .ok configuration ∧
      Faithful source (edits.foldl afterEdit configuration) := by
  intro source edits
  have read : ∃ configuration, parseUserConfigurationMapping source = .ok configuration := ⟨_, rfl⟩
  obtain ⟨configuration, accepted⟩ := read
  refine ⟨configuration, accepted,
    (faithful_iff (distinct_extendedSource ?_ (by decide)) accepted ?_).mpr ?_⟩
  · exact Yaml.distinct_ofTexts.mpr ⟨by decide, by simp⟩
  · simp [edits, Edit.distinct, Json.distinct]
  · intro field member
    rw [(extensionFields_extendedSource (by decide)).mp member]
    exact ⟨⟨_, rfl, by decide⟩, rfl⟩

/-- The field `compatibility` of a source of the first version is lost. -/
theorem not_faithful_compatibility :
    let source := extendedSource "compatibility" (.string "kept for later")
    (Yaml.mapping source).distinct ∧
      ∃ configuration, parseUserConfigurationMapping source = .ok configuration ∧
        ¬Faithful source configuration := by
  intro source
  have read : ∃ configuration, parseUserConfigurationMapping source = .ok configuration := ⟨_, rfl⟩
  obtain ⟨configuration, accepted⟩ := read
  have held := read_iff.mp accepted
  refine ⟨distinct_extendedSource trivial (by decide), configuration, accepted, fun faithful => ?_⟩
  have member := (@extensionFields_extendedSource "compatibility" (.string "kept for later")
    (by decide) _).mpr rfl
  have kept := plain_of_keeps held.sound held.schemaVersion member (faithful.kept _ member)
  obtain ⟨⟨key, named, unknown⟩, _⟩ := kept
  cases named
  exact unknown (by decide)

end

end EmuChef.Configuration
