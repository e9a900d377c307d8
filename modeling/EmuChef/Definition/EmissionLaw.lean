import EmuChef.Definition.RoundTrip

/-! Nothing that a document supplies is lost by parsing it and emitting the App Definition. -/

namespace EmuChef.Definition

open Authored (ReleaseProvider AppArtifactSource)
open Serde

def Supplies (tree : Yaml) (name : String) (value : Yaml) : Prop :=
  ∃ entries key, mappingOf tree = some entries ∧ (key, value) ∈ entries ∧ key.asStr = some name

def spelled : Yaml → Yaml
  | .tagged tag .null => .string tag
  | .tagged _ value => spelled value
  | value => value

theorem spelled_of_asStr {value : Yaml} {text : String} :
    value.asStr = some text → spelled value = .string text := by
  induction value using Yaml.induct with
  | string held =>
      intro found
      cases found
      rfl
  | tagged tag value ih =>
      intro found
      cases value with
      | null => cases found
      | _ => exact ih found
  | _ => exact fun found => by cases found

theorem spelled_of_asBool {value : Yaml} {flag : Bool} :
    value.asBool = some flag → spelled value = .bool flag := by
  induction value using Yaml.induct with
  | bool held =>
      intro found
      cases found
      rfl
  | tagged tag value ih =>
      intro found
      cases value with
      | null => cases found
      | _ => exact ih found
  | _ => exact fun found => by cases found

theorem spelled_of_variant {α : Type} {name : α → String} {all : List α} {tree : Yaml} {value : α}
    (found : (variants name all).read tree = some value) : spelled tree = .string (name value) := by
  unfold variants at found
  dsimp only at found
  split at found
  next variant =>
    have same := List.find?_some found
    rw [decide_eq_true_eq] at same
    rw [same]
    rfl
  next tag =>
    have same := List.find?_some found
    rw [decide_eq_true_eq] at same
    rw [same]
    rfl
  next => cases found

theorem field_of_supplies {known : List String} {tree : Yaml} {field : String → Option Yaml}
    (read : readStruct known tree = some field) {name : String} {value : Yaml}
    (supplied : Supplies tree name value) : name ∈ known ∧ field name = some value := by
  obtain ⟨entries, key, mapped, member, named⟩ := supplied
  obtain ⟨others, found, read⟩ := Option.bind_eq_some_iff.mp read
  rw [mapped] at found
  cases found
  obtain ⟨fields, parts, later⟩ := Option.bind_eq_some_iff.mp read
  obtain ⟨part, inside, single⟩ := Checks.mem_right_of_forall₂ (forall₂_of_mapM parts) member
  have single : (if name ∈ known then some (name, value) else none) = some part := by
    simpa [readField, named] using single
  split at single
  next within =>
    cases single
    split at later
    next distinct =>
      cases later
      exact ⟨within, (@OrderedMap.get?_eq_some _ _ _ _ ⟨fields, distinct⟩ _).mpr inside⟩
    next => cases later
  next => cases single

theorem supplies_of_field {known : List String} {tree : Yaml} {field : String → Option Yaml}
    (read : readStruct known tree = some field) {name : String} {value : Yaml}
    (held : field name = some value) : Supplies tree name value := by
  obtain ⟨entries, mapped, later⟩ := Option.bind_eq_some_iff.mp read
  obtain ⟨fields, parts, later⟩ := Option.bind_eq_some_iff.mp later
  split at later
  next distinct =>
    cases later
    have inside := (@OrderedMap.get?_eq_some _ _ _ _ ⟨fields, distinct⟩ _).mp held
    obtain ⟨entry, member, single⟩ := Checks.mem_left_of_forall₂ (forall₂_of_mapM parts) inside
    obtain ⟨other, named, same⟩ := Option.bind_eq_some_iff.mp single
    split at same
    next =>
      cases same
      exact ⟨entries, entry.1, mapped, member, named⟩
    next => cases same
  next => cases later

theorem supplies_of_slotOf {slots : List (String × Option Yaml)} {name : String} {value : Yaml}
    (held : slotOf slots name = some value) : Supplies (writeStruct slots) name value := by
  induction slots with
  | nil => cases held
  | cons slot rest ih =>
      obtain ⟨key, first⟩ := slot
      rw [slotOf] at held
      split at held
      next same =>
        subst same
        subst held
        exact ⟨_, .string key, rfl, List.mem_cons_self, rfl⟩
      next =>
        obtain ⟨entries, written, mapped, member, named⟩ := ih held
        cases mapped
        refine ⟨_, written, rfl, ?_, named⟩
        cases first with
        | none => exact member
        | some other => exact List.mem_cons_of_mem _ member

def declaredStrategy : AppArtifactSource → Strategy
  | .userProvided => .userProvided
  | .directUrl _ _ => .directUrl
  | .latestRelease _ _ _ _ _ _ => .latestRelease

def acceptedFields : Strategy → List String
  | .userProvided => ["strategy"]
  | .directUrl => ["strategy", "url", "sha256"]
  | .latestRelease => ["strategy", "provider", "base_url", "repository", "asset_pattern",
      "invert_asset_pattern", "prerelease"]

def RawSource.slot (raw : RawSource) : String → Option (Option Yaml)
  | "strategy" => some (some (Definition.strategy.write raw.strategy))
  | "url" => raw.url.map fun held => held.map text.write
  | "sha256" => raw.sha256.map fun held => held.map text.write
  | "provider" => raw.provider.map fun held => held.map releaseProvider.write
  | "base_url" => raw.baseUrl.map fun held => held.map text.write
  | "repository" => raw.repository.map fun held => held.map text.write
  | "asset_pattern" => raw.assetPattern.map fun held => held.map text.write
  | "invert_asset_pattern" => raw.invertAssetPattern.map fun held => held.map boolean.write
  | "prerelease" => raw.prerelease.map fun held => held.map boolean.write
  | _ => none

theorem supplied_slot {α : Type} {format : Format α} {value : Yaml} {held : Option (Option α)}
    (spelling : ∀ read, format.read value = some read → spelled value = format.write read)
    (found : deserializeSupplied format (some value) = some held) :
    ∃ slot, (held.map fun inner => inner.map format.write) = some slot ∧
      (value ≠ .null → slot = some (spelled value)) := by
  by_cases null : value = .null
  · subst null
    cases found
    exact ⟨none, rfl, fun other => absurd rfl other⟩
  · have read : (format.read value).map (fun held => some (some held)) = some held := by
      cases value with
      | null => exact absurd rfl null
      | _ => exact found
    obtain ⟨inner, same, rfl⟩ := Option.map_eq_some_iff.mp read
    refine ⟨some (format.write inner), rfl, fun _ => ?_⟩
    rw [spelling inner same]

theorem raw_slot {field : String → Option Yaml} {raw : RawSource}
    (parts : readRawSource field = some raw) {name : String} (known : name ∈ rawFields)
    {value : Yaml} (supplied : field name = some value) :
    ∃ slot, raw.slot name = some slot ∧ (value ≠ .null → slot = some (spelled value)) := by
  simp only [readRawSource, Option.bind_eq_bind, Option.bind_eq_some_iff, Option.some.injEq] at parts
  obtain ⟨declared, first, url, second, sha256, third, provider, fourth, baseUrl, fifth, repository,
    sixth, assetPattern, seventh, flag, eighth, prerelease, ninth, rfl⟩ := parts
  simp only [rawFields, List.mem_cons, List.not_mem_nil, or_false] at known
  rcases known with rfl | rfl | rfl | rfl | rfl | rfl | rfl | rfl | rfl
  · obtain ⟨tree, same, read⟩ := Option.bind_eq_some_iff.mp first
    rw [supplied] at same
    cases same
    refine ⟨some (strategy.write declared), rfl, fun _ => ?_⟩
    rw [spelled_of_variant read]
    rfl
  · exact supplied_slot (fun _ => spelled_of_asStr) (supplied ▸ second)
  · exact supplied_slot (fun _ => spelled_of_asStr) (supplied ▸ third)
  · exact supplied_slot (fun _ => spelled_of_variant) (supplied ▸ fourth)
  · exact supplied_slot (fun _ => spelled_of_asStr) (supplied ▸ fifth)
  · exact supplied_slot (fun _ => spelled_of_asStr) (supplied ▸ sixth)
  · exact supplied_slot (fun _ => spelled_of_asStr) (supplied ▸ seventh)
  · exact supplied_slot (fun _ => spelled_of_asBool) (supplied ▸ eighth)
  · exact supplied_slot (fun _ => spelled_of_asBool) (supplied ▸ ninth)

theorem reject_bind_eq_some {α : Type} {present : List Bool} {next : Unit → Option α} {result : α} :
    (reject present >>= next) = some result ↔ true ∉ present ∧ next () = some result := by
  unfold reject
  split
  next held => simp [held]
  next absent => simp [absent]

theorem none_of_absent {α : Type} {value : Option α} (absent : ¬true = value.isSome) :
    value = none := by
  cases value with
  | none => rfl
  | some value => exact absurd rfl absent

theorem join_of_supplied {α β : Type} {value : Option (Option α)} {write : α → β} {written : β}
    (held : (value.map fun inner => inner.map write) = some (some written)) :
    value.join.map write = some written := by
  rcases value with _ | (_ | inner)
  · cases held
  · cases held
  · exact Option.some.inj held

theorem join_of_given {α β : Type} {value : Option (Option α)} {inner : Option α} {write : α → β}
    {written : β} (given : value.join = inner)
    (held : (value.map fun inner => inner.map write) = some (some written)) :
    inner.map write = some written :=
  given ▸ join_of_supplied held

attribute [local simp] acceptedFields declaredStrategy

theorem kept_slot {raw : RawSource} {source : AppArtifactSource} (built : raw.source = some source)
    {name : String} (known : name ∈ rawFields) {slot : Option Yaml}
    (held : raw.slot name = some slot) :
    name ∈ acceptedFields (declaredStrategy source) ∧ (FlagBesidePattern source →
      ∀ written, slot = some written → slotOf (sourceSlots source) name = some written ∨
        (name = "invert_asset_pattern" ∧ written = .bool false ∧
          ∃ pattern, raw.assetPattern = some (some pattern))) := by
  obtain ⟨declared, url, sha256, provider, baseUrl, repository, assetPattern, flag, prerelease⟩ := raw
  simp only [rawFields, List.mem_cons, List.not_mem_nil, or_false] at known
  cases declared with
  | userProvided =>
      obtain ⟨absent, same⟩ := reject_bind_eq_some.mp built
      cases same
      simp only [List.mem_cons, List.not_mem_nil, or_false, not_or] at absent
      obtain ⟨first, second, third, fourth, fifth, sixth, seventh, eighth⟩ := absent
      cases none_of_absent first
      cases none_of_absent second
      cases none_of_absent third
      cases none_of_absent fourth
      cases none_of_absent fifth
      cases none_of_absent sixth
      cases none_of_absent seventh
      cases none_of_absent eighth
      rcases known with rfl | rfl | rfl | rfl | rfl | rfl | rfl | rfl | rfl
      · cases held
        exact ⟨by simp, fun _ written same => .inl same⟩
      all_goals cases held
  | directUrl =>
      obtain ⟨absent, later⟩ := reject_bind_eq_some.mp built
      obtain ⟨address, given, same⟩ := Option.bind_eq_some_iff.mp later
      cases same
      simp only [List.mem_cons, List.not_mem_nil, or_false, not_or] at absent
      obtain ⟨first, second, third, fourth, fifth, sixth⟩ := absent
      cases none_of_absent first
      cases none_of_absent second
      cases none_of_absent third
      cases none_of_absent fourth
      cases none_of_absent fifth
      cases none_of_absent sixth
      rcases known with rfl | rfl | rfl | rfl | rfl | rfl | rfl | rfl | rfl
      · cases held
        exact ⟨by simp, fun _ written same => .inl same⟩
      · refine ⟨by simp, fun _ written same => .inl ?_⟩
        subst same
        exact join_of_given given held
      · refine ⟨by simp, fun _ written same => .inl ?_⟩
        subst same
        exact join_of_supplied held
      all_goals cases held
  | latestRelease =>
      obtain ⟨absent, later⟩ := reject_bind_eq_some.mp built
      simp only [Option.bind_eq_bind, Option.bind_eq_some_iff, Option.some.injEq] at later
      obtain ⟨service, fourth, origin, fifth, project, sixth, early, ninth, rfl⟩ := later
      simp only [List.mem_cons, List.not_mem_nil, or_false, not_or] at absent
      cases none_of_absent absent.1
      cases none_of_absent absent.2
      rcases known with rfl | rfl | rfl | rfl | rfl | rfl | rfl | rfl | rfl
      · cases held
        exact ⟨by simp, fun _ written same => .inl same⟩
      · cases held
      · cases held
      · refine ⟨by simp, fun _ written same => .inl ?_⟩
        subst same
        exact join_of_given fourth held
      · refine ⟨by simp, fun _ written same => .inl ?_⟩
        subst same
        exact join_of_given fifth held
      · refine ⟨by simp, fun _ written same => .inl ?_⟩
        subst same
        exact join_of_given sixth held
      · refine ⟨by simp, fun _ written same => .inl ?_⟩
        subst same
        exact join_of_supplied held
      · refine ⟨by simp, fun beside written same => ?_⟩
        subst same
        obtain ⟨value, supplied, rfl⟩ := Option.map_eq_some_iff.mp (join_of_supplied held)
        cases value with
        | true =>
            left
            simp [slotOf, sourceSlots, supplied, invertAssetPatternIsOmitted, Serde.optional]
        | false =>
            right
            refine ⟨rfl, rfl, ?_⟩
            rcases assetPattern with _ | (_ | pattern)
            · simp [FlagBesidePattern, supplied] at beside
            · simp [FlagBesidePattern, supplied] at beside
            · exact ⟨pattern, rfl⟩
      · refine ⟨by simp, fun _ written same => .inl ?_⟩
        subst same
        exact join_of_given ninth held

section

variable {codec : YamlCodec} {rules : ContentRules}

/-- A parsed and valid definition is emitted, read again as itself and emitted as the same text; of
the codec, only that it reads the tree it wrote is used. -/
def EmitsFaithfully (codec : YamlCodec) (rules : ContentRules) : Prop :=
  ∀ source definition, parseAppDefinitionYaml codec source = .ok definition →
    validateAppDefinition rules definition = [] →
    codec.fromStr (codec.toText (appDefinition.write definition)) =
      some (appDefinition.write definition) →
    ∃ text again, emitAppDefinitionYaml codec rules definition = .ok text ∧
      parseAppDefinitionYaml codec text = .ok again ∧ again = definition ∧
      emitAppDefinitionYaml codec rules again = .ok text

def Accepts (declared : Strategy) (name : String) : Prop :=
  ∃ tree source value, artifactSource.read tree = some source ∧
    declaredStrategy source = declared ∧ Supplies tree name value

/-- A supplied field of a valid source is emitted with the value as it is spelled; left out are nulls
and an inversion flag `false` beside a pattern. -/
def KeepsSupplied (rules : ContentRules) : Prop :=
  ∀ tree source field, artifactSource.read tree = some source →
    validateArtifactSource rules field source = [] →
    ∀ name value, Supplies tree name value → value ≠ .null →
      Supplies (artifactSource.write source) name (spelled value) ∨
        (name = "invert_asset_pattern" ∧ spelled value = .bool false ∧
          ∃ pattern, Supplies tree "asset_pattern" pattern ∧ pattern ≠ .null)

theorem emitsFaithfully : EmitsFaithfully codec rules := by
  intro source definition parsed valid kept
  have settled : appDefinition.Settled definition := by
    unfold parseAppDefinitionYaml at parsed
    split at parsed
    next => cases parsed
    next tree =>
      obtain ⟨-, -, read⟩ := parseAppDefinitionTree_eq_ok.mp parsed
      exact appDefinition_settled read (sayable_of_valid valid)
  have emitted : emitAppDefinitionYaml codec rules definition =
      .ok (codec.toText (appDefinition.write definition)) := by
    rw [emitAppDefinitionYaml, valid]
    rfl
  exact ⟨_, definition, emitted, parse_written settled kept, rfl, emitted⟩

def filledSource : Strategy → AppArtifactSource
  | .userProvided => .userProvided
  | .directUrl => .directUrl "https://example.org/app.apk" (some "00")
  | .latestRelease => .latestRelease .github "https://github.com" "libretro/RetroArch" (some "arm64")
      (some true) false

theorem filledSource_read (declared : Strategy) :
    artifactSource.read (artifactSource.write (filledSource declared)) =
      some (filledSource declared) := by
  cases declared
  all_goals rfl

theorem accepted_of_supplies {tree : Yaml} {source : AppArtifactSource}
    (found : artifactSource.read tree = some source) {name : String} {value : Yaml}
    (supplied : Supplies tree name value) : name ∈ acceptedFields (declaredStrategy source) := by
  obtain ⟨field, raw, fields, parts, built⟩ := source_read found
  obtain ⟨known, held⟩ := field_of_supplies fields supplied
  obtain ⟨slot, kept, -⟩ := raw_slot parts known held
  exact (kept_slot built known kept).1

theorem accepts_iff {declared : Strategy} {name : String} :
    Accepts declared name ↔ name ∈ acceptedFields declared := by
  constructor
  · rintro ⟨tree, source, value, found, rfl, supplied⟩
    exact accepted_of_supplies found supplied
  · intro member
    have filled : ∃ value, slotOf (sourceSlots (filledSource declared)) name = some value := by
      cases declared with
      | userProvided =>
          simp only [acceptedFields, List.mem_cons, List.not_mem_nil, or_false] at member
          subst member
          exact ⟨_, rfl⟩
      | directUrl =>
          simp only [acceptedFields, List.mem_cons, List.not_mem_nil, or_false] at member
          rcases member with rfl | rfl | rfl
          all_goals exact ⟨_, rfl⟩
      | latestRelease =>
          simp only [acceptedFields, List.mem_cons, List.not_mem_nil, or_false] at member
          rcases member with rfl | rfl | rfl | rfl | rfl | rfl | rfl
          all_goals exact ⟨_, rfl⟩
    obtain ⟨value, held⟩ := filled
    refine ⟨_, _, value, filledSource_read declared, ?_, supplies_of_slotOf held⟩
    cases declared
    all_goals rfl

theorem pattern_supplied {field : String → Option Yaml} {raw : RawSource}
    (parts : readRawSource field = some raw) {pattern : String}
    (held : raw.assetPattern = some (some pattern)) :
    ∃ value, field "asset_pattern" = some value ∧ value ≠ .null := by
  simp only [readRawSource, Option.bind_eq_bind, Option.bind_eq_some_iff, Option.some.injEq] at parts
  obtain ⟨_, -, _, -, _, -, _, -, _, -, _, -, assetPattern, read, _, -, _, -, rfl⟩ := parts
  cases held
  cases found : field "asset_pattern" with
  | none =>
      rw [found] at read
      cases read
  | some value =>
      refine ⟨value, rfl, fun null => ?_⟩
      rw [found, null] at read
      cases read

theorem keepsSupplied : KeepsSupplied rules := by
  intro tree source field found valid name value supplied present
  obtain ⟨fieldOf, raw, fields, parts, built⟩ := source_read found
  obtain ⟨known, held⟩ := field_of_supplies fields supplied
  obtain ⟨slot, kept, spelling⟩ := raw_slot parts known held
  have beside := flagBesidePattern_of_valid valid
  rcases (kept_slot built known kept).2 beside _ (spelling present) with
    written | ⟨rfl, same, pattern, patterned⟩
  · exact .inl (supplies_of_slotOf written)
  · obtain ⟨other, given, notNull⟩ := pattern_supplied parts patterned
    exact .inr ⟨rfl, same, other, supplies_of_field fields given, notNull⟩

/-- The emission of an App Definition is faithful to the document: a valid definition survives it,
a strategy accepts its own fields only, and none of them is dropped. -/
theorem emission_faithful (codec : YamlCodec) (rules : ContentRules) :
    EmitsFaithfully codec rules ∧
      (∀ declared name, Accepts declared name ↔ name ∈ acceptedFields declared) ∧
      KeepsSupplied rules :=
  ⟨emitsFaithfully, fun _ _ => accepts_iff, keepsSupplied⟩

end

def artifactText (id : String) : String :=
  "schema_version: 1\nkind: app_definition\nid: " ++ id ++ "\nname: RetroArch\npackage_id: com.retroarch\nartifacts:\n  stable:\n    kind: apk\n    source:\n      strategy: latest_release\n      provider: github\n      base_url: https://github.com\n      repository: libretro/RetroArch\n      asset_pattern: arm64\n      prerelease: false\n"

def settingsText : String :=
  "permission_sets:\n  baseline:\n    app_ops:\n    - op: MANAGE_EXTERNAL_STORAGE\n      mode: allow\n      android_api_min: 30\ntargets:\n  config:\n    kind: file\n    location: shared_storage\n    path: RetroArch/retroarch.cfg\nconfigurations:\n  main:\n    format: key_value/v1\n    target: config\n    managed_properties:\n      menu:\n        path:\n        - menu_driver\n        type: string\n        default: ozone\n"

def emittedText (id : String) : String := artifactText id ++ settingsText

/-- A text that also spells two defaults. -/
def authoredText : String :=
  artifactText "retroarch" ++ "      invert_asset_pattern: false\n" ++ settingsText ++
    "        clearable: false\n"

def fieldsTree (fields : List (String × Yaml)) : Yaml := .mapping (Yaml.ofTexts fields)

def documentTree (flag clearable : List (String × Yaml)) : Yaml :=
  fieldsTree [("schema_version", .integer 1), ("kind", .string "app_definition"),
    ("id", .string "retroarch"), ("name", .string "RetroArch"),
    ("package_id", .string "com.retroarch"),
    ("artifacts", fieldsTree [("stable", fieldsTree [("kind", .string "apk"),
      ("source", fieldsTree ([("strategy", .string "latest_release"),
        ("provider", .string "github"), ("base_url", .string "https://github.com"),
        ("repository", .string "libretro/RetroArch"), ("asset_pattern", .string "arm64"),
        ("prerelease", .bool false)] ++ flag))])]),
    ("permission_sets", fieldsTree [("baseline", fieldsTree [("app_ops", .sequence [fieldsTree
      [("op", .string "MANAGE_EXTERNAL_STORAGE"), ("mode", .string "allow"),
        ("android_api_min", .integer 30)]])])]),
    ("targets", fieldsTree [("config", fieldsTree [("kind", .string "file"),
      ("location", .string "shared_storage"), ("path", .string "RetroArch/retroarch.cfg")])]),
    ("configurations", fieldsTree [("main", fieldsTree [("format", .string "key_value/v1"),
      ("target", .string "config"), ("managed_properties", fieldsTree [("menu", fieldsTree
        ([("path", .sequence [.string "menu_driver"]), ("type", .string "string"),
          ("default", .string "ozone")] ++ clearable))])])])]

def sampleDefinition : AppDefinitionV1 where
  schemaVersion := 1
  kind := "app_definition"
  id := "retroarch"
  name := "RetroArch"
  description := none
  category := none
  packageId := "com.retroarch"
  artifacts := .ofList [("stable", ⟨.apk, none, none, .latestRelease .github "https://github.com"
    "libretro/RetroArch" (some "arm64") none false⟩)]
  permissionSets := some ⟨some ⟨[], [⟨"MANAGE_EXTERNAL_STORAGE", some 30, none⟩]⟩, none⟩
  targets := .ofList [("config", ⟨.file, .sharedStorage, "RetroArch/retroarch.cfg"⟩)]
  configurations := .ofList [("main", ⟨.keyValueV1, "config", .empty, .ofList
    [("menu", ⟨["menu_driver"], .string, false, some (.string "ozone"), noValidators⟩)]⟩)]
  launcherActivity := none
  metadata := .empty

def sampleCodec : YamlCodec where
  fromStr source :=
    if source = authoredText then
      some (documentTree [("invert_asset_pattern", .bool false)] [("clearable", .bool false)])
    else if source = emittedText "retroarch" then some (documentTree [] []) else none
  toText tree := emittedText (((getField tree "id").bind Yaml.asStr).getD "")

def sampleRules : ContentRules where
  urls := ⟨fun text => if text = "https://github.com" then
    some ⟨text, "https", some (.domain "github.com"), "", false, "/", false, false⟩ else none⟩
  isRegex _ := true
  compareFloats _ _ := none
  debugText text := text

theorem sampleCodec_authored : sampleCodec.fromStr authoredText =
    some (documentTree [("invert_asset_pattern", .bool false)] [("clearable", .bool false)]) := by
  simp only [sampleCodec, ↓reduceIte]

theorem sampleCodec_emitted :
    sampleCodec.fromStr (emittedText "retroarch") = some (documentTree [] []) := by
  have other : emittedText "retroarch" ≠ authoredText := by decide +kernel
  simp only [sampleCodec, other, ↓reduceIte]

theorem emission_faithful_sample :
    ∃ text again, emitAppDefinitionYaml sampleCodec sampleRules sampleDefinition = .ok text ∧
      parseAppDefinitionYaml sampleCodec text = .ok again ∧ again = sampleDefinition ∧
      emitAppDefinitionYaml sampleCodec sampleRules again = .ok text := by
  refine (emission_faithful sampleCodec sampleRules).1 authoredText sampleDefinition ?_ ?_
    sampleCodec_emitted
  · rw [parseAppDefinitionYaml, sampleCodec_authored]
    rfl
  · rfl

end EmuChef.Definition
