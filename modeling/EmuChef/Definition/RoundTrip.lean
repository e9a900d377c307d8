import EmuChef.Definition.Document

/-! A valid App Definition is read again from what is emitted of it. -/

namespace EmuChef.Definition

open Authored
open Planner (AppTargetKind AppOpMode)
open Serde

theorem artifactKind_settled (kind : AppArtifactKind) : artifactKind.Settled kind := by
  cases kind
  all_goals exact variants_settled rfl

theorem releaseProvider_settled (provider : ReleaseProvider) :
    releaseProvider.Settled provider := by
  cases provider
  all_goals exact variants_settled rfl

theorem appOpMode_settled (mode : AppOpMode) : appOpMode.Settled mode := by
  cases mode
  exact variants_settled rfl

theorem targetKind_settled (kind : AppTargetKind) : targetKind.Settled kind := by
  cases kind
  all_goals exact variants_settled rfl

theorem targetLocation_settled (location : AppTargetLocation) :
    targetLocation.Settled location := by
  cases location
  all_goals exact variants_settled rfl

theorem configurationFormat_settled (format : AppConfigurationFormat) :
    configurationFormat.Settled format := by
  cases format
  all_goals exact variants_settled rfl

theorem configValueType_settled (typeName : ConfigValueType) :
    configValueType.Settled typeName := by
  cases typeName
  all_goals exact variants_settled rfl

theorem strategy_settled (declared : Strategy) : strategy.Settled declared := by
  cases declared
  all_goals exact variants_settled rfl

theorem required_text : (required text).Settles :=
  required_settles fun _ value _ => text_settled value

theorem optional_text : (Serde.optional text).Settles :=
  optional_settles (fun _ value _ => text_settled value) fun _ => Yaml.noConfusion

theorem optional_i64 : (Serde.optional i64).Settles :=
  optional_settles i64_settles fun _ => Yaml.noConfusion

theorem listed_settles {α : Type} {format : Format α} (settles : format.Settles) :
    (listed format).Settles :=
  defaulted_settles (fun _ => List.isEmpty_iff) (sequence_settles settles)

theorem runtimePermissionAction_settles : runtimePermissionAction.Settles := by
  intro tree action found
  obtain ⟨field, -, read⟩ := Option.bind_eq_some_iff.mp found
  simp only [Option.bind_eq_bind, Option.bind_eq_some_iff, Option.some.injEq] at read
  obtain ⟨permission, named, least, low, most, high, rfl⟩ := read
  have named := required_text _ _ named
  have low := optional_i64 _ _ low
  have high := optional_i64 _ _ high
  refine struct_settled (by simp) (by simp) ?_ ?_
  · exact read_settled named (read_settled low (read_settled high rfl))
  · simp only [List.forall_mem_cons]
    exact ⟨named.unique, low.unique, high.unique, by simp⟩

theorem appOpAction_settles : appOpAction.Settles := by
  intro tree action found
  obtain ⟨field, -, read⟩ := Option.bind_eq_some_iff.mp found
  simp only [Option.bind_eq_bind, Option.bind_eq_some_iff, Option.some.injEq] at read
  obtain ⟨op, named, _, -, least, low, most, high, rfl⟩ := read
  have named := required_text _ _ named
  have mode := required_settled (appOpMode_settled .allow)
  have low := optional_i64 _ _ low
  have high := optional_i64 _ _ high
  refine struct_settled (by simp) (by simp) ?_ ?_
  · exact read_settled named (read_settled mode (read_settled low (read_settled high rfl)))
  · simp only [List.forall_mem_cons]
    exact ⟨named.unique, mode.unique, low.unique, high.unique, by simp⟩

theorem permissionSet_settles : permissionSet.Settles := by
  intro tree set found
  obtain ⟨field, -, read⟩ := Option.bind_eq_some_iff.mp found
  simp only [Option.bind_eq_bind, Option.bind_eq_some_iff, Option.some.injEq] at read
  obtain ⟨runtime, first, appOps, second, rfl⟩ := read
  have first := listed_settles runtimePermissionAction_settles _ _ first
  have second := listed_settles appOpAction_settles _ _ second
  refine struct_settled (by simp) (by simp) ?_ ?_
  · exact read_settled first (read_settled second rfl)
  · simp only [List.forall_mem_cons]
    exact ⟨first.unique, second.unique, by simp⟩

theorem permissionSets_settles : permissionSets.Settles := by
  intro tree sets found
  obtain ⟨field, -, read⟩ := Option.bind_eq_some_iff.mp found
  simp only [Option.bind_eq_bind, Option.bind_eq_some_iff, Option.some.injEq] at read
  obtain ⟨baseline, first, elevated, second, rfl⟩ := read
  have set : (Serde.optional permissionSet).Settles :=
    optional_settles permissionSet_settles fun _ => Yaml.noConfusion
  have first := set _ _ first
  have second := set _ _ second
  refine struct_settled (by simp) (by simp) ?_ ?_
  · exact read_settled first (read_settled second rfl)
  · simp only [List.forall_mem_cons]
    exact ⟨first.unique, second.unique, by simp⟩

theorem target_settled (held : AppTarget) : target.Settled held := by
  have kind := required_settled (targetKind_settled held.kind)
  have location := required_settled (targetLocation_settled held.location)
  have path := required_settled (text_settled held.path)
  refine struct_settled (by simp) (by simp) ?_ ?_
  · exact read_settled kind (read_settled location (read_settled path rfl))
  · simp only [List.forall_mem_cons]
    exact ⟨kind.unique, location.unique, path.unique, by simp⟩

theorem template_settled (path : String) : template.Settled path := by
  have written := required_settled (text_settled path)
  refine struct_settled (by simp) (by simp) ?_ ?_
  · exact read_settled written rfl
  · simp only [List.forall_mem_cons]
    exact ⟨written.unique, by simp⟩

structure NoNullLiteral (property : AppManagedProperty) : Prop where
  default : ∀ value ∈ property.default, value.isNull = false
  minimum : ∀ value ∈ property.validators.minimum, value.isNull = false
  maximum : ∀ value ∈ property.validators.maximum, value.isNull = false

theorem validators_settled {tree : Yaml} {held : AppManagedPropertyValidators}
    (found : validators.read tree = some held)
    (minimum : ∀ value ∈ held.minimum, value.isNull = false)
    (maximum : ∀ value ∈ held.maximum, value.isNull = false) : validators.Settled held := by
  obtain ⟨field, -, read⟩ := Option.bind_eq_some_iff.mp found
  simp only [Option.bind_eq_bind, Option.bind_eq_some_iff, Option.some.injEq] at read
  obtain ⟨allowed, values, least, low, most, high, shortest, short, longest, long, rfl⟩ := read
  have values := listed_settles json_settles _ _ values
  have low := nonNullOption_settled json_settles low fun value member =>
    writeJson_ne_null (minimum value member)
  have high := nonNullOption_settled json_settles high fun value member =>
    writeJson_ne_null (maximum value member)
  have short := nonNullOption_settled usize_settles short fun _ _ => Yaml.noConfusion
  have long := nonNullOption_settled usize_settles long fun _ _ => Yaml.noConfusion
  refine struct_settled (by simp) (by simp) ?_ ?_
  · exact read_settled values (read_settled low (read_settled high (read_settled short
      (read_settled long rfl))))
  · simp only [List.forall_mem_cons]
    exact ⟨values.unique, low.unique, high.unique, short.unique, long.unique, by simp⟩

theorem validatorsAreEmpty_iff {held : AppManagedPropertyValidators} :
    validatorsAreEmpty held = true ↔ held = noValidators := by
  obtain ⟨allowed, minimum, maximum, shortest, longest⟩ := held
  simp [validatorsAreEmpty, noValidators, and_assoc]

theorem managedProperty_settled {tree : Yaml} {held : AppManagedProperty}
    (found : managedProperty.read tree = some held) (present : NoNullLiteral held) :
    managedProperty.Settled held := by
  obtain ⟨field, -, read⟩ := Option.bind_eq_some_iff.mp found
  simp only [Option.bind_eq_bind, Option.bind_eq_some_iff, Option.some.injEq] at read
  obtain ⟨path, segments, typeName, -, clearable, cleared, default, literal, rules, bounds, rfl⟩ :=
    read
  have segments := required_settles
    (sequence_settles fun _ value _ => text_settled value) _ _ segments
  have type := required_settled (configValueType_settled typeName)
  have cleared : clearableField.Settled clearable :=
    defaulted_settled (by simp) fun _ => boolean_settled clearable
  have literal := nonNullOption_settled json_settles literal fun value member =>
    writeJson_ne_null (present.default value member)
  have bounds : validatorsField.Settled rules := by
    refine defaulted_settled validatorsAreEmpty_iff.mp fun left => ?_
    generalize field "validators" = slot at bounds
    cases slot with
    | none =>
        cases bounds
        cases left
    | some part => exact validators_settled bounds present.minimum present.maximum
  refine struct_settled (by simp) (by simp) ?_ ?_
  · exact read_settled segments (read_settled type (read_settled cleared (read_settled literal
      (read_settled bounds rfl))))
  · simp only [List.forall_mem_cons]
    exact ⟨segments.unique, type.unique, cleared.unique, literal.unique, bounds.unique, by simp⟩

section

variable {α : Type} {format : Format α} {slot : Option Yaml} {map : OrderedMap String α}

theorem entriesField_settled {whole : Format (OrderedMap String α)} (settled : whole.Settled map) :
    (entriesField whole).Settled map := by
  refine defaulted_settled (fun empty => ?_) fun _ => settled
  exact OrderedMap.ext_entries (List.isEmpty_iff.mp empty)

theorem registryField_settled (found : (entriesField (registry format)).read slot = some map)
    (settled : ∀ entry ∈ map.entries, ∀ part, format.read part = some entry.2 →
      format.Settled entry.2) : (entriesField (registry format)).Settled map := by
  refine entriesField_settled (registry_settled fun entry member => ?_)
  cases slot with
  | none =>
      cases found
      exact absurd member List.not_mem_nil
  | some tree =>
      obtain ⟨part, read⟩ := exists_of_mem_registry found member
      exact settled entry member part read

theorem indexMapField_settles (settles : format.Settles) :
    (entriesField (indexMap format)).Settles := by
  intro slot map found
  refine entriesField_settled (indexMap_settled fun entry member => ?_)
  cases slot with
  | none =>
      cases found
      exact absurd member List.not_mem_nil
  | some tree =>
      obtain ⟨part, read⟩ := exists_of_mem_indexMap found member
      exact settles part entry.2 read

end

section

variable {tree : Yaml}

theorem configuration_settled {held : AppConfiguration}
    (found : configuration.read tree = some held)
    (present : ∀ entry ∈ held.managedProperties.entries, NoNullLiteral entry.2) :
    configuration.Settled held := by
  obtain ⟨field, -, read⟩ := Option.bind_eq_some_iff.mp found
  simp only [Option.bind_eq_bind, Option.bind_eq_some_iff, Option.some.injEq] at read
  obtain ⟨format, -, target, named, templates, paths, managedProperties, properties, rfl⟩ := read
  have kind := required_settled (configurationFormat_settled format)
  have named := required_text _ _ named
  have paths := registryField_settled paths fun entry _ _ _ => template_settled entry.2
  have properties := registryField_settled properties fun entry member _ read =>
    managedProperty_settled read (present entry member)
  refine struct_settled (by simp) (by simp) ?_ ?_
  · exact read_settled kind (read_settled named (read_settled paths (read_settled properties
      rfl)))
  · simp only [List.forall_mem_cons]
    exact ⟨kind.unique, named.unique, paths.unique, properties.unique, by simp⟩

def FlagBesidePattern : AppArtifactSource → Prop
  | .latestRelease _ _ _ none invertAssetPattern _ => invertAssetPattern = none
  | _ => True

theorem source_read {source : AppArtifactSource}
    (found : artifactSource.read tree = some source) :
    ∃ field raw, readStruct rawFields tree = some field ∧ readRawSource field = some raw ∧
      raw.source = some source := by
  obtain ⟨field, fields, read⟩ := Option.bind_eq_some_iff.mp found
  obtain ⟨raw, parts, built⟩ := Option.bind_eq_some_iff.mp read
  exact ⟨field, raw, fields, parts, built⟩

theorem flag_of_source {raw : RawSource} {provider : ReleaseProvider}
    {baseUrl repository pattern : String} {invertAssetPattern : Option Bool} {prerelease : Bool}
    (built : raw.source = some (.latestRelease provider baseUrl repository (some pattern)
      invertAssetPattern prerelease)) : invertAssetPattern ≠ some false := by
  unfold RawSource.source at built
  split at built
  next =>
    obtain ⟨_, -, same⟩ := Option.bind_eq_some_iff.mp built
    cases same
  next =>
    simp only [Option.bind_eq_bind, Option.bind_eq_some_iff, Option.some.injEq] at built
    obtain ⟨_, -, _, -, same⟩ := built
    cases same
  next =>
    simp only [Option.bind_eq_bind, Option.bind_eq_some_iff, Option.some.injEq] at built
    obtain ⟨_, -, _, -, _, -, _, -, _, -, same⟩ := built
    injection same with _ _ _ named flag _
    rw [← flag, named]
    split
    next => simp
    next other => exact fun authored => other ⟨authored, rfl⟩

theorem supplied_some {α : Type} {format : Format α} {value : α} (settled : format.Settled value)
    (written : format.write value ≠ .null) :
    deserializeSupplied format (some (format.write value)) = some (some (some value)) := by
  have again := settled.again
  generalize format.write value = tree at again written
  cases tree with
  | null => exact absurd rfl written
  | _ => exact congrArg (Option.map fun held => some (some held)) again

@[simp] theorem supplied_text (value : String) :
    deserializeSupplied text ((required text).write value) = some (some (some value)) := rfl

@[simp] theorem supplied_boolean (value : Bool) :
    deserializeSupplied boolean ((required boolean).write value) = some (some (some value)) := rfl

@[simp] theorem supplied_provider (provider : ReleaseProvider) :
    deserializeSupplied releaseProvider ((required releaseProvider).write provider) =
      some (some (some provider)) :=
  supplied_some (releaseProvider_settled provider) Yaml.noConfusion

@[simp] theorem supplied_optional_text (value : Option String) :
    deserializeSupplied text ((Serde.optional text).write value) = some (value.map some) := by
  cases value with
  | none => rfl
  | some value => rfl

@[simp] theorem supplied_optional_boolean (value : Bool) :
    deserializeSupplied boolean ((Serde.optional boolean).write (some value)) =
      some (some (some value)) := rfl

@[simp] theorem supplied_absent {α : Type} {format : Format α} :
    deserializeSupplied format none = some none := rfl

@[simp] theorem strategy_read (declared : Strategy) :
    (required strategy).read ((required strategy).write declared) = some declared :=
  (required_settled (strategy_settled declared)).again

theorem sourceSlots_unique (source : AppArtifactSource) :
    ∀ slot ∈ sourceSlots source, ∀ tree ∈ slot.2, uniqueKeys tree = true := by
  cases source with
  | userProvided =>
      simp only [sourceSlots, List.forall_mem_cons]
      exact ⟨unique_some rfl, by simp⟩
  | directUrl url sha256 =>
      simp only [sourceSlots, List.forall_mem_cons]
      refine ⟨unique_some rfl, unique_some rfl, ?_, by simp⟩
      cases sha256 with
      | none => exact optional_none.unique
      | some sha256 => exact unique_some rfl
  | latestRelease provider baseUrl repository assetPattern invertAssetPattern prerelease =>
      simp only [sourceSlots, List.forall_mem_cons]
      refine ⟨unique_some rfl, unique_some rfl, unique_some rfl, unique_some rfl, ?_, ?_,
        unique_some rfl, by simp⟩
      · cases assetPattern with
        | none => exact optional_none.unique
        | some pattern => exact unique_some rfl
      · split
        next => simp
        next =>
          cases invertAssetPattern with
          | none => exact optional_none.unique
          | some flag => exact unique_some rfl

attribute [local simp] sourceSlots readRawSource slotOf RawSource.source reject
  invertAssetPatternIsOmitted

theorem artifactSource_settled {source : AppArtifactSource}
    (found : artifactSource.read tree = some source) (beside : FlagBesidePattern source) :
    artifactSource.Settled source := by
  obtain ⟨field, raw, -, -, built⟩ := source_read found
  cases source with
  | userProvided =>
      refine struct_settled (by simp) (by simp [rawFields]) ?_
        (sourceSlots_unique _)
      simp
  | directUrl url sha256 =>
      refine struct_settled (by simp) (by simp [rawFields]) ?_
        (sourceSlots_unique _)
      cases sha256
      all_goals simp
  | latestRelease provider baseUrl repository assetPattern invertAssetPattern prerelease =>
      refine struct_settled (by simp) (by simp [rawFields]) ?_
        (sourceSlots_unique _)
      cases assetPattern with
      | none =>
          cases beside
          simp
      | some pattern =>
          have kept := flag_of_source built
          rcases invertAssetPattern with _ | (_ | _)
          · simp
          · exact absurd rfl kept
          · simp

theorem artifact_settled {held : AppArtifactV1} (found : artifact.read tree = some held)
    (beside : FlagBesidePattern held.source) :
    artifact.Settled held := by
  obtain ⟨field, -, read⟩ := Option.bind_eq_some_iff.mp found
  simp only [Option.bind_eq_bind, Option.bind_eq_some_iff, Option.some.injEq] at read
  obtain ⟨kind, -, name, named, description, described, source, origin, rfl⟩ := read
  have kind := required_settled (artifactKind_settled kind)
  have named := optional_text _ _ named
  have described := optional_text _ _ described
  obtain ⟨part, -, origin⟩ := Option.bind_eq_some_iff.mp origin
  have origin := required_settled (artifactSource_settled origin beside)
  refine struct_settled (by simp) (by simp) ?_ ?_
  · exact read_settled kind (read_settled named (read_settled described (read_settled origin
      rfl)))
  · simp only [List.forall_mem_cons]
    exact ⟨kind.unique, named.unique, described.unique, origin.unique, by simp⟩

structure Sayable (definition : AppDefinitionV1) : Prop where
  flags : ∀ entry ∈ definition.artifacts.entries, FlagBesidePattern entry.2.source
  literals : ∀ entry ∈ definition.configurations.entries,
    ∀ property ∈ entry.2.managedProperties.entries, NoNullLiteral property.2

theorem appDefinition_settled {definition : AppDefinitionV1}
    (found : appDefinition.read tree = some definition) (sayable : Sayable definition) :
    appDefinition.Settled definition := by
  obtain ⟨field, -, read⟩ := Option.bind_eq_some_iff.mp found
  obtain ⟨schemaVersion, version, read⟩ := Option.bind_eq_some_iff.mp read
  obtain ⟨kind, kinded, read⟩ := Option.bind_eq_some_iff.mp read
  obtain ⟨id, ided, read⟩ := Option.bind_eq_some_iff.mp read
  obtain ⟨name, named, read⟩ := Option.bind_eq_some_iff.mp read
  obtain ⟨description, described, read⟩ := Option.bind_eq_some_iff.mp read
  obtain ⟨category, classed, read⟩ := Option.bind_eq_some_iff.mp read
  obtain ⟨packageId, packaged, read⟩ := Option.bind_eq_some_iff.mp read
  obtain ⟨artifacts, artifact, read⟩ := Option.bind_eq_some_iff.mp read
  obtain ⟨permissionSets, permitted, read⟩ := Option.bind_eq_some_iff.mp read
  obtain ⟨targets, targeted, read⟩ := Option.bind_eq_some_iff.mp read
  obtain ⟨configurations, configured, read⟩ := Option.bind_eq_some_iff.mp read
  obtain ⟨launcherActivity, launched, read⟩ := Option.bind_eq_some_iff.mp read
  obtain ⟨metadata, noted, read⟩ := Option.bind_eq_some_iff.mp read
  cases read
  have version := required_settles i64_settles _ _ version
  have kinded := required_text _ _ kinded
  have ided := required_text _ _ ided
  have named := required_text _ _ named
  have described := optional_text _ _ described
  have classed := optional_text _ _ classed
  have packaged := required_text _ _ packaged
  have artifact := registryField_settled artifact fun entry member _ read =>
    artifact_settled read (sayable.flags entry member)
  have permitted := optional_settles permissionSets_settles (fun _ => Yaml.noConfusion) _ _ permitted
  have targeted := registryField_settled targeted fun entry _ _ _ => target_settled entry.2
  have configured := registryField_settled configured fun entry member _ read =>
    configuration_settled read (sayable.literals entry member)
  have launched := optional_text _ _ launched
  have noted := indexMapField_settles json_settles _ _ noted
  refine struct_settled (by simp) (by simp) ?_ ?_
  · exact read_settled version (read_settled kinded (read_settled ided (read_settled named
      (read_settled described (read_settled classed (read_settled packaged (read_settled artifact
      (read_settled permitted (read_settled targeted (read_settled configured
      (read_settled launched (read_settled noted rfl))))))))))))
  · simp only [List.forall_mem_cons]
    exact ⟨version.unique, kinded.unique, ided.unique, named.unique, described.unique,
      classed.unique, packaged.unique, artifact.unique, permitted.unique, targeted.unique,
      configured.unique, launched.unique, noted.unique, by simp⟩

section

variable {rules : ContentRules} {field : String}

@[simp] theorem diagnoses_eq_nil {fails : Bool} {code message : String} :
    diagnoses fails code message field = [] ↔ fails = false := by
  cases fails
  all_goals simp [diagnoses]

theorem flagBesidePattern_of_valid {source : AppArtifactSource}
    (valid : validateArtifactSource rules field source = []) : FlagBesidePattern source := by
  cases source with
  | latestRelease provider baseUrl repository assetPattern invertAssetPattern prerelease =>
      cases assetPattern with
      | none =>
          simp only [validateArtifactSource, validatePattern, List.append_eq_nil_iff,
            diagnoses_eq_nil] at valid
          exact Option.isNone_iff_eq_none.mp (by simpa using valid.2)
      | some pattern => trivial
  | _ => trivial

theorem default_present {property : AppManagedProperty}
    (valid : validateDefault rules field property = []) {value : Json}
    (held : property.default = some value) : value.isNull = false := by
  simp only [validateDefault, held, List.append_eq_nil_iff, diagnoses_eq_nil] at valid
  have accepted : managedPropertyValueIsValid rules property value = true := by simpa using valid.2
  simp only [managedPropertyValueIsValid, Bool.and_eq_true] at accepted
  simpa using accepted.1.1.1.1.1.1

theorem bound_present {typeName : ConfigValueType} {bound : String × Option Json}
    (valid : validateBound field typeName bound = []) {value : Json}
    (held : bound.2 = some value) :
    value.isNull = false := by
  simp only [validateBound, held, List.append_eq_nil_iff, diagnoses_eq_nil] at valid
  have numeric : managedNumericBoundMatchesType typeName value = true := by simpa using valid.2
  cases value with
  | null => cases typeName <;> cases numeric
  | _ => rfl

theorem noNullLiteral_of_valid {format : AppConfigurationFormat}
    {earlier : List (String × AppManagedProperty)} {entry : String × AppManagedProperty}
    (valid : validateProperty rules format field earlier entry = []) : NoNullLiteral entry.2 := by
  simp only [validateProperty, List.append_eq_nil_iff, List.flatMap_eq_nil_iff] at valid
  obtain ⟨⟨⟨⟨⟨⟨-, -⟩, default⟩, -⟩, bounds⟩, -⟩, -⟩ := valid
  constructor
  · exact fun value held => default_present default held
  · exact fun value held => bound_present (bounds ("minimum", _) (by simp)) held
  · exact fun value held => bound_present (bounds ("maximum", _) (by simp)) held

theorem property_of_valid {format : AppConfigurationFormat}
    {entries earlier : List (String × AppManagedProperty)}
    (valid : validateProperties rules format field earlier entries = []) :
    ∀ entry ∈ entries, NoNullLiteral entry.2 := by
  induction entries generalizing earlier with
  | nil => simp
  | cons entry rest ih =>
      obtain ⟨first, later⟩ := List.append_eq_nil_iff.mp valid
      exact List.forall_mem_cons.mpr ⟨noNullLiteral_of_valid first, ih later⟩

theorem sayable_of_valid {definition : AppDefinitionV1}
    (valid : validateAppDefinition rules definition = []) : Sayable definition := by
  simp only [validateAppDefinition, List.append_eq_nil_iff, List.flatMap_eq_nil_iff] at valid
  obtain ⟨⟨⟨⟨⟨⟨-, artifacts⟩, -⟩, -⟩, configurations⟩, -⟩, -⟩ := valid
  constructor
  · intro entry member
    have held := artifacts entry member
    simp only [validateArtifact, List.append_eq_nil_iff] at held
    exact flagBesidePattern_of_valid held.2
  · intro entry member
    have held := configurations entry member
    simp only [validateConfiguration, List.append_eq_nil_iff] at held
    exact property_of_valid held.1.2

end

theorem get?_ofTexts_find {entries : List (String × Yaml)} {name : String} :
    Yaml.get? (Yaml.ofTexts entries) name =
      (entries.find? fun field => field.1 = name).map Prod.snd := by
  rw [Yaml.get?, Yaml.ofTexts, List.find?_map, Option.map_map]
  rfl

theorem getField_writeStruct {slots : List (String × Option Yaml)}
    (distinct : (slots.map Prod.fst).Nodup) (name : String) :
    getField (writeStruct slots) name = slotOf slots name :=
  get?_ofTexts_find.trans (find?_writtenFields distinct name)

theorem all_written_entries {α : Type} {format : Format α} {map : OrderedMap String α}
    (check : Yaml → Bool) (holds : ∀ entry ∈ map.entries, check (format.write entry.2) = true) :
    (((entriesField (registry format)).write map).bind asMapping).all
      (fun entries => entries.all fun entry => check entry.2) = true := by
  cases empty : map.entries.isEmpty with
  | true => simp [entriesField, defaulted, List.isEmpty_iff.mp empty]
  | false =>
      have written : ((entriesField (registry format)).write map).bind asMapping =
          some (Yaml.ofTexts (map.entries.map fun entry => (entry.1, format.write entry.2))) := by
        simp only [entriesField, defaulted, empty]
        rfl
      rw [written]
      simpa [Yaml.ofTexts] using fun name value member => holds (name, value) member

theorem hasStringSegments_written (property : AppManagedProperty) :
    hasStringSegments (managedProperty.write property) = true := by
  have path : getField (managedProperty.write property) "path" =
      some (.sequence (property.path.map Yaml.string)) := getField_writeStruct (by simp) "path"
  simp [hasStringSegments, path, asSequence, untag, Yaml.asStr]

theorem appConfigurationPathsHaveStringSegments_written (definition : AppDefinitionV1) :
    appConfigurationPathsHaveStringSegments (appDefinition.write definition) = true := by
  have configurations : getField (appDefinition.write definition) "configurations" =
      (entriesField (registry configuration)).write definition.configurations :=
    getField_writeStruct (by simp) "configurations"
  rw [appConfigurationPathsHaveStringSegments, configurations]
  refine all_written_entries (fun held =>
    ((getField held "managed_properties").bind asMapping).all fun properties =>
      properties.all fun property => hasStringSegments property.2) fun entry _ => ?_
  have properties : getField (configuration.write entry.2) "managed_properties" =
      (entriesField (registry managedProperty)).write entry.2.managedProperties :=
    getField_writeStruct (by simp) "managed_properties"
  rw [properties]
  exact all_written_entries hasStringSegments fun property _ => hasStringSegments_written property.2

section

variable {codec : YamlCodec} {rules : ContentRules}

theorem parseAppDefinitionTree_eq_ok {tree : Yaml} {definition : AppDefinitionV1} :
    parseAppDefinitionTree tree = .ok definition ↔
      uniqueKeys tree = true ∧ appConfigurationPathsHaveStringSegments tree = true ∧
        appDefinition.read tree = some definition := by
  unfold parseAppDefinitionTree
  cases uniqueKeys tree with
  | false => simp
  | true =>
      cases appConfigurationPathsHaveStringSegments tree with
      | false => simp
      | true =>
          cases appDefinition.read tree with
          | none => simp
          | some held => simp

/-- A settled definition is parsed back from its own text. -/
theorem parse_written {definition : AppDefinitionV1}
    (settled : appDefinition.Settled definition)
    (kept : codec.fromStr (codec.toText (appDefinition.write definition)) =
      some (appDefinition.write definition)) :
    parseAppDefinitionYaml codec (codec.toText (appDefinition.write definition)) =
      .ok definition := by
  rw [parseAppDefinitionYaml, kept]
  exact parseAppDefinitionTree_eq_ok.mpr ⟨settled.unique,
    appConfigurationPathsHaveStringSegments_written definition, settled.again⟩

end

end

end EmuChef.Definition
