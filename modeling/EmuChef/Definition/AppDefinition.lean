import EmuChef.Authored.Document
import EmuChef.Lib.Serde
import EmuChef.Planner.ExecutionPlan

/-! App Definitions as their YAML trees hold them. -/

namespace EmuChef.Definition

open Authored
open Planner (AppTargetKind AppOpMode)
open Serde

structure AppArtifactV1 where
  kind : AppArtifactKind
  name : Option String
  description : Option String
  source : AppArtifactSource

structure AppDefinitionV1 where
  schemaVersion : Int
  kind : String
  id : String
  name : String
  description : Option String
  category : Option String
  packageId : String
  artifacts : OrderedMap String AppArtifactV1
  permissionSets : Option AppPermissionSets
  targets : OrderedMap String AppTarget
  configurations : OrderedMap String AppConfiguration
  launcherActivity : Option String
  metadata : OrderedMap String Json

def artifactKind : Format AppArtifactKind :=
  variants (fun
    | .apk => "apk"
    | .file => "file") [.apk, .file]

def releaseProvider : Format ReleaseProvider :=
  variants (fun
    | .github => "github"
    | .gitlab => "gitlab"
    | .forgejo => "forgejo") [.github, .gitlab, .forgejo]

def appOpMode : Format AppOpMode := variants (fun | .allow => "allow") [.allow]

def targetKind : Format AppTargetKind :=
  variants (fun
    | .file => "file"
    | .directory => "directory") [.file, .directory]

def targetLocation : Format AppTargetLocation :=
  variants (fun
    | .appData => "app_data"
    | .externalAppData => "external_app_data"
    | .sharedStorage => "shared_storage"
    | .absoluteDevicePath => "absolute_device_path")
    [.appData, .externalAppData, .sharedStorage, .absoluteDevicePath]

def configurationFormat : Format AppConfigurationFormat :=
  variants (fun
    | .keyValueV1 => "key_value/v1"
    | .jsonV1 => "json/v1") [.keyValueV1, .jsonV1]

def configValueType : Format ConfigValueType :=
  variants (fun
    | .string => "string"
    | .integer => "integer"
    | .number => "number"
    | .boolean => "boolean") [.string, .integer, .number, .boolean]

inductive Strategy where
  | userProvided
  | directUrl
  | latestRelease
  deriving DecidableEq

def strategyName : Strategy → String
  | .userProvided => "user_provided"
  | .directUrl => "direct_url"
  | .latestRelease => "latest_release"

def strategy : Format Strategy := variants strategyName [.userProvided, .directUrl, .latestRelease]

/-- The flat union of the fields of every strategy; an outer option tells whether the document
supplies the field, with whatever value. -/
structure RawSource where
  strategy : Strategy
  url : Option (Option String)
  sha256 : Option (Option String)
  provider : Option (Option ReleaseProvider)
  baseUrl : Option (Option String)
  repository : Option (Option String)
  assetPattern : Option (Option String)
  invertAssetPattern : Option (Option Bool)
  prerelease : Option (Option Bool)

def rawFields : List String :=
  ["strategy", "url", "sha256", "provider", "base_url", "repository", "asset_pattern",
    "invert_asset_pattern", "prerelease"]

def deserializeSupplied {α : Type} (format : Format α) : Option Yaml → Option (Option (Option α))
  | none => some none
  | some .null => some (some none)
  | some value => (format.read value).map fun held => some (some held)

def readRawSource (field : String → Option Yaml) : Option RawSource := do
  let declared ← (required strategy).read (field "strategy")
  let url ← deserializeSupplied Serde.text (field "url")
  let sha256 ← deserializeSupplied Serde.text (field "sha256")
  let provider ← deserializeSupplied releaseProvider (field "provider")
  let baseUrl ← deserializeSupplied Serde.text (field "base_url")
  let repository ← deserializeSupplied Serde.text (field "repository")
  let assetPattern ← deserializeSupplied Serde.text (field "asset_pattern")
  let invertAssetPattern ← deserializeSupplied Serde.boolean (field "invert_asset_pattern")
  let prerelease ← deserializeSupplied Serde.boolean (field "prerelease")
  some ⟨declared, url, sha256, provider, baseUrl, repository, assetPattern, invertAssetPattern,
    prerelease⟩

def reject (present : List Bool) : Option Unit := if true ∈ present then none else some ()

def RawSource.source (raw : RawSource) : Option AppArtifactSource :=
  match raw.strategy with
  | .userProvided => do
      reject [raw.url.isSome, raw.sha256.isSome, raw.provider.isSome, raw.baseUrl.isSome,
        raw.repository.isSome, raw.assetPattern.isSome, raw.invertAssetPattern.isSome,
        raw.prerelease.isSome]
      some .userProvided
  | .directUrl => do
      reject [raw.provider.isSome, raw.baseUrl.isSome, raw.repository.isSome,
        raw.assetPattern.isSome, raw.invertAssetPattern.isSome, raw.prerelease.isSome]
      let url ← raw.url.join
      some (.directUrl url raw.sha256.join)
  | .latestRelease => do
      reject [raw.url.isSome, raw.sha256.isSome]
      let assetPattern := raw.assetPattern.join
      -- beside a pattern, `false` is what an absent flag means
      let invertAssetPattern :=
        if raw.invertAssetPattern.join = some false ∧ assetPattern.isSome then none
        else raw.invertAssetPattern.join
      let provider ← raw.provider.join
      let baseUrl ← raw.baseUrl.join
      let repository ← raw.repository.join
      let prerelease ← raw.prerelease.join
      some (.latestRelease provider baseUrl repository assetPattern invertAssetPattern prerelease)

def invertAssetPatternIsOmitted (value : Option Bool) : Bool := value != some true

def sourceSlots : AppArtifactSource → List (String × Option Yaml)
  | .userProvided => [("strategy", (required strategy).write .userProvided)]
  | .directUrl url sha256 =>
      [("strategy", (required strategy).write .directUrl),
        ("url", (required Serde.text).write url),
        ("sha256", (optional Serde.text).write sha256)]
  | .latestRelease provider baseUrl repository assetPattern invertAssetPattern prerelease =>
      [("strategy", (required strategy).write .latestRelease),
        ("provider", (required releaseProvider).write provider),
        ("base_url", (required Serde.text).write baseUrl),
        ("repository", (required Serde.text).write repository),
        ("asset_pattern", (optional Serde.text).write assetPattern),
        ("invert_asset_pattern",
          if invertAssetPatternIsOmitted invertAssetPattern then none
          else (optional Serde.boolean).write invertAssetPattern),
        ("prerelease", (required Serde.boolean).write prerelease)]

def artifactSource : Format AppArtifactSource :=
  struct rawFields (fun field => (readRawSource field).bind RawSource.source) sourceSlots

def artifact : Format AppArtifactV1 :=
  struct ["kind", "name", "description", "source"]
    (fun field => do
      let kind ← (required artifactKind).read (field "kind")
      let name ← (optional Serde.text).read (field "name")
      let description ← (optional Serde.text).read (field "description")
      let source ← (required artifactSource).read (field "source")
      some ⟨kind, name, description, source⟩)
    (fun artifact => [("kind", (required artifactKind).write artifact.kind),
      ("name", (optional Serde.text).write artifact.name),
      ("description", (optional Serde.text).write artifact.description),
      ("source", (required artifactSource).write artifact.source)])

def runtimePermissionAction : Format AppRuntimePermissionAction :=
  struct ["permission", "android_api_min", "android_api_max"]
    (fun field => do
      let permission ← (required Serde.text).read (field "permission")
      let androidApiMin ← (optional Serde.i64).read (field "android_api_min")
      let androidApiMax ← (optional Serde.i64).read (field "android_api_max")
      some ⟨permission, androidApiMin, androidApiMax⟩)
    (fun action => [("permission", (required Serde.text).write action.permission),
      ("android_api_min", (optional Serde.i64).write action.androidApiMin),
      ("android_api_max", (optional Serde.i64).write action.androidApiMax)])

def appOpAction : Format AppOpAction :=
  struct ["op", "mode", "android_api_min", "android_api_max"]
    (fun field => do
      let op ← (required Serde.text).read (field "op")
      let _ ← (required appOpMode).read (field "mode")
      let androidApiMin ← (optional Serde.i64).read (field "android_api_min")
      let androidApiMax ← (optional Serde.i64).read (field "android_api_max")
      some ⟨op, androidApiMin, androidApiMax⟩)
    (fun action => [("op", (required Serde.text).write action.op),
      ("mode", (required appOpMode).write .allow),
      ("android_api_min", (optional Serde.i64).write action.androidApiMin),
      ("android_api_max", (optional Serde.i64).write action.androidApiMax)])

def listed {α : Type} (format : Format α) : StructField (List α) :=
  defaulted (Serde.sequence format) [] List.isEmpty

def permissionSet : Format AppPermissionSet :=
  struct ["runtime", "app_ops"]
    (fun field => do
      let runtime ← (listed runtimePermissionAction).read (field "runtime")
      let appOps ← (listed appOpAction).read (field "app_ops")
      some ⟨runtime, appOps⟩)
    (fun set => [("runtime", (listed runtimePermissionAction).write set.runtime),
      ("app_ops", (listed appOpAction).write set.appOps)])

def permissionSets : Format AppPermissionSets :=
  struct ["baseline", "elevated"]
    (fun field => do
      let baseline ← (optional permissionSet).read (field "baseline")
      let elevated ← (optional permissionSet).read (field "elevated")
      some ⟨baseline, elevated⟩)
    (fun sets => [("baseline", (optional permissionSet).write sets.baseline),
      ("elevated", (optional permissionSet).write sets.elevated)])

def target : Format AppTarget :=
  struct ["kind", "location", "path"]
    (fun field => do
      let kind ← (required targetKind).read (field "kind")
      let location ← (required targetLocation).read (field "location")
      let path ← (required Serde.text).read (field "path")
      some ⟨kind, location, path⟩)
    (fun target => [("kind", (required targetKind).write target.kind),
      ("location", (required targetLocation).write target.location),
      ("path", (required Serde.text).write target.path)])

def template : Format String :=
  struct ["path"] (fun field => (required Serde.text).read (field "path"))
    (fun path => [("path", (required Serde.text).write path)])

def noValidators : AppManagedPropertyValidators := ⟨[], none, none, none, none⟩

def validatorsAreEmpty (validators : AppManagedPropertyValidators) : Bool :=
  validators.allowedValues.isEmpty && validators.minimum.isNone && validators.maximum.isNone &&
    validators.minLength.isNone && validators.maxLength.isNone

def validators : Format AppManagedPropertyValidators :=
  struct ["allowed_values", "minimum", "maximum", "min_length", "max_length"]
    (fun field => do
      let allowedValues ← (listed Serde.json).read (field "allowed_values")
      let minimum ← (nonNullOption Serde.json).read (field "minimum")
      let maximum ← (nonNullOption Serde.json).read (field "maximum")
      let minLength ← (nonNullOption Serde.usize).read (field "min_length")
      let maxLength ← (nonNullOption Serde.usize).read (field "max_length")
      some ⟨allowedValues, minimum, maximum, minLength, maxLength⟩)
    (fun validators => [("allowed_values", (listed Serde.json).write validators.allowedValues),
      ("minimum", (nonNullOption Serde.json).write validators.minimum),
      ("maximum", (nonNullOption Serde.json).write validators.maximum),
      ("min_length", (nonNullOption Serde.usize).write validators.minLength),
      ("max_length", (nonNullOption Serde.usize).write validators.maxLength)])

def clearableField : StructField Bool := defaulted Serde.boolean false fun value => !value

def validatorsField : StructField AppManagedPropertyValidators :=
  defaulted validators noValidators validatorsAreEmpty

def managedProperty : Format AppManagedProperty :=
  struct ["path", "type", "clearable", "default", "validators"]
    (fun field => do
      let path ← (required (Serde.sequence Serde.text)).read (field "path")
      let typeName ← (required configValueType).read (field "type")
      let clearable ← clearableField.read (field "clearable")
      let default ← (nonNullOption Serde.json).read (field "default")
      let validators ← validatorsField.read (field "validators")
      some ⟨path, typeName, clearable, default, validators⟩)
    (fun property => [("path", (required (Serde.sequence Serde.text)).write property.path),
      ("type", (required configValueType).write property.typeName),
      ("clearable", clearableField.write property.clearable),
      ("default", (nonNullOption Serde.json).write property.default),
      ("validators", validatorsField.write property.validators)])

def entriesField {α : Type} (format : Format (OrderedMap String α)) : StructField (OrderedMap String α) :=
  defaulted format OrderedMap.empty fun map => map.entries.isEmpty

def configuration : Format AppConfiguration :=
  struct ["format", "target", "templates", "managed_properties"]
    (fun field => do
      let format ← (required configurationFormat).read (field "format")
      let target ← (required Serde.text).read (field "target")
      let templates ← (entriesField (registry template)).read (field "templates")
      let managedProperties ← (entriesField (registry managedProperty)).read
        (field "managed_properties")
      some ⟨format, target, templates, managedProperties⟩)
    (fun configuration => [("format", (required configurationFormat).write configuration.format),
      ("target", (required Serde.text).write configuration.target),
      ("templates", (entriesField (registry template)).write configuration.templates),
      ("managed_properties",
        (entriesField (registry managedProperty)).write configuration.managedProperties)])

def appDefinition : Format AppDefinitionV1 :=
  struct ["schema_version", "kind", "id", "name", "description", "category", "package_id",
      "artifacts", "permission_sets", "targets", "configurations", "launcher_activity", "metadata"]
    (fun field => do
      let schemaVersion ← (required Serde.i64).read (field "schema_version")
      let kind ← (required Serde.text).read (field "kind")
      let id ← (required Serde.text).read (field "id")
      let name ← (required Serde.text).read (field "name")
      let description ← (optional Serde.text).read (field "description")
      let category ← (optional Serde.text).read (field "category")
      let packageId ← (required Serde.text).read (field "package_id")
      let artifacts ← (entriesField (registry artifact)).read (field "artifacts")
      let permissionSets ← (optional permissionSets).read (field "permission_sets")
      let targets ← (entriesField (registry target)).read (field "targets")
      let configurations ← (entriesField (registry configuration)).read (field "configurations")
      let launcherActivity ← (optional Serde.text).read (field "launcher_activity")
      let metadata ← (entriesField (indexMap Serde.json)).read (field "metadata")
      some ⟨schemaVersion, kind, id, name, description, category, packageId, artifacts,
        permissionSets, targets, configurations, launcherActivity, metadata⟩)
    (fun value => [("schema_version", (required Serde.i64).write value.schemaVersion),
      ("kind", (required Serde.text).write value.kind),
      ("id", (required Serde.text).write value.id),
      ("name", (required Serde.text).write value.name),
      ("description", (optional Serde.text).write value.description),
      ("category", (optional Serde.text).write value.category),
      ("package_id", (required Serde.text).write value.packageId),
      ("artifacts", (entriesField (registry artifact)).write value.artifacts),
      ("permission_sets", (optional permissionSets).write value.permissionSets),
      ("targets", (entriesField (registry target)).write value.targets),
      ("configurations", (entriesField (registry configuration)).write value.configurations),
      ("launcher_activity", (optional Serde.text).write value.launcherActivity),
      ("metadata", (entriesField (indexMap Serde.json)).write value.metadata)])

end EmuChef.Definition
