import EmuChef.Adb.ShellCommand
import EmuChef.Artifact.SourceUrl
import EmuChef.Authored.Identifier
import EmuChef.Definition.AppDefinition
import EmuChef.Planner.Bindings

/-! Parsing, validating and emitting an App Definition document. -/

namespace EmuChef.Definition

open Authored
open Adb (isValidConcreteLauncherActivity)
open Executor (isValidPackageId)
open Planner (trim)

structure AuthoredModelDiagnostic where
  code : String
  message : String
  field : String
  deriving DecidableEq

structure AuthoredModelError where
  code : String
  message : String
  deriving DecidableEq

/-- What validation asks of other crates, of floating-point arithmetic and of the formatter. -/
structure ContentRules where
  urls : Artifact.UrlLibrary
  isRegex : String → Bool
  compareFloats : Json → Json → Option Ordering
  debugText : String → String

def maxInlineConfigLiteralBytes : Nat := 64 * 1024

def maxInlineConfigLiteralBytesPerDocument : Nat := 2 * 1024 * 1024

def diagnoses (fails : Bool) (code message field : String) : List AuthoredModelDiagnostic :=
  if fails then [⟨code, message, field⟩] else []

def isBlank (value : String) : Bool := trim value = ""

def validateOptionalNonblank (code message field : String) (value : Option String) :
    List AuthoredModelDiagnostic :=
  diagnoses (value.any isBlank) code message field

section

def matchesType (typeName : ConfigValueType) (value : Json) : Bool :=
  match typeName, value with
  | .string, .string _ => true
  | .integer, value => value.isInteger64
  | .number, .integer _ => true
  | .number, .decimal _ => true
  | .boolean, .bool _ => true
  | _, _ => false

variable (rules : ContentRules)

def compareManagedNumericValues (typeName : ConfigValueType) (left right : Json) : Option Ordering :=
  match typeName, left, right with
  | .integer, .integer first, .integer second => some (compare first second)
  | .number, .integer first, .integer second => some (compare first second)
  | .number, left, right =>
      if matchesType .number left && matchesType .number right then rules.compareFloats left right
      else none
  | _, _, _ => none

def managedNumericBoundMatchesType (typeName : ConfigValueType) (bound : Json) : Bool :=
  match typeName with
  | .integer => matchesType .integer bound
  | .number => matchesType .number bound
  | _ => false

def managedPropertyValuesEqual (typeName : ConfigValueType) (left right : Json) : Option Bool :=
  match typeName with
  | .integer | .number => (compareManagedNumericValues rules typeName left right).map (· = .eq)
  | _ => some (left.equal right)

def managedPropertyValueIsValid (property : AppManagedProperty) (value : Json) : Bool :=
  let validators := property.validators
  !value.isNull && matchesType property.typeName value &&
    (validators.allowedValues.isEmpty || validators.allowedValues.any fun allowed =>
      managedPropertyValuesEqual rules property.typeName value allowed = some true) &&
    validators.minimum.all (fun minimum =>
      (compareManagedNumericValues rules property.typeName value minimum).any (· ≠ .lt)) &&
    validators.maximum.all (fun maximum =>
      (compareManagedNumericValues rules property.typeName value maximum).any (· ≠ .gt)) &&
    validators.minLength.all (fun minLength =>
      value.asStr.any fun text => minLength ≤ text.length) &&
    validators.maxLength.all (fun maxLength =>
      value.asStr.any fun text => text.length ≤ maxLength)

def inlineConfigLiteralSize (value : Json) : Nat :=
  match value with
  | .string text => text.utf8ByteSize
  | value => value.render.utf8ByteSize

def recordConfigLiteral (literal : String × Json) : List AuthoredModelDiagnostic :=
  diagnoses (maxInlineConfigLiteralBytes < inlineConfigLiteralSize literal.2)
    "app_config_literal_too_large"
    "Each inline configuration literal must be no larger than 64 KiB." literal.1

end

section

variable (rules : ContentRules)

def configurationPropertyPathTokens (format : AppConfigurationFormat) (path : List String) :
    Option (List String) :=
  if path.isEmpty || path.any fun segment => segment = "" || segment.toList.any isControl then none
  else
    match format, path with
    | .keyValueV1, [key] =>
        if trim key ≠ key || key.toList.any (· ∈ ['=', '/', '\\']) then none else some path
    | .keyValueV1, _ => none
    | .jsonV1, path => some path

def pathTokensOverlap (left right : List String) : Bool :=
  let common := min left.length right.length
  left.take common = right.take common

def isValidAppConfigurationTemplatePath (appId path : String) : Bool :=
  let components := path.toList.splitOn '/'
  !path.toList.any (fun letter => letter = '\\' || letter = ':' || isControl letter) &&
    2 ≤ components.length && components.head? = some appId.toList &&
    components.all fun part => part ≠ [] && part ≠ ['.'] && part ≠ ['.', '.']

def validateTemplate (appId field : String) (template : String × String) :
    List AuthoredModelDiagnostic :=
  diagnoses
    (!isValidIdentifier template.1 || !isValidAppConfigurationTemplatePath appId template.2)
    "app_configuration_template_path_invalid"
    "Template paths must be relative slash-separated files under the owning app ID directory in authored/apps."
    (field ++ ".templates[" ++ template.1 ++ "].path")

def validatePropertyPath (format : AppConfigurationFormat) (field : String)
    (earlier : List (String × AppManagedProperty)) (path : List String) :
    List AuthoredModelDiagnostic :=
  match configurationPropertyPathTokens format path with
  | none => [⟨"app_config_property_path_invalid",
      "Managed property path is invalid for the declared configuration format.", field ++ ".path"⟩]
  | some tokens => earlier.flatMap fun previous =>
      diagnoses ((configurationPropertyPathTokens format previous.2.path).any
          fun held => pathTokensOverlap held tokens)
        "app_config_property_path_overlap"
        ("Managed property path overlaps property " ++ rules.debugText previous.1 ++ ".")
        (field ++ ".path")

def validateDefault (field : String) (property : AppManagedProperty) : List AuthoredModelDiagnostic :=
  match property.default with
  | none => []
  | some default =>
      recordConfigLiteral (field ++ ".default", default) ++
        diagnoses (!managedPropertyValueIsValid rules property default) "app_config_default_invalid"
          "Managed property default must match its declared type and validators."
          (field ++ ".default")

def allowedField (field : String) (index : Nat) : String :=
  field ++ ".validators.allowed_values[" ++ toString index ++ "]"

def validateAllowed (field : String) (property : AppManagedProperty) (allowed : Json × Nat) :
    List AuthoredModelDiagnostic :=
  let repeats := (property.validators.allowedValues.take allowed.2).any fun previous =>
    (managedPropertyValuesEqual rules property.typeName previous allowed.1).getD true
  recordConfigLiteral (allowedField field allowed.2, allowed.1) ++
    diagnoses (!matchesType property.typeName allowed.1 || repeats ||
        !managedPropertyValueIsValid rules property allowed.1)
      "app_config_validator_invalid"
      "Each allowed value must be unique, non-null, match the managed property type, and satisfy its minimum, maximum, min_length, and max_length constraints."
      (allowedField field allowed.2)

def validateBound (field : String) (typeName : ConfigValueType) (bound : String × Option Json) :
    List AuthoredModelDiagnostic :=
  match bound.2 with
  | none => []
  | some value =>
      recordConfigLiteral (field ++ ".validators." ++ bound.1, value) ++
        diagnoses (!managedNumericBoundMatchesType typeName value) "app_config_validator_invalid"
          "Numeric bounds require a numeric managed property and numeric values."
          (field ++ ".validators." ++ bound.1)

def validateBounds (field : String) (property : AppManagedProperty) : List AuthoredModelDiagnostic :=
  match property.validators.minimum, property.validators.maximum with
  | some minimum, some maximum =>
      diagnoses (managedNumericBoundMatchesType property.typeName minimum &&
          managedNumericBoundMatchesType property.typeName maximum &&
          (compareManagedNumericValues rules property.typeName minimum maximum).all (· = .gt))
        "app_config_validator_invalid" "Minimum must not exceed maximum." (field ++ ".validators")
  | _, _ => []

def validateLengths (field : String) (property : AppManagedProperty) :
    List AuthoredModelDiagnostic :=
  let bounds := property.validators
  if bounds.minLength.isNone && bounds.maxLength.isNone then []
  else
    diagnoses (property.typeName ≠ .string) "app_config_validator_invalid"
        "min_length and max_length are supported only for string properties."
        (field ++ ".validators") ++
      diagnoses (bounds.minLength.any fun minimum => bounds.maxLength.any (· < minimum))
        "app_config_validator_invalid" "min_length must not exceed max_length."
        (field ++ ".validators")

def validateProperty (format : AppConfigurationFormat) (field : String)
    (earlier : List (String × AppManagedProperty)) (entry : String × AppManagedProperty) :
    List AuthoredModelDiagnostic :=
  let propertyField := field ++ ".managed_properties[" ++ entry.1 ++ "]"
  let property := entry.2
  diagnoses (!isValidIdentifier entry.1) "app_config_property_id_invalid"
      "Managed property IDs must contain lowercase alphanumeric segments separated by '.', '_', or '-'."
      propertyField ++
    validatePropertyPath rules format propertyField earlier property.path ++
    validateDefault rules propertyField property ++
    property.validators.allowedValues.zipIdx.flatMap
      (validateAllowed rules propertyField property) ++
    [("minimum", property.validators.minimum), ("maximum", property.validators.maximum)].flatMap
      (validateBound propertyField property.typeName) ++
    validateBounds rules propertyField property ++
    validateLengths propertyField property

def literals (property : AppManagedProperty) : List Json :=
  property.default.toList ++ property.validators.allowedValues ++
    property.validators.minimum.toList ++ property.validators.maximum.toList

def totalLiteralBytes (configuration : AppConfiguration) : Nat :=
  ((configuration.managedProperties.values.flatMap literals).map inlineConfigLiteralSize).foldl
    (fun total size => min (total + size) (2 ^ 64 - 1)) 0

def validateProperties (format : AppConfigurationFormat) (field : String) :
    List (String × AppManagedProperty) → List (String × AppManagedProperty) →
      List AuthoredModelDiagnostic
  | _, [] => []
  | earlier, entry :: rest =>
      validateProperty rules format field earlier entry ++
        validateProperties format field (earlier ++ [entry]) rest

def validateConfiguration (appId : String) (targets : OrderedMap String AppTarget)
    (entry : String × AppConfiguration) : List AuthoredModelDiagnostic :=
  let field := "configurations[" ++ entry.1 ++ "]"
  let configuration := entry.2
  diagnoses (!isValidIdentifier entry.1) "app_configuration_id_invalid"
      "Configuration IDs must contain lowercase alphanumeric segments separated by '.', '_', or '-'."
      field ++
    diagnoses (!(targets.get? configuration.target).any fun held => held.kind = .file)
      "app_configuration_target_invalid"
      "A configuration document must reference a declared file App Target." (field ++ ".target") ++
    configuration.templates.entries.flatMap (validateTemplate appId field) ++
    validateProperties rules configuration.format field [] configuration.managedProperties.entries ++
    diagnoses (maxInlineConfigLiteralBytesPerDocument < totalLiteralBytes configuration)
      "app_config_literal_budget_exceeded"
      "Inline configuration literals in one configuration document must total no more than 2 MiB."
      field

end

section

variable (rules : ContentRules)

def isLowercaseSha256 (value : String) : Bool :=
  value.utf8ByteSize = 64 && value.toList.all fun letter =>
    letter.isDigit || ('a' ≤ letter && letter ≤ 'f')

def isValidRepositoryComponent (value : List Char) : Bool :=
  value ≠ [] && value ≠ ['.'] && value ≠ ['.', '.'] && value.length ≤ 100 &&
    value.all fun letter => letter.isAlphanum || letter = '-' || letter = '_' || letter = '.'

def isValidRepository (provider : ReleaseProvider) (repository : String) : Bool :=
  let parts := repository.toList.splitOn '/'
  let acceptedLength := match provider with
    | .github | .forgejo => decide (parts.length = 2)
    | .gitlab => 2 ≤ parts.length && parts.length ≤ 20
  acceptedLength && parts.all isValidRepositoryComponent

def validatePattern (field : String) (assetPattern : Option String)
    (invertAssetPattern : Option Bool) : List AuthoredModelDiagnostic :=
  match assetPattern with
  | some pattern =>
      diagnoses (isBlank pattern || !rules.isRegex pattern) "app_artifact_asset_pattern_invalid"
        "The asset pattern must be a non-empty regular expression when present."
        (field ++ ".source.asset_pattern")
  | none =>
      diagnoses invertAssetPattern.isSome "app_artifact_invert_without_pattern"
        "Inverting asset-pattern matches requires an asset pattern."
        (field ++ ".source.invert_asset_pattern")

def validateArtifactSource (field : String) : AppArtifactSource → List AuthoredModelDiagnostic
  | .userProvided => []
  | .directUrl url sha256 =>
      diagnoses (!Artifact.isPublicHttpsUrl rules.urls url) "app_artifact_url_invalid"
          "Direct URL artifact sources require a public HTTPS address without credentials or a fragment."
          (field ++ ".source.url") ++
        diagnoses (sha256.any fun digest => !isLowercaseSha256 digest) "app_artifact_sha256_invalid"
          "The artifact SHA-256 must contain exactly 64 lowercase hexadecimal characters."
          (field ++ ".source.sha256")
  | .latestRelease provider baseUrl repository assetPattern invertAssetPattern _ =>
      diagnoses (!Artifact.isServiceOrigin rules.urls baseUrl) "app_artifact_base_url_invalid"
          "Latest-release sources require an HTTPS service origin: no credentials, query, fragment, or path."
          (field ++ ".source.base_url") ++
        diagnoses (!isValidRepository provider repository) "app_artifact_repository_invalid"
          "The release repository must name a valid owner and project for the selected provider."
          (field ++ ".source.repository") ++
        validatePattern rules field assetPattern invertAssetPattern

def validateArtifact (entry : String × AppArtifactV1) : List AuthoredModelDiagnostic :=
  let field := "artifacts[" ++ entry.1 ++ "]"
  diagnoses (!isValidIdentifier entry.1) "app_artifact_id_invalid"
      "Artifact IDs must contain lowercase alphanumeric segments separated by '.', '_', or '-'."
      field ++
    validateOptionalNonblank "app_artifact_text_invalid"
      "Artifact names must not be empty when present." (field ++ ".name") entry.2.name ++
    validateOptionalNonblank "app_artifact_text_invalid"
      "Artifact descriptions must not be empty when present." (field ++ ".description")
      entry.2.description ++
    validateArtifactSource rules field entry.2.source

end

def validateApiBounds (field : String) (minimum maximum : Option Int) :
    List AuthoredModelDiagnostic :=
  diagnoses (minimum.any (· < 1) || minimum.any fun least => maximum.any (· < least))
      "app_permission_api_bounds_invalid"
      "Android API bounds must be positive, and the minimum must not exceed the maximum."
      (field ++ ".android_api_min") ++
    diagnoses (maximum.any (· < 1)) "app_permission_api_bounds_invalid"
      "Android API bounds must be positive, and the minimum must not exceed the maximum."
      (field ++ ".android_api_max")

structure PermissionAction where
  field : String
  nameField : String
  missing : String
  seenAs : String
  name : String
  androidApiMin : Option Int
  androidApiMax : Option Int

def setActions (setField : String) (set : AppPermissionSet) : List PermissionAction :=
  set.runtime.zipIdx.map (fun entry =>
      let field := setField ++ ".runtime[" ++ toString entry.2 ++ "]"
      ⟨field, field ++ ".permission", "Permission names must not be empty.",
        "runtime:" ++ entry.1.permission, entry.1.permission, entry.1.androidApiMin,
        entry.1.androidApiMax⟩) ++
    set.appOps.zipIdx.map (fun entry =>
      let field := setField ++ ".app_ops[" ++ toString entry.2 ++ "]"
      ⟨field, field ++ ".op", "App-op names must not be empty.", "app_op:" ++ entry.1.op,
        entry.1.op, entry.1.androidApiMin, entry.1.androidApiMax⟩)

def validateActions (seen : List String) : List PermissionAction →
    List AuthoredModelDiagnostic × List String
  | [] => ([], seen)
  | action :: rest =>
      let named := !isBlank action.name
      let later := validateActions (if named then action.seenAs :: seen else seen) rest
      (diagnoses (!named) "app_permission_action_invalid" action.missing action.nameField ++
        validateApiBounds action.field action.androidApiMin action.androidApiMax ++
        diagnoses (named && action.seenAs ∈ seen) "app_permission_action_duplicate"
          "Permission automation actions must be unique within and across permission sets."
          action.field ++ later.1, later.2)

def validatePermissionSet (seen : List String) (setName : String) : Option AppPermissionSet →
    List AuthoredModelDiagnostic × List String
  | none => ([], seen)
  | some set =>
      let setField := "permission_sets." ++ setName
      let actions := validateActions seen (setActions setField set)
      (diagnoses (set.runtime.isEmpty && set.appOps.isEmpty) "app_permission_set_empty"
        "A present permission set must contain at least one action." setField ++ actions.1,
        actions.2)

def validatePermissionSets : Option AppPermissionSets → List AuthoredModelDiagnostic
  | none => []
  | some sets =>
      let baseline := validatePermissionSet [] "baseline" sets.baseline
      let elevated := validatePermissionSet baseline.2 "elevated" sets.elevated
      diagnoses (sets.baseline.isNone && sets.elevated.isNone) "app_permission_set_empty"
        "Present permission sets must contain at least one named set." "permission_sets" ++
        baseline.1 ++ elevated.1

section

variable (rules : ContentRules)

def validateIdentity (value : AppDefinitionV1) : List AuthoredModelDiagnostic :=
  diagnoses (value.schemaVersion ≠ 1) "schema_version_unsupported" "schema_version must be 1."
      "schema_version" ++
    diagnoses (value.kind ≠ "app_definition") "authored_kind_invalid"
      "kind must be 'app_definition'." "kind" ++
    diagnoses (!isValidIdentifier value.id) "authored_id_invalid"
      "ID must contain lowercase alphanumeric segments separated by '.', '_', or '-'." "id" ++
    diagnoses (isBlank value.name) "authored_name_invalid" "Name must not be empty." "name"

def validateTarget (entry : String × AppTarget) : List AuthoredModelDiagnostic :=
  let field := "targets[" ++ entry.1 ++ "]"
  diagnoses (!isValidIdentifier entry.1) "app_target_id_invalid"
      "Target IDs must contain lowercase alphanumeric segments separated by '.', '_', or '-'."
      field ++
    diagnoses (!isValidTargetPath entry.2.location entry.2.path) "app_target_path_invalid"
      "App target paths must be literal slash-separated paths in the form the target location requires."
      (field ++ ".path")

def reservedMetadataKeys : List String :=
  ["schema_version", "kind", "id", "name", "description", "category", "package_id", "artifacts",
    "permission_sets", "targets", "configurations", "launcher_activity", "metadata",
    "apk_inspection"]

def validateMetadata (values : OrderedMap String Json) : List AuthoredModelDiagnostic :=
  values.keys.flatMap (fun key =>
      diagnoses (isBlank key) "extension_key_invalid" "Extension mapping keys must not be empty."
        "metadata") ++
    values.keys.flatMap (fun key =>
      diagnoses (key ∈ reservedMetadataKeys) "metadata_reserved_key"
        ("Metadata key is reserved by the app definition schema: " ++ key) "metadata")

def validateAppDefinition (value : AppDefinitionV1) : List AuthoredModelDiagnostic :=
  validateIdentity value ++
    validateOptionalNonblank "authored_description_invalid"
      "Description must not be empty when present." "description" value.description ++
    validateOptionalNonblank "app_category_invalid" "App category must not be empty when present."
      "category" value.category ++
    diagnoses (!isValidPackageId value.packageId) "package_id_invalid"
      "Package IDs must contain at least two valid dot-separated identifier segments."
      "package_id" ++
    value.artifacts.entries.flatMap (validateArtifact rules) ++
    validatePermissionSets value.permissionSets ++
    value.targets.entries.flatMap validateTarget ++
    value.configurations.entries.flatMap (validateConfiguration rules value.id value.targets) ++
    diagnoses (value.launcherActivity.any fun activity => !isValidConcreteLauncherActivity activity)
      "launcher_activity_invalid"
      "The launcher activity must be one fully-qualified activity class name."
      "launcher_activity" ++
    validateMetadata value.metadata

end

section

structure YamlCodec where
  fromStr : String → Option Yaml
  toText : Yaml → String

variable (codec : YamlCodec) (rules : ContentRules)

def invalidYaml : AuthoredModelError :=
  ⟨"app_definition_yaml_invalid", "The app definition is not valid schema-v1 YAML."⟩

def definitionInvalid : AuthoredModelError :=
  ⟨"app_definition_invalid", "The app definition failed semantic validation."⟩

def getField (value : Yaml) (key : String) : Option Yaml :=
  match Serde.untag value with
  | .mapping entries => Yaml.get? entries key
  | _ => none

def asMapping (value : Yaml) : Option (List (Yaml × Yaml)) :=
  match Serde.untag value with
  | .mapping entries => some entries
  | _ => none

def asSequence (value : Yaml) : Option (List Yaml) :=
  match Serde.untag value with
  | .sequence items => some items
  | _ => none

def hasStringSegments (property : Yaml) : Bool :=
  (getField property "path").all fun path =>
    (asSequence path).any fun segments => segments.all fun segment => segment.asStr.isSome

def appConfigurationPathsHaveStringSegments (value : Yaml) : Bool :=
  ((getField value "configurations").bind asMapping).all fun configurations =>
    configurations.all fun held =>
      ((getField held.2 "managed_properties").bind asMapping).all fun properties =>
        properties.all fun property => hasStringSegments property.2

def parseAppDefinitionTree (value : Yaml) : Except AuthoredModelError AppDefinitionV1 :=
  if !Serde.uniqueKeys value then .error invalidYaml
  else if !appConfigurationPathsHaveStringSegments value then .error invalidYaml
  else
    match appDefinition.read value with
    | some definition => .ok definition
    | none => .error invalidYaml

def parseAppDefinitionYaml (source : String) : Except AuthoredModelError AppDefinitionV1 :=
  match codec.fromStr source with
  | none => .error invalidYaml
  | some value => parseAppDefinitionTree value

def emitAppDefinitionYaml (value : AppDefinitionV1) : Except AuthoredModelError String :=
  if (validateAppDefinition rules value).isEmpty then .ok (codec.toText (appDefinition.write value))
  else .error definitionInvalid

end

end EmuChef.Definition
