import EmuChef.Planner.Recipe

/-! The authored documents of a catalog: Recipes and the App Definitions they refer to. -/

namespace EmuChef.Authored

open Planner (ParamValue InputDeclaration StepConstraints AppTargetKind)

inductive AppArtifactKind where
  | apk
  | file
  deriving DecidableEq

inductive ReleaseProvider where
  | github
  | gitlab
  | forgejo
  deriving DecidableEq

inductive AppArtifactSource where
  | userProvided
  | directUrl (url : String) (sha256 : Option String)
  | latestRelease (provider : ReleaseProvider) (baseUrl repository : String)
      (assetPattern : Option String) (invertAssetPattern : Option Bool) (prerelease : Bool)
  deriving DecidableEq

structure AppArtifact where
  kind : AppArtifactKind
  source : AppArtifactSource
  deriving DecidableEq

structure AppRuntimePermissionAction where
  permission : String
  androidApiMin : Option Int
  androidApiMax : Option Int
  deriving DecidableEq

structure AppOpAction where
  op : String
  androidApiMin : Option Int
  androidApiMax : Option Int
  deriving DecidableEq

structure AppPermissionSet where
  runtime : List AppRuntimePermissionAction
  appOps : List AppOpAction
  deriving DecidableEq

structure AppPermissionSets where
  baseline : Option AppPermissionSet
  elevated : Option AppPermissionSet
  deriving DecidableEq

inductive AppTargetLocation where
  | appData
  | externalAppData
  | sharedStorage
  | absoluteDevicePath
  deriving DecidableEq

structure AppTarget where
  kind : AppTargetKind
  location : AppTargetLocation
  path : String
  deriving DecidableEq

inductive AppConfigurationFormat where
  | keyValueV1
  | jsonV1
  deriving DecidableEq

inductive ConfigValueType where
  | string
  | integer
  | number
  | boolean
  deriving DecidableEq

structure AppManagedPropertyValidators where
  allowedValues : List Json
  minimum : Option Json
  maximum : Option Json
  minLength : Option Nat
  maxLength : Option Nat

structure AppManagedProperty where
  path : List String
  typeName : ConfigValueType
  clearable : Bool
  default : Option Json
  validators : AppManagedPropertyValidators

structure AppConfiguration where
  format : AppConfigurationFormat
  target : String
  templates : OrderedMap String String
  managedProperties : OrderedMap String AppManagedProperty

structure AppDefinition where
  schemaVersion : Int
  kind : String
  id : String
  name : String
  packageId : String
  artifacts : OrderedMap String AppArtifact
  permissionSets : Option AppPermissionSets
  targets : OrderedMap String AppTarget
  configurations : OrderedMap String AppConfiguration
  launcherActivity : Option String

/-- An artifact of an App Definition, with the Recipe input that supplies a `user_provided` one. -/
structure AppArtifactReference where
  appRef : String
  artifact : String
  input : Option String
  cache : String
  deriving DecidableEq

inductive RecipeArtifact where
  | remoteFile (url cache : String)
  | appArtifact (reference : AppArtifactReference)
  deriving DecidableEq

structure StepCondition where
  typeName : String
  params : OrderedMap String Json

structure Step where
  id : String
  typeName : String
  name : String
  progressNote : Option String
  userToggleable : Bool
  appRef : Option String
  dependencies : List String
  constraints : StepConstraints
  skipIf : List StepCondition
  params : OrderedMap String ParamValue
  verify : List StepCondition

inductive RecipeConfigurationBase where
  | template (templateId : String)
  | input (inputId : String)
  deriving DecidableEq

inductive RecipeConfigOverride where
  | value (value : Json)
  | clear
  | reset

structure RecipeConfigProperty where
  required : Bool
  overrideOperation : Option RecipeConfigOverride

inductive UnmanagedTemplateLiteralType where
  | string
  | integer
  | number
  | boolean
  | object
  | array
  deriving DecidableEq

structure UnmanagedTemplateLiteral where
  path : List String
  typeName : UnmanagedTemplateLiteralType
  value : Json

structure RecipeConfiguration where
  appRef : String
  configuration : String
  target : String
  base : RecipeConfigurationBase
  properties : OrderedMap String RecipeConfigProperty
  unmanagedLiterals : List UnmanagedTemplateLiteral

structure Recipe where
  id : String
  recipeDependencies : List String
  inputs : OrderedMap String InputDeclaration
  config : Option RecipeConfiguration
  artifacts : OrderedMap String RecipeArtifact
  artifactGroups : OrderedMap String (List String)
  steps : List Step

end EmuChef.Authored
