import EmuChef.Lib.Json
import EmuChef.Lib.Split

/-! Authored Recipes as the planner reads them, the references between their parts and
the capabilities of a device. -/

namespace EmuChef.Planner

open Split (splitOnce rsplitOnce stripLead)

inductive ParamValue where
  | ref (reference : String)
  | appTarget (targetId : String)
  | literal (value : Json)

structure InputValidation where
  mustExist : Bool
  allowedExtensions : List String
  pathKind : Option String
  allowedPrefixes : List String
  deriving DecidableEq

structure InputDeclaration where
  typeName : String
  required : Bool
  multiple : Bool
  default : Json
  validation : InputValidation
  options : List Json

structure StepConstraints where
  capabilities : List String
  conflictsWith : List String

structure Step where
  id : String
  typeName : String
  dependencies : List String
  constraints : StepConstraints
  params : OrderedMap String ParamValue

structure Recipe where
  id : String
  recipeDependencies : List String
  inputs : OrderedMap String InputDeclaration
  steps : List Step

inductive AppTargetKind where
  | file
  | directory
  deriving DecidableEq

structure PlannerMessage where
  code : String
  message : String
  details : Json

/-- The runtime failures at which planning aborts instead of answering. -/
inductive PlannerPanic where
  | missingTargetUsage (stepId : String)
  | missingConditionPath (stepId : String)
  | unvalidatedAppDefinition (stepId : String)
  | unvalidatedLauncherActivity (stepId : String)
  | unresolvedTarget (stepId : String)
  | dependencyCountUnderflow (stepId : String)
  deriving DecidableEq

def makeExecutionStepId (recipeRef stepId : String) : String := recipeRef ++ "/" ++ stepId

def makeExecutionInputId (recipeRef inputId : String) : String := recipeRef ++ "/" ++ inputId

def makeExecutionArtifactId (recipeRef artifactId : String) : String :=
  recipeRef ++ "/" ++ artifactId

inductive RuntimeRef where
  | input (targetId : String)
  | artifactField (targetId field : String)
  | stepShorthand (targetId : String)
  | stepOutput (targetId field : String)
  deriving DecidableEq

def inputsLead : List Char := "inputs.".toList
def stepsLead : List Char := "steps.".toList
def artifactsLead : List Char := "artifacts.".toList
def outputsSeparator : List Char := ".outputs.".toList

def parseInputReference (target : List Char) : Option RuntimeRef :=
  if target = [] then none else some (.input (String.ofList target))

def parseStepReference (body : List Char) : Option RuntimeRef :=
  match splitOnce outputsSeparator body with
  | some (target, field) =>
      if target = [] ∨ field = [] then none
      else some (.stepOutput (String.ofList target) (String.ofList field))
  | none => if body = [] then none else some (.stepShorthand (String.ofList body))

def parseArtifactReference (body : List Char) : Option RuntimeRef :=
  match rsplitOnce '.' body with
  | some (target, field) =>
      if target = [] ∨ field = [] then none
      else some (.artifactField (String.ofList target) (String.ofList field))
  | none => none

def parseReference (value : String) : Option RuntimeRef :=
  match stripLead inputsLead value.toList with
  | some target => parseInputReference target
  | none =>
      match stripLead stepsLead value.toList with
      | some body => parseStepReference body
      | none =>
          match stripLead artifactsLead value.toList with
          | some body => parseArtifactReference body
          | none => none

example : parseReference "inputs.folder" = some (.input "folder") := by decide

inductive RootShellRoute where
  | suCommand
  | suZero
  deriving DecidableEq

structure RuntimeCapabilities where
  adbAvailable : Bool
  apkInstall : Bool
  sharedStorageWrite : Bool
  appLaunch : Bool
  shellCommand : Bool
  packageRemoveForUser : Bool
  rootShell : Bool
  appDataWrite : Bool
  rootShellRoute : Option RootShellRoute
  deriving DecidableEq

inductive RuntimeCapability where
  | adbAvailable
  | apkInstall
  | sharedStorageWrite
  | appLaunch
  | shellCommand
  | packageRemoveForUser
  | rootShell
  | appDataWrite
  deriving DecidableEq

namespace RuntimeCapability

def fromName (name : String) : Option RuntimeCapability :=
  match name with
  | "adb_available" => some adbAvailable
  | "apk_install" => some apkInstall
  | "shared_storage_write" => some sharedStorageWrite
  | "app_launch" => some appLaunch
  | "shell_command" => some shellCommand
  | "package_remove_for_user" => some packageRemoveForUser
  | "root_shell" => some rootShell
  | "app_data_write" => some appDataWrite
  | _ => none

def isAvailable (capabilities : RuntimeCapabilities) : RuntimeCapability → Bool
  | adbAvailable => capabilities.adbAvailable
  | apkInstall => capabilities.apkInstall
  | sharedStorageWrite => capabilities.sharedStorageWrite
  | appLaunch => capabilities.appLaunch
  | shellCommand => capabilities.shellCommand
  | packageRemoveForUser => capabilities.packageRemoveForUser
  | rootShell => capabilities.rootShell
  | appDataWrite => capabilities.appDataWrite

end RuntimeCapability

end EmuChef.Planner
