import EmuChef.Planner.Recipe

/-! Execution plans as the planner emits them and the JSON they are written as. -/

namespace EmuChef.Planner

open Json (optionalField)

structure RuntimeValue where
  typeName : String
  value : Json
  location : Option String

structure ExecutionInputValue where
  id : String
  value : RuntimeValue

structure ExecutionArtifact where
  id : String
  deriving DecidableEq

inductive ExecutionParamValue where
  | ref (refValue : String)
  | literal (value : Json)

structure ExecutionStepConstraints where
  capabilities : List String
  conflictsWith : List String
  deriving DecidableEq

structure ExecutionStepCondition where
  typeName : String
  appId : Option String
  params : OrderedMap String Json

inductive PermissionSetKind where
  | baseline
  | elevated
  deriving DecidableEq

inductive PermissionFailurePolicy where
  | warn
  | fail
  deriving DecidableEq

inductive AppOpMode where
  | allow
  deriving DecidableEq

inductive PermissionNotApplicableReason where
  | androidApiBelowMinimum (actual minimum : Int)
  | androidApiAboveMaximum (actual maximum : Int)
  deriving DecidableEq

inductive PermissionActionApplicability where
  | applicable
  | notApplicable (reason : PermissionNotApplicableReason)
  deriving DecidableEq

inductive PermissionPlanAction where
  | runtimePermission (packageName permission : String) (androidApiMin androidApiMax : Option Int)
      (applicability : PermissionActionApplicability)
  | appOp (packageName op : String) (mode : AppOpMode) (androidApiMin androidApiMax : Option Int)
      (applicability : PermissionActionApplicability)
  deriving DecidableEq

namespace PermissionPlanAction

def packageName : PermissionPlanAction → String
  | runtimePermission packageName _ _ _ _ => packageName
  | appOp packageName _ _ _ _ _ => packageName

def applicability : PermissionPlanAction → PermissionActionApplicability
  | runtimePermission _ _ _ _ applicability => applicability
  | appOp _ _ _ _ _ applicability => applicability

end PermissionPlanAction

structure PermissionPlan where
  permissionSet : PermissionSetKind
  onFailure : PermissionFailurePolicy
  actions : List PermissionPlanAction
  deriving DecidableEq

def PermissionPlan.hasApplicableActions (plan : PermissionPlan) : Bool :=
  plan.actions.any fun action => action.applicability = .applicable

structure ExecutionStep where
  id : String
  recipeRef : String
  appId : Option String
  typeName : String
  name : String
  note : String
  dependencies : List String
  constraints : ExecutionStepConstraints
  permissionPlan : Option PermissionPlan
  params : OrderedMap String ExecutionParamValue
  skipIf : List ExecutionStepCondition
  verify : List ExecutionStepCondition

structure ExecutionAppSnapshot where
  id : String
  packageId : String
  deriving DecidableEq

structure ExecutionCopyCommitSnapshot where
  stepId : String
  deriving DecidableEq

structure ExecutionPlan where
  id : String
  apps : List ExecutionAppSnapshot
  copyCommitSnapshots : List ExecutionCopyCommitSnapshot
  runtimeCapabilities : RuntimeCapabilities
  inputs : List ExecutionInputValue
  artifacts : List ExecutionArtifact
  steps : List ExecutionStep

def optionalText : Option String → Json
  | some text => .string text
  | none => .null

def RuntimeValue.toJson (value : RuntimeValue) : Json :=
  .object [("type", .string value.typeName), ("value", value.value),
    ("location", optionalText value.location)]

def ExecutionInputValue.toJson (input : ExecutionInputValue) : Json :=
  .object [("id", .string input.id), ("value", input.value.toJson)]

def ExecutionArtifact.toJson (artifact : ExecutionArtifact) : Json :=
  .object [("id", .string artifact.id)]

def ExecutionParamValue.toJson : ExecutionParamValue → Json
  | ref refValue => .object [("ref", .string refValue)]
  | literal value => .object [("value", value)]

def ExecutionStepConstraints.toJson (constraints : ExecutionStepConstraints) : Json :=
  .object [("capabilities", Json.strings constraints.capabilities),
    ("conflicts_with", Json.strings constraints.conflictsWith)]

def ExecutionStepCondition.toJson (condition : ExecutionStepCondition) : Json :=
  .object ([("type", .string condition.typeName)] ++
    (optionalField "app_id" (condition.appId.map Json.string) ++
      [("params", Json.ofMap id condition.params)]))

def PermissionSetKind.toJson : PermissionSetKind → Json
  | baseline => .string "baseline"
  | elevated => .string "elevated"

def PermissionFailurePolicy.toJson : PermissionFailurePolicy → Json
  | warn => .string "warn"
  | fail => .string "fail"

def AppOpMode.toJson : AppOpMode → Json
  | allow => .string "allow"

def PermissionNotApplicableReason.toJson : PermissionNotApplicableReason → Json
  | androidApiBelowMinimum actual minimum =>
      .object [("reason", .string "android_api_below_minimum"), ("actual", .integer actual),
        ("minimum", .integer minimum)]
  | androidApiAboveMaximum actual maximum =>
      .object [("reason", .string "android_api_above_maximum"), ("actual", .integer actual),
        ("maximum", .integer maximum)]

def PermissionActionApplicability.toJson : PermissionActionApplicability → Json
  | applicable => .object [("status", .string "applicable")]
  | notApplicable reason =>
      .object [("status", .string "not_applicable"), ("reason", reason.toJson)]

def PermissionPlanAction.toJson : PermissionPlanAction → Json
  | runtimePermission packageName permission androidApiMin androidApiMax applicability =>
      .object ([("kind", .string "runtime_permission"), ("package_name", .string packageName),
        ("permission", .string permission)] ++
        (optionalField "android_api_min" (androidApiMin.map Json.integer) ++
          (optionalField "android_api_max" (androidApiMax.map Json.integer) ++
            [("applicability", applicability.toJson)])))
  | appOp packageName op mode androidApiMin androidApiMax applicability =>
      .object ([("kind", .string "app_op"), ("package_name", .string packageName),
        ("op", .string op), ("mode", mode.toJson)] ++
        (optionalField "android_api_min" (androidApiMin.map Json.integer) ++
          (optionalField "android_api_max" (androidApiMax.map Json.integer) ++
            [("applicability", applicability.toJson)])))

def PermissionPlan.toJson (plan : PermissionPlan) : Json :=
  .object [("permission_set", plan.permissionSet.toJson), ("on_failure", plan.onFailure.toJson),
    ("actions", .array (plan.actions.map PermissionPlanAction.toJson))]

def ExecutionStep.toJson (step : ExecutionStep) : Json :=
  .object ([("id", .string step.id), ("recipe_ref", .string step.recipeRef)] ++
    (optionalField "app_id" (step.appId.map Json.string) ++
      ([("type", .string step.typeName), ("name", .string step.name)] ++
        (optionalField "note" (if step.note = "" then none else some (.string step.note)) ++
          ([("dependencies", Json.strings step.dependencies),
            ("constraints", step.constraints.toJson)] ++
            (optionalField "permission_plan" (step.permissionPlan.map PermissionPlan.toJson) ++
              [("params", Json.ofMap ExecutionParamValue.toJson step.params),
                ("skip_if", .array (step.skipIf.map ExecutionStepCondition.toJson)),
                ("verify", .array (step.verify.map ExecutionStepCondition.toJson))]))))))

def RootShellRoute.toJson : RootShellRoute → Json
  | suCommand => .string "suCommand"
  | suZero => .string "suZero"

def RuntimeCapabilities.toJson (capabilities : RuntimeCapabilities) : Json :=
  .object ([("adb_available", .bool capabilities.adbAvailable),
    ("apk_install", .bool capabilities.apkInstall),
    ("shared_storage_write", .bool capabilities.sharedStorageWrite),
    ("app_launch", .bool capabilities.appLaunch),
    ("shell_command", .bool capabilities.shellCommand),
    ("package_remove_for_user", .bool capabilities.packageRemoveForUser),
    ("root_shell", .bool capabilities.rootShell),
    ("app_data_write", .bool capabilities.appDataWrite)] ++
    optionalField "root_shell_route" (capabilities.rootShellRoute.map RootShellRoute.toJson))

def ExecutionAppSnapshot.toJson (app : ExecutionAppSnapshot) : Json :=
  .object [("id", .string app.id), ("package_id", .string app.packageId)]

def ExecutionCopyCommitSnapshot.toJson (snapshot : ExecutionCopyCommitSnapshot) : Json :=
  .object [("stepId", .string snapshot.stepId)]

def filledArray : List Json → Option Json
  | [] => none
  | items => some (.array items)

def ExecutionPlan.toJson (plan : ExecutionPlan) : Json :=
  .object ([("id", .string plan.id)] ++
    (optionalField "apps" (filledArray (plan.apps.map ExecutionAppSnapshot.toJson)) ++
      (optionalField "copy_commit_snapshots"
        (filledArray (plan.copyCommitSnapshots.map ExecutionCopyCommitSnapshot.toJson)) ++
        [("runtime_capabilities", plan.runtimeCapabilities.toJson),
          ("inputs", .array (plan.inputs.map ExecutionInputValue.toJson)),
          ("artifacts", .array (plan.artifacts.map ExecutionArtifact.toJson)),
          ("steps", .array (plan.steps.map ExecutionStep.toJson))])))

end EmuChef.Planner
