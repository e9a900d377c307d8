import EmuChef.Planner.ExecutionPlan
import EmuChef.Lib.Checks

/-! The check of a reviewed permission plan against its app snapshot, and the outputs of a
permission step none of whose actions applies. -/

namespace EmuChef.Executor

open Planner
open Checks (require)
open Json (optionalField)

def isAsciiLower (letter : Char) : Bool := 'a' ≤ letter && letter ≤ 'z'

def isAsciiLetter (letter : Char) : Bool :=
  isAsciiLower letter || ('A' ≤ letter && letter ≤ 'Z')

def isAsciiDigit (letter : Char) : Bool := '0' ≤ letter && letter ≤ '9'

def isIdentifierPiece (piece : List Char) : Bool :=
  !piece.isEmpty && piece.all fun letter => isAsciiLower letter || isAsciiDigit letter

def isValidIdentifier (value : String) : Bool :=
  (value.toList.splitOnP fun letter => letter = '.' || letter = '_' || letter = '-').all
    isIdentifierPiece

def isPackagePiece (piece : List Char) : Bool :=
  piece.head?.any isAsciiLetter &&
    piece.all fun letter => isAsciiLetter letter || isAsciiDigit letter || letter = '_'

def isValidPackageId (packageId : String) : Bool :=
  let pieces := packageId.toList.splitOnP fun letter => letter = '.'
  2 ≤ pieces.length && pieces.all isPackagePiece

def isWhitespace (letter : Char) : Bool :=
  let code := letter.toNat
  (9 ≤ code && code ≤ 13) || code = 0x20 || code = 0x85 || code = 0xa0 || code = 0x1680 ||
    (0x2000 ≤ code && code ≤ 0x200a) || code = 0x2028 || code = 0x2029 || code = 0x202f ||
    code = 0x205f || code = 0x3000

def isBlank (text : String) : Bool := text.toList.all isWhitespace

example : isValidPackageId "com.retroarch" = true ∧ isValidPackageId "retroarch" = false := by decide

section

variable (plan : ExecutionPlan) (step : ExecutionStep)

def appSnapshot (appId : String) : Except String ExecutionAppSnapshot :=
  match plan.apps.filter fun app => app.id = appId with
  | [] => .error "app snapshot is missing"
  | [app] => .ok app
  | _ => .error "app snapshot is ambiguous"

def validatePermissionAction (app : ExecutionAppSnapshot) (action : PermissionPlanAction) :
    Except String Unit := do
  require (action.packageName = app.packageId ∧ isValidPackageId action.packageName)
    "permission action package differs from the app snapshot"
  match action with
  | .runtimePermission _ permission _ _ _ =>
      require (¬ isBlank permission) "runtime permission identity is empty"
  | .appOp _ op _ _ _ _ => require (¬ isBlank op) "app-op identity is empty"

def validatedPlanPermissionPlan : Except String (ExecutionAppSnapshot × PermissionPlan) := do
  require (step.typeName = "grant_permissions") "step is not a permission operation"
  let permissionPlan ← step.permissionPlan.elim (.error "permission plan is missing") .ok
  require (step.params.entries.isEmpty) "permission step contains parameters outside its plan"
  require (¬ permissionPlan.actions.isEmpty) "permission plan contains no App Definition actions"
  let appId ← step.appId.elim (.error "app identity is missing") .ok
  let app ← appSnapshot plan appId
  require (isValidIdentifier app.id ∧ isValidPackageId app.packageId)
    "app snapshot identity is invalid"
  permissionPlan.actions.forM (validatePermissionAction app)
  return (app, permissionPlan)

end

def notApplicableDescription : PermissionNotApplicableReason → String
  | .androidApiBelowMinimum actual minimum =>
      "Android API level " ++ toString actual ++ " is below the action minimum of " ++
        toString minimum ++ "."
  | .androidApiAboveMaximum actual maximum =>
      "Android API level " ++ toString actual ++ " is above the action maximum of " ++
        toString maximum ++ "."

def notApplicableReason : PermissionActionApplicability → Option Json
  | .applicable => none
  | .notApplicable reason => some (.string (notApplicableDescription reason))

def actionDetails : PermissionPlanAction → List (String × Json)
  | .runtimePermission _ permission androidApiMin androidApiMax applicability =>
      [("permission", .string permission)] ++
        optionalField "android_api_min" (androidApiMin.map Json.integer) ++
        optionalField "android_api_max" (androidApiMax.map Json.integer) ++
        optionalField "reason" (notApplicableReason applicability)
  | .appOp _ op mode androidApiMin androidApiMax applicability =>
      [("op", .string op), ("mode", mode.toJson)] ++
        optionalField "android_api_min" (androidApiMin.map Json.integer) ++
        optionalField "android_api_max" (androidApiMax.map Json.integer) ++
        optionalField "reason" (notApplicableReason applicability)

def actionKind : PermissionPlanAction → String
  | .runtimePermission .. => "runtime_permission"
  | .appOp .. => "appop"

def sourceSection : PermissionPlanAction → String
  | .runtimePermission .. => "runtime"
  | .appOp .. => "app_ops"

def permissionPlanActionResult (step : ExecutionStep) (permissionPlan : PermissionPlan)
    (action : PermissionPlanAction) (status : String) (message : Option String) : Json :=
  .object ([("step_id", .string step.id), ("kind", .string (actionKind action)),
    ("package_name", .string action.packageName), ("source_recipe_id", .string step.recipeRef),
    ("source_section", .string (sourceSection action)),
    ("permission_set", permissionPlan.permissionSet.toJson),
    ("on_failure", permissionPlan.onFailure.toJson), ("status", .string status),
    ("applicability", action.applicability.toJson)] ++ actionDetails action ++
    optionalField "message" (message.map Json.string))

def permissionActionOutputs (actions : List Json) : OrderedMap String RuntimeValue :=
  OrderedMap.empty.insert "permission_results"
    ⟨"object", .object [("actions", .array actions)], none⟩

def permissionNotApplicableOutputs (step : ExecutionStep) (permissionPlan : PermissionPlan) :
    OrderedMap String RuntimeValue :=
  permissionActionOutputs (permissionPlan.actions.map fun action =>
    permissionPlanActionResult step permissionPlan action "not_applicable" none)

end EmuChef.Executor
