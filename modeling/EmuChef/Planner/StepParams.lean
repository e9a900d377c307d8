import EmuChef.Authored.Document
import EmuChef.Lib.Worklist
import EmuChef.Planner.Selection
import EmuChef.Planner.StepSpec

/-! The parameters of authored steps: their references, the artifacts they select and the ids of
both. -/

namespace EmuChef.Planner

open Worklist (visitEach reachVisit)

section

variable (recipe : Authored.Recipe)

def findStep (stepId : String) : Option Authored.Step :=
  recipe.steps.find? fun step => step.id = stepId

def ParamValue.reference? : ParamValue → Option String
  | .ref reference => some reference
  | _ => none

def paramRefs (step : Authored.Step) : List String :=
  step.params.values.filterMap ParamValue.reference?

def paramsWithDefaults (step : Authored.Step) : OrderedMap String ParamValue :=
  ((stepSpecFor step.typeName).map StepSpec.defaults).getD [] |>.foldl
    (fun params entry =>
      if params.contains entry.1 then params else params.insert entry.1 (.literal entry.2))
    step.params

def primaryOutput? (step : Authored.Step) : Option String :=
  (stepSpecFor step.typeName).bind StepSpec.primaryOutputName

def declaresOutput (typeName field : String) : Bool :=
  (stepSpecFor typeName).any fun spec => (spec.output? field).isSome

def stepOutputValueType (step : Authored.Step) (field : String) : Option String :=
  (stepSpecFor step.typeName).bind fun spec => (spec.output? field).map StepOutput.valueType

def primaryOutputValueType (step : Authored.Step) : Option String :=
  (primaryOutput? step).bind (stepOutputValueType step)

def referenceValueType : RuntimeRef → Option String
  | .input targetId =>
      (recipe.inputs.get? targetId).map fun input => inputValueType input.typeName input.multiple
  | .artifactField targetId field =>
      if recipe.artifacts.contains targetId then artifactFieldValueType field else none
  | .stepShorthand targetId => (findStep recipe targetId).bind primaryOutputValueType
  | .stepOutput targetId field =>
      (findStep recipe targetId).bind fun step => stepOutputValueType step field

end

def stringList : Option ParamValue → List String
  | some (.literal (.array items)) => items.filterMap Json.asStr
  | _ => []

def expandArtifactSelection (recipe : Authored.Recipe) (artifacts artifactGroups : Option ParamValue) :
    List String :=
  stringList artifacts ++ (stringList artifactGroups).flatMap fun groupId =>
    (recipe.artifactGroups.get? groupId).getD []

def selectedArtifacts (recipe : Authored.Recipe) (step : Authored.Step) : List String :=
  expandArtifactSelection recipe (step.params.get? "artifacts") (step.params.get? "artifact_groups")

def hasDependencyAncestor (step : Authored.Step) (ancestorId : String)
    (stepsById : OrderedMap String Authored.Step) : Bool :=
  (visitEach (reachVisit (fun id => (stepsById.get? id).map Authored.Step.dependencies) ancestorId
    (stepsById.entries.length + 1)) step.dependencies ∅).1

section

variable (recipe : Authored.Recipe)

def shorthandOutput (targetId : String) : String :=
  ((findStep recipe targetId).bind primaryOutput?).getD ""

def normalizeRefForExecution (refValue : String) : String :=
  match parseReference refValue with
  | some (.input targetId) => "inputs." ++ makeExecutionInputId recipe.id targetId
  | some (.artifactField targetId field) =>
      "artifacts." ++ makeExecutionArtifactId recipe.id targetId ++ "." ++ field
  | some (.stepShorthand targetId) =>
      "steps." ++ makeExecutionStepId recipe.id targetId ++ ".outputs." ++
        shorthandOutput recipe targetId
  | some (.stepOutput targetId field) =>
      "steps." ++ makeExecutionStepId recipe.id targetId ++ ".outputs." ++ field
  | none => refValue

end

end EmuChef.Planner
