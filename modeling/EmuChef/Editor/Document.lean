import EmuChef.CopyCommit.Manifest
import EmuChef.Planner.Bindings
import EmuChef.Planner.StepSpec

/-! The commands of the Recipe editor that rename an object of a Recipe or delete one. -/

namespace EmuChef.Editor

open Authored (Recipe Step RecipeArtifact)
open CopyCommit (quoted)
open Planner (ParamValue artifactsLead trim)
open Split (stripLead rsplitOnce)

inductive RecipeCommand where
  | renameInput (inputId newInputId : String)
  | deleteInput (inputId : String)
  | renameArtifact (artifactId newArtifactId : String)
  | deleteArtifact (artifactId : String)
  | renameArtifactGroup (groupId newGroupId : String)
  | deleteArtifactGroup (groupId : String)
  | deleteStep (stepId : String)
  deriving DecidableEq

def RecipeCommand.Decoded : RecipeCommand → Prop
  | renameInput former latter | renameArtifact former latter | renameArtifactGroup former latter =>
      former ≠ "" ∧ latter ≠ ""
  | deleteInput id | deleteArtifact id | deleteArtifactGroup id | deleteStep id => id ≠ ""

def normalizeIdentifier (value label : String) : Except String String :=
  let normalized := trim value
  if normalized = "" then .error (label ++ " must not be empty.") else .ok normalized

def renameOrderedMapKey {α : Type} (mapping : OrderedMap String α) (oldKey newKey : String)
    (newValue : α) : Except String (OrderedMap String α) :=
  if oldKey ∈ mapping.keys then
    .ok (mapping.entries.foldl (fun updated entry =>
      if entry.1 = oldKey then updated.insert newKey newValue
      else updated.insert entry.1 entry.2) .empty)
  else .error ("Unknown mapping entry " ++ quoted oldKey ++ ".")

inductive RefTargetKind where
  | input
  | artifact
  | step
  deriving DecidableEq

def rewriteRef (refValue : String) (targetKind : RefTargetKind) (oldId newId : String) :
    Option String :=
  match targetKind with
  | .input => if refValue = "inputs." ++ oldId then some ("inputs." ++ newId) else none
  | .artifact =>
      (stripLead artifactsLead refValue.toList).bind fun rest =>
        (rsplitOnce '.' rest).bind fun parts =>
          if String.ofList parts.1 = oldId then
            some ("artifacts." ++ newId ++ "." ++ String.ofList parts.2)
          else none
  | .step =>
      if refValue = "steps." ++ oldId then some ("steps." ++ newId)
      else
        (stripLead ("steps." ++ oldId ++ ".outputs.").toList refValue.toList).bind fun outputName =>
          if outputName = [] then none
          else some ("steps." ++ newId ++ ".outputs." ++ String.ofList outputName)

def refMatches (refValue : String) (targetKind : RefTargetKind) (targetId : String) : Bool :=
  (rewriteRef refValue targetKind targetId targetId).isSome

def isSupportedStepParam (step : Step) (paramName : String) : Bool :=
  (Planner.stepSpecFor step.typeName).any fun spec => (spec.param? paramName).isSome

def rewriteStringSequenceValue (value : Json) (oldId newId : String) : Option Json :=
  match value with
  | .array items =>
      if items.any fun item => item.asStr = some oldId then
        some (.array (items.map fun item => if item.asStr = some oldId then .string newId else item))
      else none
  | _ => none

def removeStringSequenceValue (value : Json) (targetId : String) : Option Json :=
  match value with
  | .array items =>
      if items.any fun item => item.asStr = some targetId then
        some (.array (items.filter fun item => item.asStr ≠ some targetId))
      else none
  | _ => none

def rewrittenParam (targetKind : RefTargetKind) (oldId newId paramName : String) :
    ParamValue → Option ParamValue
  | .ref refValue => (rewriteRef refValue targetKind oldId newId).map .ref
  | .literal value =>
      if targetKind = .artifact ∧ paramName = "artifacts" then
        (rewriteStringSequenceValue value oldId newId).map .literal
      else none
  | .appTarget _ => none

def rewriteStepParam (step : Step) (targetKind : RefTargetKind) (oldId newId : String)
    (params : OrderedMap String ParamValue) (entry : String × ParamValue) :
    OrderedMap String ParamValue :=
  if isSupportedStepParam step entry.1 then
    match rewrittenParam targetKind oldId newId entry.1 entry.2 with
    | some rewritten => params.insert entry.1 rewritten
    | none => params
  else params

def rewriteStepRefs (step : Step) (targetKind : RefTargetKind) (oldId newId : String) : Step :=
  let params := step.params.entries.foldl (rewriteStepParam step targetKind oldId newId) step.params
  let rewriteIds := fun ids : List String => ids.map fun id => if id = oldId then newId else id
  match targetKind with
  | .step =>
      { step with
        params
        dependencies := rewriteIds step.dependencies
        constraints :=
          { step.constraints with conflictsWith := rewriteIds step.constraints.conflictsWith } }
  | _ => { step with params }

def removeStepParam (step : Step) (targetKind : RefTargetKind) (targetId : String)
    (params : OrderedMap String ParamValue) (entry : String × ParamValue) :
    OrderedMap String ParamValue :=
  if isSupportedStepParam step entry.1 then
    match entry.2 with
    | .ref refValue =>
        if refMatches refValue targetKind targetId then params.erase entry.1 else params
    | .literal value =>
        if targetKind = .artifact ∧ entry.1 = "artifacts" then
          match removeStringSequenceValue value targetId with
          | some rewritten => params.insert entry.1 (.literal rewritten)
          | none => params
        else params
    | .appTarget _ => params
  else params

def removeStepRefs (step : Step) (targetKind : RefTargetKind) (targetId : String) : Step :=
  let params := step.params.entries.foldl (removeStepParam step targetKind targetId) step.params
  let removeIds := fun ids : List String => ids.filter fun id => id ≠ targetId
  match targetKind with
  | .step =>
      { step with
        params
        dependencies := removeIds step.dependencies
        constraints :=
          { step.constraints with conflictsWith := removeIds step.constraints.conflictsWith } }
  | _ => { step with params }

def rewriteArtifactGroupSelection (step : Step) (groupId newGroupId : String) : Step :=
  if isSupportedStepParam step "artifact_groups" then
    match step.params.get? "artifact_groups" with
    | some (.literal value) =>
        match rewriteStringSequenceValue value groupId newGroupId with
        | some rewritten =>
            { step with params := step.params.insert "artifact_groups" (.literal rewritten) }
        | none => step
    | _ => step
  else step

def removeArtifactGroupSelection (step : Step) (groupId : String) : Step :=
  if isSupportedStepParam step "artifact_groups" then
    match step.params.get? "artifact_groups" with
    | some (.literal value) =>
        match removeStringSequenceValue value groupId with
        | some rewritten =>
            { step with params := step.params.insert "artifact_groups" (.literal rewritten) }
        | none => step
    | _ => step
  else step

section

variable (recipe : Recipe)

def updatedRenameInputRecipe (inputId newInputId : String) : Except String Recipe := do
  let newInputId ← normalizeIdentifier newInputId "input id"
  match recipe.inputs.get? inputId with
  | none => .error ("Unknown input id " ++ quoted inputId ++ ".")
  | some input =>
      if newInputId ≠ inputId ∧ newInputId ∈ recipe.inputs.keys then
        .error ("Input " ++ quoted newInputId ++ " already exists.")
      else
        let inputs ← renameOrderedMapKey recipe.inputs inputId newInputId input
        .ok { recipe with
          inputs
          steps := recipe.steps.map fun step => rewriteStepRefs step .input inputId newInputId }

def updatedDeleteInputRecipe (inputId : String) : Except String Recipe :=
  if inputId ∈ recipe.inputs.keys then
    .ok { recipe with
      inputs := recipe.inputs.erase inputId
      steps := recipe.steps.map fun step => removeStepRefs step .input inputId }
  else .error ("Unknown input " ++ quoted inputId ++ ".")

def updatedRenameArtifactRecipe (artifactId newArtifactId : String) : Except String Recipe := do
  let newArtifactId ← normalizeIdentifier newArtifactId "artifact id"
  match recipe.artifacts.get? artifactId with
  | none => .error ("Unknown artifact id " ++ quoted artifactId ++ ".")
  | some artifact =>
      if newArtifactId ≠ artifactId ∧ newArtifactId ∈ recipe.artifacts.keys then
        .error ("Artifact " ++ quoted newArtifactId ++ " already exists.")
      else
        let artifacts ← renameOrderedMapKey recipe.artifacts artifactId newArtifactId artifact
        .ok { recipe with
          artifacts
          artifactGroups := recipe.artifactGroups.mapValues fun _ members =>
            members.map fun member => if member = artifactId then newArtifactId else member
          steps := recipe.steps.map fun step =>
            rewriteStepRefs step .artifact artifactId newArtifactId }

def updatedDeleteArtifactRecipe (artifactId : String) : Except String Recipe :=
  if artifactId ∈ recipe.artifacts.keys then
    .ok { recipe with
      artifacts := recipe.artifacts.erase artifactId
      artifactGroups := recipe.artifactGroups.mapValues fun _ members =>
        members.filter fun member => member ≠ artifactId
      steps := recipe.steps.map fun step => removeStepRefs step .artifact artifactId }
  else .error ("Unknown artifact " ++ quoted artifactId ++ ".")

def updatedRenameArtifactGroupRecipe (groupId newGroupId : String) : Except String Recipe := do
  let newGroupId ← normalizeIdentifier newGroupId "artifact group id"
  match recipe.artifactGroups.get? groupId with
  | none => .error ("Unknown artifact group " ++ quoted groupId ++ ".")
  | some members =>
      if newGroupId ≠ groupId ∧ newGroupId ∈ recipe.artifactGroups.keys then
        .error ("Artifact group " ++ quoted newGroupId ++ " already exists.")
      else
        let artifactGroups ← renameOrderedMapKey recipe.artifactGroups groupId newGroupId members
        .ok { recipe with
          artifactGroups
          steps := recipe.steps.map fun step =>
            rewriteArtifactGroupSelection step groupId newGroupId }

def updatedDeleteArtifactGroupRecipe (groupId : String) : Except String Recipe :=
  if groupId ∈ recipe.artifactGroups.keys then
    .ok { recipe with
      artifactGroups := recipe.artifactGroups.erase groupId
      steps := recipe.steps.map fun step => removeArtifactGroupSelection step groupId }
  else .error ("Unknown artifact group " ++ quoted groupId ++ ".")

def updatedDeleteStepRecipe (stepId : String) : Except String Recipe :=
  match recipe.steps.findIdx? fun step => step.id = stepId with
  | none => .error ("Unknown step " ++ quoted stepId ++ ".")
  | some index =>
      .ok { recipe with
        steps := (recipe.steps.eraseIdx index).map fun step => removeStepRefs step .step stepId }

def updatedRecipe : RecipeCommand → Except String Recipe
  | .renameInput inputId newInputId => updatedRenameInputRecipe recipe inputId newInputId
  | .deleteInput inputId => updatedDeleteInputRecipe recipe inputId
  | .renameArtifact artifactId newArtifactId =>
      updatedRenameArtifactRecipe recipe artifactId newArtifactId
  | .deleteArtifact artifactId => updatedDeleteArtifactRecipe recipe artifactId
  | .renameArtifactGroup groupId newGroupId =>
      updatedRenameArtifactGroupRecipe recipe groupId newGroupId
  | .deleteArtifactGroup groupId => updatedDeleteArtifactGroupRecipe recipe groupId
  | .deleteStep stepId => updatedDeleteStepRecipe recipe stepId

end

end EmuChef.Editor
