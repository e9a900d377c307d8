import EmuChef.Editor.Document
import EmuChef.Planner.PlanReferences

/-! The structured references of a Recipe, and what it means that an edit renames or deletes what
they name. -/

namespace EmuChef.Editor

open Authored (Recipe Step RecipeArtifact RecipeConfiguration)
open Planner (ParamValue RuntimeRef InputDeclaration parseReference trim artifactsLead inputsLead
  stepsLead)
open Split (stripLead rsplitOnce splitOnce)

inductive Identity where
  | input (id : String)
  | artifact (id : String)
  | group (id : String)
  | step (id : String)
  deriving DecidableEq

/-- A reference to an object of the Recipe, with the field or the output of it that is read. -/
structure Reference where
  target : Identity
  field : Option String
  deriving DecidableEq

/-- Where a reference stands; steps, groups and artifacts are counted in their order. -/
inductive Place where
  | param (step : Nat) (name : String)
  | dependency (step : Nat)
  | conflict (step : Nat)
  | member (group : Nat)
  | binding (artifact : Nat)
  | base
  deriving DecidableEq

def ofRuntimeRef : RuntimeRef → Reference
  | .input id => ⟨.input id, none⟩
  | .artifactField id field => ⟨.artifact id, some field⟩
  | .stepShorthand id => ⟨.step id, none⟩
  | .stepOutput id field => ⟨.step id, some field⟩

def selected (identity : String → Identity) : Json → List Reference
  | .array items => (items.filterMap Json.asStr).map fun id => ⟨identity id, none⟩
  | _ => []

def paramReferences (name : String) : ParamValue → List Reference
  | .ref reference => ((parseReference reference).map ofRuntimeRef).toList
  | .literal value =>
      if name = "artifacts" then selected .artifact value
      else if name = "artifact_groups" then selected .group value
      else []
  | .appTarget _ => []

def stepReferences (index : Nat) (step : Step) : List (Place × Reference) :=
  (step.params.entries.flatMap fun entry =>
      (paramReferences entry.1 entry.2).map fun held => (.param index entry.1, held)) ++
    step.dependencies.map (fun id => (.dependency index, ⟨.step id, none⟩)) ++
    step.constraints.conflictsWith.map (fun id => (.conflict index, ⟨.step id, none⟩))

def memberReferences (index : Nat) (members : List String) : List (Place × Reference) :=
  members.map fun member => (.member index, ⟨.artifact member, none⟩)

def artifactInput : RecipeArtifact → Option String
  | .remoteFile _ _ => none
  | .appArtifact reference => reference.input

def bindingReferences (index : Nat) (artifact : RecipeArtifact) : List (Place × Reference) :=
  (artifactInput artifact).toList.map fun id => (.binding index, ⟨.input id, none⟩)

def baseInput (config : Option RecipeConfiguration) : Option String :=
  config.bind fun held =>
    match held.base with
    | .template _ => none
    | .input id => some id

def baseReferences (config : Option RecipeConfiguration) : List (Place × Reference) :=
  (baseInput config).toList.map fun id => (.base, ⟨.input id, none⟩)

def references (recipe : Recipe) : List (Place × Reference) :=
  (recipe.steps.zipIdx.flatMap fun entry => stepReferences entry.2 entry.1) ++
    (recipe.artifactGroups.values.zipIdx.flatMap fun entry => memberReferences entry.2 entry.1) ++
    (recipe.artifacts.values.zipIdx.flatMap fun entry => bindingReferences entry.2 entry.1) ++
    baseReferences recipe.config

/-- The places that the commands look at: no parameter that the type of its step does not list, no
input binding and no base. -/
def followed (recipe : Recipe) : Place → Bool
  | .param index name => recipe.steps[index]?.any fun step => isSupportedStepParam step name
  | .dependency _ | .conflict _ | .member _ => true
  | .binding _ | .base => false

inductive Declaration where
  | input (declaration : InputDeclaration)
  | artifact (artifact : RecipeArtifact)
  | group (members : List String)
  | step (step : Step)

def declaration? (recipe : Recipe) : Identity → Option Declaration
  | .input id => (recipe.inputs.get? id).map .input
  | .artifact id => (recipe.artifacts.get? id).map .artifact
  | .group id => (recipe.artifactGroups.get? id).map .group
  | .step id => (recipe.steps.find? fun step => step.id = id).map .step

def Identity.rename (identity former latter : Identity) : Identity :=
  if identity = former then latter else identity

def Reference.rename (reference : Reference) (former latter : Identity) : Reference :=
  ⟨reference.target.rename former latter, reference.field⟩

def renamedKeys (identity : String → Identity) (former latter : Identity) (keys : List String) :
    List Identity :=
  keys.map fun key => (identity key).rename former latter

/-- The edit gave one object another name: the references and the maps follow, nothing else
changes, and the command that goes back restores the Recipe. -/
structure Renamed (recipe updated : Recipe) (former latter : Identity) (back : RecipeCommand) :
    Prop where
  references : references updated =
    (references recipe).map fun entry => (entry.1, entry.2.rename former latter)
  declaration : declaration? updated latter = declaration? recipe former
  inputs : updated.inputs.keys.map .input = renamedKeys .input former latter recipe.inputs.keys
  artifacts : updated.artifacts.keys.map .artifact =
    renamedKeys .artifact former latter recipe.artifacts.keys
  groups : updated.artifactGroups.keys.map .group =
    renamedKeys .group former latter recipe.artifactGroups.keys
  params : (updated.steps.map fun step => step.params.keys) =
    recipe.steps.map fun step => step.params.keys
  restored : updatedRecipe updated back = .ok recipe

def Forgotten (updated : Recipe) (identity : Identity) : Prop :=
  ∀ entry ∈ references updated, entry.2.target ≠ identity

def Consistent (recipe : Recipe) (command : RecipeCommand) (updated : Recipe) : Prop :=
  match command with
  | .renameInput former latter =>
      Renamed recipe updated (.input former) (.input (trim latter))
        (.renameInput (trim latter) former)
  | .renameArtifact former latter =>
      Renamed recipe updated (.artifact former) (.artifact (trim latter))
        (.renameArtifact (trim latter) former)
  | .renameArtifactGroup former latter =>
      Renamed recipe updated (.group former) (.group (trim latter))
        (.renameArtifactGroup (trim latter) former)
  | .deleteInput id => Forgotten updated (.input id)
  | .deleteArtifact id => Forgotten updated (.artifact id)
  | .deleteArtifactGroup id => Forgotten updated (.group id)
  | .deleteStep id => Forgotten updated (.step id)

section

variable {reference written former latter id field : String}

theorem rewriteRef_input : rewriteRef reference .input former latter = some written ↔
    reference = "inputs." ++ former ∧ written = "inputs." ++ latter := by
  rw [rewriteRef]
  split_ifs with same
  · simp [same, eq_comm]
  · simp [same]

theorem toList_artifact (id field : String) : ("artifacts." ++ id ++ "." ++ field).toList =
    artifactsLead ++ (id.toList ++ '.' :: field.toList) := by
  rw [String.toList_append, String.toList_append, String.toList_append, List.append_assoc,
    List.append_assoc]
  rfl

theorem toList_step (id : String) : ("steps." ++ id).toList = stepsLead ++ id.toList := by
  rw [String.toList_append]
  rfl

theorem toList_stepOutput (id field : String) : ("steps." ++ id ++ ".outputs." ++ field).toList =
    stepsLead ++ (id.toList ++ Planner.outputsSeparator ++ field.toList) := by
  rw [String.toList_append, String.toList_append, String.toList_append, List.append_assoc,
    List.append_assoc, List.append_assoc]
  rfl

theorem rewriteRef_artifact : rewriteRef reference .artifact former latter = some written ↔
    ∃ field, '.' ∉ field.toList ∧ reference = "artifacts." ++ former ++ "." ++ field ∧
      written = "artifacts." ++ latter ++ "." ++ field := by
  simp only [rewriteRef, Option.bind_eq_some_iff]
  constructor
  · rintro ⟨rest, lead, ⟨target, field⟩, parts, found⟩
    split at found
    next same =>
      obtain ⟨rfl, clean⟩ := Split.rsplitOnce_eq_some.mp parts
      refine ⟨String.ofList field, by simpa using clean, ?_, (Option.some.inj found).symm⟩
      rw [← String.toList_inj, toList_artifact, Split.stripLead_eq_some.mp lead, ← same,
        String.toList_ofList, String.toList_ofList]
    next => cases found
  · rintro ⟨field, clean, rfl, rfl⟩
    refine ⟨former.toList ++ '.' :: field.toList, ?_, (former.toList, field.toList), ?_, ?_⟩
    · rw [toList_artifact, Split.stripLead_append]
    · exact Split.rsplitOnce_eq_some.mpr ⟨rfl, clean⟩
    · rw [String.ofList_toList, String.ofList_toList, if_pos rfl]

theorem parseReference_input (filled : id ≠ "") :
    parseReference ("inputs." ++ id) = some (.input id) := by
  have letters : id.toList ≠ [] := by simpa using filled
  rw [parseReference, Planner.toList_inputs, Split.stripLead_append]
  simp only [Planner.parseInputReference, if_neg letters, String.ofList_toList]

theorem stripLead_steps_artifacts (body : List Char) :
    stripLead stepsLead (artifactsLead ++ body) = none := Planner.stripLead_other (by decide) _ _

theorem parseReference_artifact (filled : id ≠ "") (named : field ≠ "")
    (clean : '.' ∉ field.toList) :
    parseReference ("artifacts." ++ id ++ "." ++ field) = some (.artifactField id field) := by
  have letters : ¬ (id.toList = [] ∨ field.toList = []) := by simpa using ⟨filled, named⟩
  have split : rsplitOnce '.' (id.toList ++ '.' :: field.toList) =
      some (id.toList, field.toList) := Split.rsplitOnce_eq_some.mpr ⟨rfl, clean⟩
  rw [parseReference, toList_artifact, Planner.stripLead_inputs_artifacts]
  simp only [stripLead_steps_artifacts, Split.stripLead_append, Planner.parseArtifactReference,
    split, if_neg letters, String.ofList_toList]

theorem parseReference_bare : parseReference ("artifacts." ++ id ++ "." ++ "") = none := by
  have split : rsplitOnce '.' (id.toList ++ ['.']) = some (id.toList, []) :=
    Split.rsplitOnce_eq_some.mpr ⟨rfl, List.not_mem_nil⟩
  rw [parseReference, toList_artifact, Planner.stripLead_inputs_artifacts]
  simp [stripLead_steps_artifacts, Planner.parseArtifactReference, split]

theorem spelling {parsed : RuntimeRef} (found : parseReference reference = some parsed) :
    (∃ id, parsed = .input id ∧ reference = "inputs." ++ id) ∨
    (∃ id field, parsed = .artifactField id field ∧ '.' ∉ field.toList ∧
      reference = "artifacts." ++ id ++ "." ++ field) ∨
    (∃ id, parsed = .stepShorthand id ∧ reference = "steps." ++ id) ∨
    ∃ id field, parsed = .stepOutput id field ∧ field ≠ "" ∧
      reference = "steps." ++ id ++ ".outputs." ++ field := by
  unfold parseReference at found
  split at found
  next target lead =>
    unfold Planner.parseInputReference at found
    split at found
    next => cases found
    next _ =>
      refine .inl ⟨_, (Option.some.inj found).symm, ?_⟩
      rw [← String.toList_inj, Planner.toList_inputs, String.toList_ofList,
        Split.stripLead_eq_some.mp lead]
  next =>
    split at found
    next body lead =>
      unfold Planner.parseStepReference at found
      split at found
      next target field parts =>
        split at found
        next => cases found
        next filled =>
          rw [not_or] at filled
          refine .inr (.inr (.inr ⟨_, _, (Option.some.inj found).symm, by simpa using filled.2, ?_⟩))
          rw [← String.toList_inj, toList_stepOutput, String.toList_ofList, String.toList_ofList,
            Split.stripLead_eq_some.mp lead, Split.splitOnce_sound parts]
      next _ =>
        split at found
        next => cases found
        next _ =>
          refine .inr (.inr (.inl ⟨_, (Option.some.inj found).symm, ?_⟩))
          rw [← String.toList_inj, toList_step, String.toList_ofList,
            Split.stripLead_eq_some.mp lead]
    next =>
      split at found
      next body lead =>
        unfold Planner.parseArtifactReference at found
        split at found
        next target field parts =>
          split at found
          next => cases found
          next _ =>
            obtain ⟨rfl, clean⟩ := Split.rsplitOnce_eq_some.mp parts
            refine .inr (.inl ⟨_, _, (Option.some.inj found).symm, by simpa using clean, ?_⟩)
            rw [← String.toList_inj, toList_artifact, String.toList_ofList, String.toList_ofList,
              Split.stripLead_eq_some.mp lead]
        next => cases found
      next => cases found

end

end EmuChef.Editor
