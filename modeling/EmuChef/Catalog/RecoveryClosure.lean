import EmuChef.Catalog.OpenDocuments
import EmuChef.Catalog.Rename
import Mathlib.Data.List.Dedup
import Mathlib.Data.String.Basic

/-! Recovery of an interrupted catalog change, and where its search for dependents agrees with the
rewriting. -/

namespace EmuChef.Catalog

open EmuChef.Authored
open Planner (ParamValue)
open Checks

inductive CatalogRefactorRecoveryIntent where
  | renameApp (appId newId : String)
  | renameArtifact (appId artifactId newId : String)
  | renameTarget (appId targetId newId : String)
  | deleteApp (appId : String)
  deriving DecidableEq

structure CatalogRefactorRecovery where
  intent : CatalogRefactorRecoveryIntent
  dependentFiles : List FilePath
  deriving DecidableEq

def durableRecoveryIntent : CatalogChangeIntent → CatalogRefactorRecoveryIntent
  | .renameApp appId newId => .renameApp appId newId
  | .renameArtifact appId artifactId newId => .renameArtifact appId artifactId newId
  | .renameTarget appId targetId newId => .renameTarget appId targetId newId
  | .deleteApp appId => .deleteApp appId

def discoverAppReferences (recipe : Authored.Recipe) (path appId : String) : List ReferenceSite :=
  (rewriteRecipe recipe path (.renameApp appId "__deleted_app__")).2

def conditionHasAppTarget (targetId : String) (condition : StepCondition) : Bool :=
  (condition.typeName = "path_exists" ∨ condition.typeName = "file_exists") &&
    match condition.params.get? "path" with
    | some (.object object) =>
        object.length = 1 ∧ ((Json.object object).field? "app_target").bind Json.asStr = some targetId
    | _ => false

def ParamValue.isAppTarget (targetId : String) : ParamValue → Bool
  | .appTarget target => target = targetId
  | _ => false

def RecipeArtifact.refersTo (appId artifactId : String) : RecipeArtifact → Bool
  | .appArtifact reference => reference.appRef = appId ∧ reference.artifact = artifactId
  | _ => false

def recoveryReferencesOldIdentity (recipe : Authored.Recipe) :
    CatalogRefactorRecoveryIntent → Bool
  | .renameApp appId _ | .deleteApp appId =>
      discoverAppReferences recipe "recipe.yaml" appId ≠ []
  | .renameArtifact appId artifactId _ =>
      recipe.artifacts.values.any (RecipeArtifact.refersTo appId artifactId)
  | .renameTarget appId targetId _ =>
      recipe.steps.any fun step =>
        step.appRef = some appId ∧
          (step.params.values.any (ParamValue.isAppTarget targetId) ||
            (step.skipIf ++ step.verify).any (conditionHasAppTarget targetId))

def reportedSites (recipe : Authored.Recipe) (path : String) (intent : CatalogChangeIntent) :
    List ReferenceSite :=
  match intent with
  | .deleteApp appId => discoverAppReferences recipe path appId
  | _ => (rewriteRecipe recipe path intent).2

def closureMessage (newlyAffected : List FilePath) : String :=
  "Catalog dependency closure changed during recovery; resolve new references at " ++
    String.intercalate ", " (newlyAffected.map (String.intercalate "/")) ++ "."

/-- The Recipe files of the catalog in order, each with its Recipe or why it cannot be read. -/
def validateRecoveryDependencyClosure (files : List (FilePath × Except String Authored.Recipe))
    (recovery : CatalogRefactorRecovery) : Except String Unit := do
  let recipes ← files.mapM fun file => file.2.map fun recipe => (file.1, recipe)
  let current := ((recipes.filter fun entry =>
    recoveryReferencesOldIdentity entry.2 recovery.intent).map Prod.fst).mergeSort
  let newlyAffected := current.dedup.filter fun path => !recovery.dependentFiles.contains path
  if newlyAffected = [] then .ok () else .error (closureMessage newlyAffected)

def ConditionNames (targetId : String) (condition : StepCondition) : Prop :=
  (condition.typeName = "path_exists" ∨ condition.typeName = "file_exists") ∧
    condition.params.get? "path" = some (.object [("app_target", .string targetId)])

def StepNames (appId targetId : String) (step : Step) : Prop :=
  step.appRef = some appId ∧
    ((∃ name, (name, ParamValue.appTarget targetId) ∈ step.params.entries) ∨
      ∃ condition ∈ step.skipIf ++ step.verify, ConditionNames targetId condition)

def ConfigurationNames (appId targetId : String) (configuration : RecipeConfiguration) : Prop :=
  configuration.appRef = appId ∧ configuration.target = targetId

def OnlyConfigured (recipe : Authored.Recipe) : CatalogChangeIntent → Prop
  | .renameTarget appId targetId _ =>
      (∃ configuration, recipe.config = some configuration ∧
        ConfigurationNames appId targetId configuration) ∧
      ¬∃ step ∈ recipe.steps, StepNames appId targetId step
  | _ => False

variable {recipe : Authored.Recipe} {path appId artifactId targetId newId : String}
  {intent : CatalogChangeIntent}

theorem single_field {object : List (String × Json)} :
    (object.length = 1 ∧ ((Json.object object).field? "app_target").bind Json.asStr = some targetId) ↔
      object = [("app_target", .string targetId)] := by
  constructor
  · rintro ⟨alone, found⟩
    obtain ⟨⟨key, value⟩, rfl⟩ := List.length_eq_one_iff.mp alone
    by_cases named : key = "app_target"
    · subst named
      simpa [Json.asStr_eq_some] using found
    · simp [named] at found
  · rintro rfl
    simp [Json.asStr]

theorem conditionHasAppTarget_iff {condition : StepCondition} :
    conditionHasAppTarget targetId condition = true ↔ ConditionNames targetId condition := by
  unfold conditionHasAppTarget ConditionNames
  rw [Bool.and_eq_true, decide_eq_true_eq]
  refine and_congr_right fun _ => ?_
  split
  · next object found => simp only [found, decide_eq_true_eq, single_field, Option.some.injEq,
      Json.object.injEq]
  · next other =>
      simp only [Bool.false_eq_true, false_iff]
      exact fun found => other _ found

theorem rewriteTargetCondition_sites {stepId collection : String} {condition : StepCondition}
    {index : Nat} :
    (rewriteTargetCondition path stepId collection targetId newId (condition, index)).2 ≠ [] ↔
      ConditionNames targetId condition := by
  unfold rewriteTargetCondition ConditionNames
  by_cases typed : condition.typeName = "path_exists" ∨ condition.typeName = "file_exists"
  · have kept : ¬(condition.typeName ≠ "path_exists" ∧ condition.typeName ≠ "file_exists") :=
      fun other => typed.elim other.1 other.2
    simp only [kept, ↓reduceIte, typed, true_and]
    split
    · next object found =>
        rw [found, Option.some.injEq, Json.object.injEq, ← single_field]
        by_cases named : object.length = 1 ∧
            ((Json.object object).field? "app_target").bind Json.asStr = some targetId
        · simp [named]
        · rw [if_pos (not_and_or.mp named)]
          simp [named]
    · next other =>
        simp only [ne_eq, not_true_eq_false, false_iff]
        exact fun found => other _ found
  · have other : condition.typeName ≠ "path_exists" ∧ condition.typeName ≠ "file_exists" :=
      not_or.mp typed
    simp [other]

theorem flatMap_ne_nil {α β : Type} {items : List α} {pieces : α → List β} :
    items.flatMap pieces ≠ [] ↔ ∃ item ∈ items, pieces item ≠ [] := by
  simp [List.flatMap_eq_nil_iff]

theorem rewriteTargetConditions_sites {conditions : List StepCondition} {stepId collection : String} :
    (rewriteTargetConditions conditions path stepId collection targetId newId).2 ≠ [] ↔
      ∃ condition ∈ conditions, ConditionNames targetId condition := by
  rw [rewriteTargetConditions, List.flatMap_map, flatMap_ne_nil]
  constructor
  · rintro ⟨⟨condition, index⟩, listed, named⟩
    exact ⟨condition, (List.mem_zipIdx' listed).2 ▸ List.getElem_mem _,
      rewriteTargetCondition_sites.mp named⟩
  · rintro ⟨condition, listed, named⟩
    obtain ⟨index, bound, rfl⟩ := List.getElem_of_mem listed
    exact ⟨(conditions[index], index), List.mk_mem_zipIdx_iff_getElem?.mpr (List.getElem?_eq_getElem bound),
      rewriteTargetCondition_sites.mpr named⟩

theorem rewriteTargetParam_sites {stepId parameter : String} {value : ParamValue} :
    (rewriteTargetParam path stepId targetId newId parameter value).2 ≠ [] ↔
      value = .appTarget targetId := by
  unfold rewriteTargetParam
  split
  · next target =>
      by_cases same : target = targetId
      · simp [same]
      · simp [same]
  · next other =>
      simp only [ne_eq, not_true_eq_false, false_iff]
      exact other targetId

theorem rewriteStep_target_sites {step : Step} :
    (rewriteStep path (.renameTarget appId targetId newId) step).2 ≠ [] ↔
      StepNames appId targetId step := by
  unfold rewriteStep StepNames
  by_cases owned : step.appRef = some appId
  · simp only [owned, ne_eq, not_true_eq_false, ↓reduceIte, true_and]
    rw [List.append_assoc, List.append_eq_nil_iff, List.append_eq_nil_iff, not_and_or, not_and_or]
    refine or_congr (flatMap_ne_nil.trans ?_) ?_
    · constructor
      · rintro ⟨⟨name, value⟩, listed, named⟩
        exact ⟨name, rewriteTargetParam_sites.mp named ▸ listed⟩
      · rintro ⟨name, listed⟩
        exact ⟨_, listed, rewriteTargetParam_sites.mpr rfl⟩
    · refine (or_congr rewriteTargetConditions_sites rewriteTargetConditions_sites).trans ?_
      simp only [List.mem_append, or_and_right, exists_or]
  · simp [owned]

theorem rewriteArtifact_sites {localId : String} {artifact : RecipeArtifact} :
    (rewriteArtifact path (.renameArtifact appId artifactId newId) localId artifact).2 ≠ [] ↔
      RecipeArtifact.refersTo appId artifactId artifact = true := by
  cases artifact with
  | remoteFile url cache => simp [rewriteArtifact, RecipeArtifact.refersTo]
  | appArtifact reference =>
      by_cases named : reference.appRef = appId ∧ reference.artifact = artifactId
      · simp [rewriteArtifact, RecipeArtifact.refersTo, named]
      · simp [rewriteArtifact, RecipeArtifact.refersTo, named]

theorem rewriteRecipe_sites : (rewriteRecipe recipe path intent).2 ≠ [] ↔
    (∃ entry ∈ recipe.artifacts.entries, (rewriteArtifact path intent entry.1 entry.2).2 ≠ []) ∨
      (∃ step ∈ recipe.steps, (rewriteStep path intent step).2 ≠ []) ∨
        ∃ configuration, recipe.config = some configuration ∧
          (rewriteConfiguration path intent configuration).2 ≠ [] := by
  rw [rewriteRecipe, List.append_assoc, ne_eq, List.append_eq_nil_iff, List.append_eq_nil_iff,
    not_and_or, not_and_or, List.flatMap_map]
  refine or_congr flatMap_ne_nil (or_congr flatMap_ne_nil ?_)
  cases recipe.config with
  | none => simp
  | some configuration => simp

theorem app_sites {other newer : String} :
    (rewriteRecipe recipe path (.renameApp appId newId)).2 ≠ [] ↔
      (rewriteRecipe recipe other (.renameApp appId newer)).2 ≠ [] := by
  rw [rewriteRecipe_sites, rewriteRecipe_sites]
  refine or_congr ?_ (or_congr ?_ ?_)
  · refine exists_congr fun entry => and_congr_right fun _ => ?_
    cases entry.2 with
    | remoteFile url cache => simp [rewriteArtifact]
    | appArtifact reference =>
        by_cases named : reference.appRef = appId
        · simp [rewriteArtifact, named]
        · simp [rewriteArtifact, named]
  · refine exists_congr fun step => and_congr_right fun _ => ?_
    by_cases named : step.appRef = some appId
    · simp [rewriteStep, named]
    · simp [rewriteStep, named]
  · refine exists_congr fun configuration => and_congr_right fun _ => ?_
    by_cases named : configuration.appRef = appId
    · simp [rewriteConfiguration, named]
    · simp [rewriteConfiguration, named]

theorem artifact_sites :
    (rewriteRecipe recipe path (.renameArtifact appId artifactId newId)).2 ≠ [] ↔
      ∃ artifact ∈ recipe.artifacts.values, RecipeArtifact.refersTo appId artifactId artifact := by
  rw [rewriteRecipe_sites]
  simp only [rewriteArtifact_sites, rewriteStep, rewriteConfiguration, ne_eq, not_true_eq_false,
    and_false, exists_false, or_false, OrderedMap.values, List.mem_map]
  constructor
  · rintro ⟨entry, listed, refers⟩
    exact ⟨entry.2, ⟨entry, listed, rfl⟩, refers⟩
  · rintro ⟨_, ⟨entry, listed, rfl⟩, refers⟩
    exact ⟨entry, listed, refers⟩

theorem target_sites :
    (rewriteRecipe recipe path (.renameTarget appId targetId newId)).2 ≠ [] ↔
      (∃ step ∈ recipe.steps, StepNames appId targetId step) ∨
        ∃ configuration, recipe.config = some configuration ∧
          ConfigurationNames appId targetId configuration := by
  rw [rewriteRecipe_sites]
  have none (entry : String × RecipeArtifact) :
      (rewriteArtifact path (.renameTarget appId targetId newId) entry.1 entry.2).2 = [] := by
    cases entry.2 with
    | remoteFile url cache => rfl
    | appArtifact reference => rfl
  have configured (configuration : RecipeConfiguration) :
      (rewriteConfiguration path (.renameTarget appId targetId newId) configuration).2 ≠ [] ↔
        ConfigurationNames appId targetId configuration := by
    by_cases named : configuration.appRef = appId ∧ configuration.target = targetId
    · simp [rewriteConfiguration, ConfigurationNames, named]
    · simp [rewriteConfiguration, ConfigurationNames, named]
  simp only [none, rewriteStep_target_sites, configured, ne_eq, not_true_eq_false, and_false,
    exists_false, false_or]

section

theorem recovery_target :
    recoveryReferencesOldIdentity recipe (.renameTarget appId targetId newId) = true ↔
      ∃ step ∈ recipe.steps, StepNames appId targetId step := by
  have named (value : ParamValue) :
      ParamValue.isAppTarget targetId value = true ↔ value = .appTarget targetId := by
    cases value <;> simp [ParamValue.isAppTarget]
  rw [recoveryReferencesOldIdentity, List.any_eq_true]
  simp only [decide_eq_true_eq, Bool.or_eq_true, List.any_eq_true, named,
    conditionHasAppTarget_iff]
  simp only [StepNames, OrderedMap.values, List.mem_map]
  refine exists_congr fun step => and_congr_right fun _ => and_congr_right fun _ => or_congr ?_ Iff.rfl
  constructor
  · rintro ⟨_, ⟨entry, listed, rfl⟩, held⟩
    exact ⟨entry.1, held ▸ listed⟩
  · rintro ⟨name, listed⟩
    exact ⟨_, ⟨_, listed, rfl⟩, rfl⟩

def RecoverySees (recipe : Authored.Recipe) (path : String) (intent : CatalogChangeIntent) : Prop :=
  recoveryReferencesOldIdentity recipe (durableRecoveryIntent intent) = true ↔
    reportedSites recipe path intent ≠ []

theorem recoverySees_iff : RecoverySees recipe path intent ↔ ¬OnlyConfigured recipe intent := by
  unfold RecoverySees
  cases intent with
  | renameApp appId newId =>
      simp only [durableRecoveryIntent, recoveryReferencesOldIdentity, decide_eq_true_eq,
        OnlyConfigured, not_false_eq_true, iff_true]
      exact app_sites
  | renameArtifact appId artifactId newId =>
      simp only [durableRecoveryIntent, recoveryReferencesOldIdentity, reportedSites,
        List.any_eq_true, OnlyConfigured, not_false_eq_true, iff_true]
      exact artifact_sites.symm
  | renameTarget appId targetId newId =>
      have reported : reportedSites recipe path (.renameTarget appId targetId newId) =
          (rewriteRecipe recipe path (.renameTarget appId targetId newId)).2 := rfl
      rw [durableRecoveryIntent, recovery_target, reported, target_sites, OnlyConfigured]
      by_cases inSteps : ∃ step ∈ recipe.steps, StepNames appId targetId step
      · simp [inSteps]
      · simp [inSteps]
  | deleteApp appId =>
      simp only [durableRecoveryIntent, recoveryReferencesOldIdentity, decide_eq_true_eq,
        OnlyConfigured, not_false_eq_true, iff_true]
      exact app_sites

variable {files : List (FilePath × Except String Authored.Recipe)} {recovery : CatalogRefactorRecovery}
  {file : FilePath}

theorem validate_stops (listed : (file, .ok recipe) ∈ files) (added : file ∉ recovery.dependentFiles)
    (found : recoveryReferencesOldIdentity recipe recovery.intent = true) :
    ∃ message, validateRecoveryDependencyClosure files recovery = .error message := by
  cases outcome : validateRecoveryDependencyClosure files recovery with
  | error message => exact ⟨message, rfl⟩
  | ok done =>
      obtain ⟨recipes, loaded, checked⟩ := bind_eq_ok.mp outcome
      obtain ⟨entry, held, parsed⟩ := mem_right_of_forall₂ (mapM_eq_ok.mp loaded) listed
      obtain rfl : (file, recipe) = entry := by simpa [Except.map] using parsed
      have current : file ∈ ((recipes.filter fun entry =>
          recoveryReferencesOldIdentity entry.2 recovery.intent).map Prod.fst).mergeSort := by
        rw [(List.mergeSort_perm _ _).mem_iff]
        exact List.mem_map.mpr ⟨_, List.mem_filter.mpr ⟨held, found⟩, rfl⟩
      have affected : file ∈ (((recipes.filter fun entry =>
          recoveryReferencesOldIdentity entry.2 recovery.intent).map Prod.fst).mergeSort).dedup.filter
            fun path => !recovery.dependentFiles.contains path :=
        List.mem_filter.mpr ⟨List.mem_dedup.mpr current, by simpa using added⟩
      simp only at checked
      rw [if_neg (List.ne_nil_of_mem affected)] at checked
      cases checked

/-- A Recipe that the preview did not list and that names the old identity always stops recovery. -/
def RecoveryStops (recipe : Authored.Recipe) (path : String) (intent : CatalogChangeIntent) : Prop :=
  ∀ files recovery file, recovery.intent = durableRecoveryIntent intent →
    (file, Except.ok recipe) ∈ files → file ∉ recovery.dependentFiles →
    reportedSites recipe path intent ≠ [] →
    ∃ message, validateRecoveryDependencyClosure files recovery = .error message

/-- Recovery and rewriting agree on a Recipe, unless the change renames a target that it names in
its configuration block alone: then it is reported as a dependent and does not stop recovery. -/
theorem recovery_sees_iff_not_onlyConfigured (recipe : Authored.Recipe) (path : String)
    (intent : CatalogChangeIntent) :
    (RecoverySees recipe path intent ∧ RecoveryStops recipe path intent) ↔
      ¬OnlyConfigured recipe intent := by
  rw [← @recoverySees_iff recipe path intent, and_iff_left_iff_imp]
  intro sees files recovery file recovered listed added reported
  exact validate_stops listed added (recovered ▸ sees.mpr reported)

def configuredRecipe : Authored.Recipe :=
  { savesRecipe with
    config := some ⟨"emulator", "main", "saves", .template "default", .empty, []⟩
    steps := [] }

theorem recovery_misses_configuration :
    reportedSites configuredRecipe "recipes/saves.yaml" (.renameTarget "emulator" "saves" "states") =
        [⟨"recipes/saves.yaml", "config", "target"⟩] ∧
      ¬RecoverySees configuredRecipe "recipes/saves.yaml" (.renameTarget "emulator" "saves" "states") ∧
      validateRecoveryDependencyClosure [(["recipes", "saves.yaml"], .ok configuredRecipe)]
        ⟨.renameTarget "emulator" "saves" "states", []⟩ = .ok () := by
  have reported : reportedSites configuredRecipe "recipes/saves.yaml"
      (.renameTarget "emulator" "saves" "states") =
        [⟨"recipes/saves.yaml", "config", "target"⟩] := by decide
  have quiet : recoveryReferencesOldIdentity configuredRecipe
      (.renameTarget "emulator" "saves" "states") = false := by decide
  refine ⟨reported, ?_, ?_⟩
  · rw [RecoverySees, durableRecoveryIntent, quiet, reported]
    simp
  · refine bind_eq_ok.mpr ⟨[(["recipes", "saves.yaml"], configuredRecipe)], rfl, ?_⟩
    simp [quiet]

end

end EmuChef.Catalog
