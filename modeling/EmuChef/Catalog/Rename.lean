import EmuChef.Authored.References

/-! Renaming an identity of an App Definition throughout the catalog. -/

namespace EmuChef.Catalog

open EmuChef.Authored
open Planner (ParamValue)

inductive CatalogChangeIntent where
  | renameApp (appId newId : String)
  | renameArtifact (appId artifactId newId : String)
  | renameTarget (appId targetId newId : String)
  | deleteApp (appId : String)
  deriving DecidableEq

def rewriteArtifact (path : String) (intent : CatalogChangeIntent) (localId : String) :
    RecipeArtifact → RecipeArtifact × List ReferenceSite
  | .remoteFile url cache => (.remoteFile url cache, [])
  | .appArtifact reference =>
      match intent with
      | .renameApp appId newId =>
          if reference.appRef = appId then
            (.appArtifact { reference with appRef := newId },
              [⟨path, "artifacts." ++ localId, "app_ref"⟩])
          else (.appArtifact reference, [])
      | .renameArtifact appId artifactId newId =>
          if reference.appRef = appId ∧ reference.artifact = artifactId then
            (.appArtifact { reference with artifact := newId },
              [⟨path, "artifacts." ++ localId, "artifact"⟩])
          else (.appArtifact reference, [])
      | _ => (.appArtifact reference, [])

def rewriteTargetParam (path stepId targetId newId parameter : String) :
    ParamValue → ParamValue × List ReferenceSite
  | .appTarget value =>
      if value = targetId then
        (.appTarget newId, [⟨path, "steps." ++ stepId, "params." ++ parameter⟩])
      else (.appTarget value, [])
  | other => (other, [])

def rewriteTargetCondition (path stepId collection targetId newId : String) :
    StepCondition × Nat → StepCondition × List ReferenceSite
  | (condition, index) =>
      if condition.typeName ≠ "path_exists" ∧ condition.typeName ≠ "file_exists" then
        (condition, [])
      else
        match condition.params.get? "path" with
        | some (.object object) =>
            if object.length ≠ 1 ∨
                ((Json.object object).field? "app_target").bind Json.asStr ≠ some targetId then
              (condition, [])
            else
              ({ condition with
                  params := condition.params.insert "path"
                    (.object (OrderedMap.storeEntry object "app_target" (.string newId))) },
                [⟨path, "steps." ++ stepId ++ "." ++ collection ++ "[" ++ toString index ++ "]",
                  "params.path"⟩])
        | _ => (condition, [])

def rewriteTargetConditions (conditions : List StepCondition)
    (path stepId collection targetId newId : String) : List StepCondition × List ReferenceSite :=
  let rewritten := conditions.zipIdx.map
    (rewriteTargetCondition path stepId collection targetId newId)
  (rewritten.map Prod.fst, rewritten.flatMap Prod.snd)

def rewriteStep (path : String) (intent : CatalogChangeIntent) (step : Step) :
    Step × List ReferenceSite :=
  match intent with
  | .renameApp appId newId =>
      if step.appRef = some appId then
        ({ step with appRef := some newId }, [⟨path, "steps." ++ step.id, "app_ref"⟩])
      else (step, [])
  | .renameTarget appId targetId newId =>
      if step.appRef ≠ some appId then (step, [])
      else
        let rewriteParam := rewriteTargetParam path step.id targetId newId
        let skipIf := rewriteTargetConditions step.skipIf path step.id "skip_if" targetId newId
        let verify := rewriteTargetConditions step.verify path step.id "verify" targetId newId
        ({ step with
            params := step.params.mapValues fun parameter value => (rewriteParam parameter value).1
            skipIf := skipIf.1
            verify := verify.1 },
          (step.params.entries.flatMap fun entry => (rewriteParam entry.1 entry.2).2) ++
            skipIf.2 ++ verify.2)
  | _ => (step, [])

def rewriteConfiguration (path : String) (intent : CatalogChangeIntent)
    (configuration : RecipeConfiguration) : RecipeConfiguration × List ReferenceSite :=
  match intent with
  | .renameApp appId newId =>
      if configuration.appRef = appId then
        ({ configuration with appRef := newId }, [⟨path, "config", "app_ref"⟩])
      else (configuration, [])
  | .renameTarget appId targetId newId =>
      if configuration.appRef = appId ∧ configuration.target = targetId then
        ({ configuration with target := newId }, [⟨path, "config", "target"⟩])
      else (configuration, [])
  | _ => (configuration, [])

def rewriteRecipe (recipe : Authored.Recipe) (path : String) (intent : CatalogChangeIntent) :
    Authored.Recipe × List ReferenceSite :=
  let steps := recipe.steps.map (rewriteStep path intent)
  let config := recipe.config.map (rewriteConfiguration path intent)
  ({ recipe with
      artifacts := recipe.artifacts.mapValues fun localId artifact =>
        (rewriteArtifact path intent localId artifact).1
      steps := steps.map Prod.fst
      config := config.map Prod.fst },
    (recipe.artifacts.entries.flatMap fun entry =>
        (rewriteArtifact path intent entry.1 entry.2).2) ++
      steps.flatMap Prod.snd ++ config.toList.flatMap Prod.snd)

def renameKey {α : Type} (values : OrderedMap String α) (source destination : String) :
    Option (OrderedMap String α) :=
  if source = destination ∨ values.contains destination then none
  else
    match values.indexOf? source, values.get? source with
    | some index, some value => some ((values.erase source).shiftInsert index destination value)
    | _, _ => none

def appHasConfigurationTemplates (app : AppDefinition) : Bool :=
  app.configurations.values.any fun configuration => ¬configuration.templates.entries.isEmpty

def rewriteAppDefinition (app : AppDefinition) (intent : CatalogChangeIntent) :
    Option AppDefinition :=
  match intent with
  | .renameApp appId newId =>
      if app.id ≠ appId then none
      else if appHasConfigurationTemplates app then none
      else some { app with id := newId }
  | .renameArtifact appId artifactId newId =>
      if app.id ≠ appId then none
      else (renameKey app.artifacts artifactId newId).map fun artifacts =>
        { app with artifacts := artifacts }
  | .renameTarget appId targetId newId =>
      if app.id ≠ appId then none
      else (renameKey app.targets targetId newId).map fun targets =>
        { app with
          targets := targets
          configurations := app.configurations.mapValues fun _ configuration =>
            if configuration.target = targetId then { configuration with target := newId }
            else configuration }
  | .deleteApp appId => if app.id = appId then some app else none

section

namespace CatalogChangeIntent

def names : CatalogChangeIntent → Renaming
  | renameApp appId newId =>
      { app := fun id => if id = appId then newId else id
        artifact := fun _ id => id
        target := fun _ id => id }
  | renameArtifact appId artifactId newId =>
      { app := fun id => id
        artifact := fun app id => if app = appId ∧ id = artifactId then newId else id
        target := fun _ id => id }
  | renameTarget appId targetId newId =>
      { app := fun id => id
        artifact := fun _ id => id
        target := fun app id => if app = some appId ∧ id = targetId then newId else id }
  | deleteApp _ =>
      { app := fun id => id
        artifact := fun _ id => id
        target := fun _ id => id }

def identities : CatalogChangeIntent → Option (TypedReference × TypedReference)
  | renameApp appId newId => some (.app appId, .app newId)
  | renameArtifact appId artifactId newId =>
      some (.artifact appId artifactId, .artifact appId newId)
  | renameTarget appId targetId newId =>
      some (.target (some appId) targetId, .target (some appId) newId)
  | deleteApp _ => none

def inverse : CatalogChangeIntent → CatalogChangeIntent
  | renameApp appId newId => renameApp newId appId
  | renameArtifact appId artifactId newId => renameArtifact appId newId artifactId
  | renameTarget appId targetId newId => renameTarget appId newId targetId
  | deleteApp appId => deleteApp appId

def appId : CatalogChangeIntent → String
  | renameApp appId _ => appId
  | renameArtifact appId _ _ => appId
  | renameTarget appId _ _ => appId
  | deleteApp appId => appId

end CatalogChangeIntent

variable {intent : CatalogChangeIntent} {fresh old : TypedReference}

theorem names_app_of_ne {id : String} (other : id ≠ intent.appId) : intent.names.app id = id := by
  cases intent with
  | renameApp appId newId => exact if_neg other
  | renameArtifact appId artifactId newId => rfl
  | renameTarget appId targetId newId => rfl
  | deleteApp appId => rfl

theorem names_artifact_of_ne {holder id : String} (other : holder ≠ intent.appId) :
    intent.names.artifact holder id = id := by
  cases intent with
  | renameApp appId newId => rfl
  | renameArtifact appId artifactId newId => exact if_neg fun met => other met.1
  | renameTarget appId targetId newId => rfl
  | deleteApp appId => rfl

theorem names_target_of_ne {holder : Option String} {id : String}
    (other : holder ≠ some intent.appId) : intent.names.target holder id = id := by
  cases intent with
  | renameApp appId newId => rfl
  | renameArtifact appId artifactId newId => rfl
  | renameTarget appId targetId newId => exact if_neg fun met => other met.1
  | deleteApp appId => rfl

theorem image_of_other_owner {reference : TypedReference}
    (other : reference.owner ≠ some intent.appId) : intent.names.image reference = reference := by
  cases reference with
  | app id =>
      have apart : id ≠ intent.appId := fun same => other (congrArg some same)
      rw [Renaming.image, names_app_of_ne apart]
  | artifact holder id =>
      have apart : holder ≠ intent.appId := fun same => other (congrArg some same)
      rw [Renaming.image, names_app_of_ne apart, names_artifact_of_ne apart]
  | target holder id =>
      have kept : intent.names.target holder id = id := names_target_of_ne other
      rw [Renaming.image, kept]
      cases holder with
      | none => rfl
      | some holder =>
          have apart : holder ≠ intent.appId := fun same => other (congrArg some same)
          rw [Option.map_some, names_app_of_ne apart]

end

section

variable {names : Renaming} {α : Type}

def changedSites (names : Renaming) (references : List (ReferenceSite × TypedReference)) :
    List ReferenceSite :=
  (references.filter fun entry => (names.image entry.2).text ≠ entry.2.text).map Prod.fst

@[simp] theorem changedSites_append {first second : List (ReferenceSite × TypedReference)} :
    changedSites names (first ++ second) = changedSites names first ++ changedSites names second := by
  simp [changedSites]

theorem changedSites_flatMap {items : List α} {references : α → List (ReferenceSite × TypedReference)} :
    changedSites names (items.flatMap references) =
      items.flatMap fun item => changedSites names (references item) := by
  simp only [changedSites, List.filter_flatMap, List.map_flatMap]

theorem changedSites_filterMap {items : List α} {reference : α → Option (ReferenceSite × TypedReference)} :
    changedSites names (items.filterMap reference) =
      items.flatMap fun item => changedSites names (reference item).toList := by
  rw [← changedSites_flatMap]
  congr 1
  induction items with
  | nil => rfl
  | cons item rest ih =>
      cases found : reference item with
      | none => simp [found, ih]
      | some entry => simp [found, ih]

theorem changedSites_eq_nil {references : List (ReferenceSite × TypedReference)}
    (same : ∀ entry ∈ references, (names.image entry.2).text = entry.2.text) :
    changedSites names references = [] := by
  rw [changedSites, List.map_eq_nil_iff, List.filter_eq_nil_iff]
  intro entry member
  simp [same entry member]

end

section

variable {intent : CatalogChangeIntent} {path stepId : String}

attribute [local simp] changedSites CatalogChangeIntent.names Renaming.image TypedReference.text
  rewriteArtifact RecipeArtifact.rename RecipeArtifact.references
  rewriteConfiguration RecipeConfiguration.rename RecipeConfiguration.references

def CatalogChangeIntent.Distinct (intent : CatalogChangeIntent) : Prop :=
  ∀ pair, intent.identities = some pair → pair.1 ≠ pair.2

theorem rewriteArtifact_eq (distinct : intent.Distinct) {localId : String} {artifact : RecipeArtifact} :
    rewriteArtifact path intent localId artifact =
      (artifact.rename intent.names, changedSites intent.names (artifact.references path localId)) := by
  cases artifact with
  | remoteFile url cache => rfl
  | appArtifact reference =>
      cases intent with
      | renameApp appId newId =>
          have apart : newId ≠ appId := fun same => distinct _ rfl (congrArg _ same.symm)
          by_cases same : reference.appRef = appId
          · simp [same, apart]
          · simp [same]
      | renameArtifact appId artifactId newId =>
          have apart : newId ≠ artifactId := fun same => distinct _ rfl (congrArg _ same.symm)
          by_cases same : reference.appRef = appId ∧ reference.artifact = artifactId
          · simp [same, apart]
          · simp [same]
      | renameTarget appId targetId newId =>
          simp
      | deleteApp appId =>
          simp

section

variable (appId : String) {targetId newId : String}

theorem rewriteTargetParam_eq (apart : targetId ≠ newId) {parameter : String} {value : ParamValue} :
    rewriteTargetParam path stepId targetId newId parameter value =
      (renameParam (CatalogChangeIntent.renameTarget appId targetId newId).names (some appId) value,
        changedSites (CatalogChangeIntent.renameTarget appId targetId newId).names
          (paramReference path stepId (some appId) parameter value).toList) := by
  cases value with
  | ref reference => rfl
  | literal value => rfl
  | appTarget id =>
      by_cases same : id = targetId
      · simp [rewriteTargetParam, renameParam, paramReference, same, apart.symm]
      · simp [rewriteTargetParam, renameParam, paramReference, same]

theorem rewriteTargetCondition_of_ne {collection : String} {condition : StepCondition} {index : Nat}
    (other : condition.target? ≠ some targetId) :
    rewriteTargetCondition path stepId collection targetId newId (condition, index) =
      (condition, []) := by
  simp only [rewriteTargetCondition]
  split
  next _ => rfl
  next existence =>
    split
    next object held =>
      split
      next _ => rfl
      next named =>
        exfalso
        rw [not_or, not_not, not_not] at named
        obtain ⟨field, rfl⟩ := List.length_eq_one_iff.mp named.1
        obtain ⟨name, value⟩ := field
        have existence' : condition.typeName = "path_exists" ∨ condition.typeName = "file_exists" := by
          tauto
        by_cases same : name = "app_target"
        · have value_eq : value = .string targetId := by
            simpa [same, Json.asStr_eq_some] using named
          simp [StepCondition.target?, existence', held, same, value_eq] at other
        · simp [same] at named
    next _ => rfl

theorem rewriteTargetCondition_of_eq {collection : String} {condition : StepCondition} {index : Nat}
    (tested : condition.target? = some targetId) :
    rewriteTargetCondition path stepId collection targetId newId (condition, index) =
      ({ condition with
          params := condition.params.insert "path" (.object [("app_target", .string newId)]) },
        [⟨path, "steps." ++ stepId ++ "." ++ collection ++ "[" ++ toString index ++ "]",
          "params.path"⟩]) := by
  have existence : ¬(condition.typeName ≠ "path_exists" ∧ condition.typeName ≠ "file_exists") := by
    intro other
    simp [StepCondition.target?, other] at tested
  have held := StepCondition.path_of_target tested
  rw [rewriteTargetCondition, if_neg existence]
  simp [held, Json.asStr, OrderedMap.storeEntry]

theorem rewriteTargetConditions_eq (apart : targetId ≠ newId) {collection : String}
    {conditions : List StepCondition} :
    rewriteTargetConditions conditions path stepId collection targetId newId =
      (conditions.map (·.rename (CatalogChangeIntent.renameTarget appId targetId newId).names
          (some appId)),
        changedSites (CatalogChangeIntent.renameTarget appId targetId newId).names
          (conditionReferences path stepId collection (some appId) conditions)) := by
  have each : ∀ entry : StepCondition × Nat,
      rewriteTargetCondition path stepId collection targetId newId entry =
        (entry.1.rename (CatalogChangeIntent.renameTarget appId targetId newId).names (some appId),
          changedSites (CatalogChangeIntent.renameTarget appId targetId newId).names
            (entry.1.target?.map fun id =>
              (⟨path, "steps." ++ stepId ++ "." ++ collection ++ "[" ++ toString entry.2 ++ "]",
                "params.path"⟩, .target (some appId) id)).toList) := by
    rintro ⟨condition, index⟩
    by_cases tested : condition.target? = some targetId
    · rw [rewriteTargetCondition_of_eq tested]
      simp [StepCondition.rename, tested, apart.symm]
    · rw [rewriteTargetCondition_of_ne tested]
      have kept : condition.rename (CatalogChangeIntent.renameTarget appId targetId newId).names
          (some appId) = condition := by
        refine StepCondition.rename_eq_self fun id found => ?_
        have different : id ≠ targetId := fun same => tested (same ▸ found)
        exact if_neg fun met => different met.2
      rw [kept]
      cases found : condition.target? with
      | none => rfl
      | some id =>
          have different : id ≠ targetId := fun same => tested (same ▸ found)
          simp [different]
  simp only [rewriteTargetConditions, conditionReferences, changedSites_filterMap, Prod.mk.injEq,
    List.map_map, List.flatMap_map]
  constructor
  · have forget := List.map_map (g := StepCondition.rename
        (CatalogChangeIntent.renameTarget appId targetId newId).names (some appId)) (f := Prod.fst)
        (l := conditions.zipIdx)
    rw [List.zipIdx_map_fst] at forget
    rw [forget]
    exact List.map_congr_left fun entry _ => congrArg Prod.fst (each entry)
  · exact List.flatMap_congr fun entry _ => congrArg Prod.snd (each entry)

end

theorem changedSites_targets {names : Renaming} (fixed : ∀ holder id, names.target holder id = id)
    {step : Step} : changedSites names (step.targetReferences path) = [] := by
  refine changedSites_eq_nil fun entry found => ?_
  obtain ⟨id, same⟩ := Step.target_of_mem found
  rw [same]
  exact fixed _ id

theorem untouched_step {names : Renaming} {step : Step}
    (fixed : ∀ entry ∈ step.references path, names.image entry.2 = entry.2) :
    (step, []) = (step.rename names, changedSites names (step.references path)) := by
  have silent : changedSites names (step.references path) = [] :=
    changedSites_eq_nil fun entry found => by rw [fixed entry found]
  rw [Step.rename_eq_self path fixed, silent]

theorem rewriteStep_eq (distinct : intent.Distinct) {step : Step} :
    rewriteStep path intent step =
      (step.rename intent.names, changedSites intent.names (step.references path)) := by
  have identity : (∀ id, intent.names.app id = id) → (∀ holder id, intent.names.target holder id = id) →
      (step, []) = (step.rename intent.names, changedSites intent.names (step.references path)) := by
    intro apps targets
    refine untouched_step fun entry found => ?_
    obtain named | target := List.mem_append.mp found
    · obtain ⟨app, _, rfl⟩ := List.mem_map.mp named
      exact congrArg TypedReference.app (apps app)
    · obtain ⟨id, same⟩ := Step.target_of_mem target
      have kept : step.appRef.map intent.names.app = step.appRef := by
        cases step.appRef with
        | none => rfl
        | some app => rw [Option.map_some, apps]
      rw [same, Renaming.image, targets, kept]
  cases intent with
  | renameApp appId newId =>
      have apart : newId ≠ appId := fun same => distinct _ rfl (congrArg _ same.symm)
      by_cases named : step.appRef = some appId
      · rw [rewriteStep, if_pos named, Step.rename_of_target fun _ _ => rfl, Step.references,
          changedSites_append, changedSites_targets fun _ _ => rfl]
        simp [named, apart]
      · rw [rewriteStep, if_neg named]
        refine untouched_step fun entry found => image_of_other_owner ?_
        rwa [Step.owner_of_mem found]
  | renameArtifact appId artifactId newId => exact identity (fun _ => rfl) (fun _ _ => rfl)
  | renameTarget appId targetId newId =>
      have apart : targetId ≠ newId := fun same => distinct _ rfl (congrArg _ same)
      by_cases named : step.appRef = some appId
      · have sites : changedSites (CatalogChangeIntent.renameTarget appId targetId newId).names
            (step.appRef.toList.map fun app => (⟨path, "steps." ++ step.id, "app_ref"⟩, .app app)) =
            [] := by
          refine changedSites_eq_nil fun entry found => ?_
          obtain ⟨app, _, rfl⟩ := List.mem_map.mp found
          rfl
        have kept : step.appRef.map
            (CatalogChangeIntent.renameTarget appId targetId newId).names.app = some appId := by
          rw [named]
          rfl
        rw [rewriteStep, if_neg (not_not.mpr named), Step.references, Step.targetReferences,
          changedSites_append, sites, Step.rename, kept]
        simp only [named, rewriteTargetConditions_eq appId apart, rewriteTargetParam_eq appId apart,
          changedSites_append, changedSites_filterMap, List.nil_append]
      · rw [rewriteStep, if_pos named]
        refine untouched_step fun entry found => image_of_other_owner ?_
        rwa [Step.owner_of_mem found]
  | deleteApp appId => exact identity (fun _ => rfl) (fun _ _ => rfl)

theorem rewriteConfiguration_eq (distinct : intent.Distinct) {configuration : RecipeConfiguration} :
    rewriteConfiguration path intent configuration =
      (configuration.rename intent.names,
        changedSites intent.names (configuration.references path)) := by
  cases intent with
  | renameApp appId newId =>
      have apart : newId ≠ appId := fun same => distinct _ rfl (congrArg _ same.symm)
      by_cases same : configuration.appRef = appId
      · simp [same, apart]
      · simp [same]
  | renameArtifact appId artifactId newId =>
      simp
  | renameTarget appId targetId newId =>
      have apart : newId ≠ targetId := fun same => distinct _ rfl (congrArg _ same.symm)
      by_cases same : configuration.appRef = appId ∧ configuration.target = targetId
      · simp [same, apart]
      · simp [same]
  | deleteApp appId =>
      simp

theorem rewriteRecipe_eq (distinct : intent.Distinct) {recipe : Authored.Recipe} :
    rewriteRecipe recipe path intent =
      (recipe.rename intent.names, changedSites intent.names (recipe.references path)) := by
  simp only [rewriteRecipe, Authored.Recipe.rename, Authored.Recipe.references, rewriteArtifact_eq distinct,
    rewriteStep_eq distinct, rewriteConfiguration_eq distinct, changedSites_append,
    changedSites_flatMap, List.map_map, List.flatMap_map, Option.map_map, Option.toList_map,
    Function.comp_def]

end

section

variable {α : Type} {values renamed : OrderedMap String α} {source destination : String}

theorem renameKey_eq_some :
    renameKey values source destination = some renamed ↔
      source ≠ destination ∧ destination ∉ values.keys ∧ source ∈ values.keys ∧
        renamed.entries = values.entries.map fun entry =>
          (if entry.1 = source then destination else entry.1, entry.2) := by
  by_cases blocked : source = destination ∨ values.contains destination
  · rw [renameKey, if_pos blocked]
    simp only [reduceCtorEq, false_iff]
    rintro ⟨apart, free, _⟩
    obtain same | taken := blocked
    · exact apart same
    · exact free (OrderedMap.get?_isSome.mp (OrderedMap.contains_iff.mp taken))
  · have apart : source ≠ destination := fun same => blocked (.inl same)
    have free : destination ∉ values.keys := fun taken =>
      blocked (.inr (OrderedMap.contains_iff.mpr (OrderedMap.get?_isSome.mpr taken)))
    rw [renameKey, if_neg blocked]
    cases held : values.get? source with
    | none =>
        have absent : source ∉ values.keys := OrderedMap.get?_eq_none.mp held
        simp [absent]
    | some value =>
        obtain ⟨index, position⟩ := OrderedMap.exists_indexOf? held
        have present : source ∈ values.keys := OrderedMap.get?_isSome.mp (by rw [held]; rfl)
        have entries := OrderedMap.entries_shiftInsert_erase position held free
        simp only [position, Option.some.injEq, apart, free, present, ne_eq, not_false_eq_true,
          true_and]
        constructor
        · rintro rfl
          exact entries
        · intro same
          exact OrderedMap.ext_entries (entries.trans same.symm)

theorem renameKey_inverse (moved : renameKey values source destination = some renamed) :
    renameKey renamed destination source = some values := by
  obtain ⟨apart, free, present, entries⟩ := renameKey_eq_some.mp moved
  have keys : renamed.keys = values.keys.map fun key => if key = source then destination else key := by
    simp only [OrderedMap.keys, entries, List.map_map, Function.comp_def]
  rw [renameKey_eq_some]
  refine ⟨apart.symm, ?_, ?_, ?_⟩
  · rw [keys, List.mem_map]
    rintro ⟨key, _, same⟩
    split at same
    next _ => exact apart same.symm
    next other => exact other same
  · rw [keys, List.mem_map]
    exact ⟨source, present, if_pos rfl⟩
  · rw [entries, List.map_map]
    refine ((List.map_congr_left fun entry member => ?_).trans (List.map_id values.entries)).symm
    have different : entry.1 ≠ destination := fun same =>
      free (List.mem_map.mpr ⟨entry, member, same⟩)
    obtain ⟨key, value⟩ := entry
    by_cases same : key = source
    · simp [same]
    · simp [same, different]

variable {intent : CatalogChangeIntent} {fresh old : TypedReference} {owner rewritten : AppDefinition}

theorem rewrite_renameApp {appId newId : String} :
    rewriteAppDefinition owner (.renameApp appId newId) = some rewritten ↔
      owner.id = appId ∧ appHasConfigurationTemplates owner = false ∧
        rewritten = { owner with id := newId } := by
  rw [rewriteAppDefinition]
  by_cases named : owner.id = appId
  · cases templated : appHasConfigurationTemplates owner with
    | true => simp [named]
    | false => simp [named, @eq_comm _ _ rewritten]
  · simp [named]

theorem rewrite_renameArtifact {appId artifactId newId : String} :
    rewriteAppDefinition owner (.renameArtifact appId artifactId newId) = some rewritten ↔
      owner.id = appId ∧ ∃ artifacts, renameKey owner.artifacts artifactId newId = some artifacts ∧
        rewritten = { owner with artifacts := artifacts } := by
  rw [rewriteAppDefinition]
  by_cases named : owner.id = appId
  · simp [named, @eq_comm _ _ rewritten]
  · simp [named]

theorem rewrite_renameTarget {appId targetId newId : String} :
    rewriteAppDefinition owner (.renameTarget appId targetId newId) = some rewritten ↔
      owner.id = appId ∧ ∃ targets, renameKey owner.targets targetId newId = some targets ∧
        rewritten =
          { owner with
            targets := targets
            configurations := owner.configurations.mapValues fun _ configuration =>
              if configuration.target = targetId then { configuration with target := newId }
              else configuration } := by
  rw [rewriteAppDefinition]
  by_cases named : owner.id = appId
  · simp [named, @eq_comm _ _ rewritten]
  · simp [named]

theorem appId_of_rewrite (done : rewriteAppDefinition owner intent = some rewritten) :
    owner.id = intent.appId := by
  cases intent with
  | renameApp appId newId => exact (rewrite_renameApp.mp done).1
  | renameArtifact appId artifactId newId => exact (rewrite_renameArtifact.mp done).1
  | renameTarget appId targetId newId => exact (rewrite_renameTarget.mp done).1
  | deleteApp appId =>
      by_contra other
      have refused : rewriteAppDefinition owner (.deleteApp appId) = none := if_neg other
      rw [refused] at done
      simp at done

variable (rename : intent.identities = some (old, fresh))

include rename

theorem rewriteAppDefinition_renamedBy (done : rewriteAppDefinition owner intent = some rewritten) :
    owner.RenamedBy intent.names rewritten := by
  have same_key : ∀ {β : Type} (map : OrderedMap String β),
      map.entries = map.entries.map fun entry => (entry.1, entry.2) := fun map => by simp
  have same_config : ∀ {names : Renaming}, (∀ holder id, names.target holder id = id) →
      owner.configurations = owner.configurations.mapValues fun _ configuration =>
        renameConfiguration names owner.id configuration := by
    intro names fixed
    refine (OrderedMap.mapValues_eq_self fun entry _ => ?_).symm
    rw [renameConfiguration, fixed]
  cases intent with
  | renameApp appId newId =>
      obtain ⟨rfl, _, rfl⟩ := rewrite_renameApp.mp done
      exact ⟨(if_pos rfl).symm, same_key _, same_key _, same_config fun _ _ => rfl, rfl⟩
  | renameArtifact appId artifactId newId =>
      obtain ⟨rfl, artifacts, moved, rfl⟩ := rewrite_renameArtifact.mp done
      obtain ⟨_, _, _, entries⟩ := renameKey_eq_some.mp moved
      refine ⟨rfl, ?_, same_key _, same_config fun _ _ => rfl, rfl⟩
      simp [entries, CatalogChangeIntent.names]
  | renameTarget appId targetId newId =>
      obtain ⟨rfl, targets, moved, rfl⟩ := rewrite_renameTarget.mp done
      obtain ⟨_, _, _, entries⟩ := renameKey_eq_some.mp moved
      refine ⟨rfl, same_key _, ?_, ?_, rfl⟩
      · simp [entries, CatalogChangeIntent.names]
      · dsimp only
        refine OrderedMap.mapValues_congr fun _ configuration _ => ?_
        by_cases same : configuration.target = targetId
        · simp [renameConfiguration, CatalogChangeIntent.names, same]
        · simp [renameConfiguration, CatalogChangeIntent.names, same]
  | deleteApp appId => simp [CatalogChangeIntent.identities] at rename

theorem rewriteAppDefinition_distinct
    (done : rewriteAppDefinition owner intent = some rewritten) (unused : ¬owner.Uses fresh) :
    intent.Distinct := by
  intro pair named same
  cases intent with
  | renameApp appId newId =>
      cases rename
      cases named
      obtain ⟨rfl, _⟩ := rewrite_renameApp.mp done
      exact unused (TypedReference.app.inj same)
  | renameArtifact appId artifactId newId =>
      cases named
      obtain ⟨_, _, moved, _⟩ := rewrite_renameArtifact.mp done
      exact (renameKey_eq_some.mp moved).1 (TypedReference.artifact.inj same).2
  | renameTarget appId targetId newId =>
      cases named
      obtain ⟨_, _, moved, _⟩ := rewrite_renameTarget.mp done
      exact (renameKey_eq_some.mp moved).1 (TypedReference.target.inj same).2
  | deleteApp appId => simp [CatalogChangeIntent.identities] at rename

variable {reference : TypedReference}

theorem image_inverse (free : ¬reference.Mentions fresh) :
    intent.inverse.names.image (intent.names.image reference) = reference := by
  cases intent with
  | renameApp appId newId =>
      cases rename
      have back : ∀ id, reference.owner = some id →
          (if (if id = appId then newId else id) = newId then appId
            else if id = appId then newId else id) = id := by
        intro id named
        by_cases same : id = appId
        · simp [same]
        · have different : id ≠ newId := fun met => free (met ▸ named)
          simp [same, different]
      cases reference with
      | app id =>
          exact congrArg TypedReference.app (back id rfl)
      | artifact holder id =>
          exact congrArg (fun named => TypedReference.artifact named id) (back holder rfl)
      | target holder id =>
          cases holder with
          | none => rfl
          | some holder =>
              exact congrArg (fun named => TypedReference.target (some named) id) (back holder rfl)
  | renameArtifact appId artifactId newId =>
      cases rename
      cases reference with
      | app id => rfl
      | target holder id => simp [CatalogChangeIntent.inverse, CatalogChangeIntent.names, Renaming.image]
      | artifact holder id =>
          have different : holder = appId → id ≠ newId := by
            rintro rfl rfl
            exact free rfl
          simp only [CatalogChangeIntent.inverse, CatalogChangeIntent.names, Renaming.image,
            TypedReference.artifact.injEq, true_and]
          by_cases same : holder = appId ∧ id = artifactId
          · simp [same]
          · grind
  | renameTarget appId targetId newId =>
      cases rename
      cases reference with
      | app id => rfl
      | artifact holder id => rfl
      | target holder id =>
          have different : holder = some appId → id ≠ newId := by
            rintro rfl rfl
            exact free rfl
          simp only [CatalogChangeIntent.inverse, CatalogChangeIntent.names, Renaming.image,
            Option.map_id', TypedReference.target.injEq, true_and]
          by_cases same : holder = some appId ∧ id = targetId
          · simp [same]
          · grind
  | deleteApp appId => simp [CatalogChangeIntent.identities] at rename

theorem separates (done : rewriteAppDefinition owner intent = some rewritten)
    (free : ¬reference.Mentions fresh) : intent.names.Separates owner reference := by
  cases intent with
  | renameApp appId newId =>
      cases rename
      obtain ⟨rfl, _, _⟩ := rewrite_renameApp.mp done
      refine ⟨fun holder named same => ?_, fun _ _ _ _ same => same, fun _ _ _ _ same => same⟩
      by_contra other
      have moved : holder = newId := by
        simpa [CatalogChangeIntent.names, other] using same
      exact free (moved ▸ named)
  | renameArtifact appId artifactId newId =>
      cases rename
      obtain ⟨rfl, artifacts, moved, _⟩ := rewrite_renameArtifact.mp done
      obtain ⟨_, absent, _, _⟩ := renameKey_eq_some.mp moved
      refine ⟨fun _ _ same => same, fun id written key held same => ?_, fun _ _ _ _ same => same⟩
      have different : id ≠ newId := by
        rintro rfl
        exact free written
      have other : key ≠ newId := fun met => absent (met ▸ held)
      simp only [CatalogChangeIntent.names, true_and] at same
      grind
  | renameTarget appId targetId newId =>
      cases rename
      obtain ⟨rfl, targets, moved, _⟩ := rewrite_renameTarget.mp done
      obtain ⟨_, absent, _, _⟩ := renameKey_eq_some.mp moved
      refine ⟨fun _ _ same => same, fun _ _ _ _ same => same, fun id written key held same => ?_⟩
      have different : id ≠ newId := by
        rintro rfl
        exact free written
      have other : key ≠ newId := fun met => absent (met ▸ held)
      simp only [CatalogChangeIntent.names, true_and] at same
      grind
  | deleteApp appId => simp [CatalogChangeIntent.identities] at rename

theorem not_mentions_old (distinct : intent.Distinct)
    : ¬(intent.names.image reference).Mentions old := by
  intro mentioned
  cases intent with
  | renameApp appId newId =>
      cases rename
      have apart : newId ≠ appId := fun same => distinct _ rfl (congrArg _ same.symm)
      have moved : ∀ id, (if id = appId then newId else id) ≠ appId := by
        intro id
        split
        next _ => exact apart
        next other => exact other
      cases reference with
      | app id => exact moved id (Option.some.inj mentioned)
      | artifact holder id => exact moved holder (Option.some.inj mentioned)
      | target holder id =>
          cases holder with
          | none => simp [TypedReference.Mentions, Renaming.image, TypedReference.owner] at mentioned
          | some holder => exact moved holder (Option.some.inj mentioned)
  | renameArtifact appId artifactId newId =>
      cases rename
      have apart : newId ≠ artifactId := fun same => distinct _ rfl (congrArg _ same.symm)
      cases reference with
      | app id => simp [TypedReference.Mentions, Renaming.image] at mentioned
      | target holder id => simp [TypedReference.Mentions, Renaming.image] at mentioned
      | artifact holder id =>
          simp only [TypedReference.Mentions, Renaming.image, CatalogChangeIntent.names,
            TypedReference.artifact.injEq] at mentioned
          grind
  | renameTarget appId targetId newId =>
      cases rename
      have apart : newId ≠ targetId := fun same => distinct _ rfl (congrArg _ same.symm)
      cases reference with
      | app id => simp [TypedReference.Mentions, Renaming.image] at mentioned
      | artifact holder id => simp [TypedReference.Mentions, Renaming.image] at mentioned
      | target holder id =>
          simp only [TypedReference.Mentions, Renaming.image, CatalogChangeIntent.names,
            TypedReference.target.injEq, Option.map_id'] at mentioned
          grind
  | deleteApp appId => simp [CatalogChangeIntent.identities] at rename

end

section

structure RewritesOwner (intent : CatalogChangeIntent) (old : TypedReference)
    (owner rewritten : AppDefinition) : Prop where
  oldGone : ¬rewritten.Uses old
  renamed : owner.RenamedBy intent.names rewritten
  references : rewritten.references = owner.references.map intent.names.image
  resolved : ∀ reference ∈ owner.references,
    rewritten.resolve (intent.names.image reference) = owner.resolve reference
  restored : rewriteAppDefinition rewritten intent.inverse = some owner

structure RewritesRecipe (intent : CatalogChangeIntent) (old : TypedReference)
    (owner rewritten : AppDefinition) (path : String) (recipe after : Authored.Recipe)
    (sites : List ReferenceSite) : Prop where
  oldGone : ∀ entry ∈ after.references path, ¬entry.2.Mentions old
  references : after.references path =
    (recipe.references path).map fun entry => (entry.1, intent.names.image entry.2)
  resolved : ∀ entry ∈ recipe.references path,
    rewritten.resolve (intent.names.image entry.2) = owner.resolve entry.2
  elsewhere : ∀ other : AppDefinition, other.id ≠ owner.id → other.id ≠ rewritten.id →
    ∀ entry ∈ recipe.references path,
      other.resolve (intent.names.image entry.2) = other.resolve entry.2
  sites : sites = changedSites intent.names (recipe.references path)
  untouched : after.rename .blank = recipe.rename .blank
  restored : (rewriteRecipe after path intent.inverse).1 = recipe

variable {intent : CatalogChangeIntent} {fresh old : TypedReference} {owner rewritten : AppDefinition}

theorem unmentioned_of_unused {identity : TypedReference} (unused : ¬owner.Uses identity)
    {reference : TypedReference} (held : reference ∈ owner.references) : ¬reference.Mentions identity := by
  intro mentioned
  obtain ⟨configuration, _, written⟩ := List.mem_map.mp held
  cases identity with
  | app id =>
      rw [← written] at mentioned
      exact unused (Option.some.inj mentioned)
  | artifact holder id =>
      rw [← written] at mentioned
      exact absurd mentioned (by simp [TypedReference.Mentions])
  | target holder id =>
      have same : reference = .target holder id := mentioned
      have owned : holder = some owner.id := (TypedReference.target.inj (written.trans same)).1.symm
      exact unused ⟨owned, .inr (same ▸ held)⟩

theorem not_uses_old (rename : intent.identities = some (old, fresh))
    (done : rewriteAppDefinition owner intent = some rewritten) (unused : ¬owner.Uses fresh) :
    ¬rewritten.Uses old := by
  have distinct := rewriteAppDefinition_distinct rename done unused
  have renamed := rewriteAppDefinition_renamedBy rename done
  intro used
  cases intent with
  | renameApp appId newId =>
      cases rename
      obtain ⟨_, _, rfl⟩ := rewrite_renameApp.mp done
      exact distinct _ rfl (congrArg TypedReference.app used.symm)
  | renameArtifact appId artifactId newId =>
      cases rename
      obtain ⟨_, artifacts, moved, rfl⟩ := rewrite_renameArtifact.mp done
      exact (renameKey_eq_some.mp (renameKey_inverse moved)).2.1 used.2
  | renameTarget appId targetId newId =>
      cases rename
      obtain ⟨holder, held | stands⟩ := used
      · obtain ⟨_, targets, moved, rfl⟩ := rewrite_renameTarget.mp done
        exact (renameKey_eq_some.mp (renameKey_inverse moved)).2.1 held
      · rw [renamed.references_eq, List.mem_map] at stands
        obtain ⟨reference, _, same⟩ := stands
        have gone : ¬((CatalogChangeIntent.renameTarget appId targetId newId).names.image
            reference).Mentions (.target (some appId) targetId) := not_mentions_old rfl distinct
        exact gone same
  | deleteApp appId => simp [CatalogChangeIntent.identities] at rename

theorem rewriteAppDefinition_inverse (rename : intent.identities = some (old, fresh))
    (done : rewriteAppDefinition owner intent = some rewritten) (unused : ¬owner.Uses fresh) :
    rewriteAppDefinition rewritten intent.inverse = some owner := by
  cases intent with
  | renameApp appId newId =>
      obtain ⟨rfl, plain, rfl⟩ := rewrite_renameApp.mp done
      exact rewrite_renameApp.mpr ⟨rfl, plain, rfl⟩
  | renameArtifact appId artifactId newId =>
      obtain ⟨rfl, artifacts, moved, rfl⟩ := rewrite_renameArtifact.mp done
      exact rewrite_renameArtifact.mpr ⟨rfl, _, renameKey_inverse moved, rfl⟩
  | renameTarget appId targetId newId =>
      cases rename
      obtain ⟨rfl, targets, moved, rfl⟩ := rewrite_renameTarget.mp done
      refine rewrite_renameTarget.mpr ⟨rfl, _, renameKey_inverse moved, ?_⟩
      have back : ∀ entry ∈ owner.configurations.entries,
          entry.2.target ≠ newId := by
        intro entry held same
        refine unused ⟨rfl, .inr (List.mem_map.mpr ⟨entry.2, ?_, same ▸ rfl⟩)⟩
        exact List.mem_map.mpr ⟨entry, held, rfl⟩
      have restored : ((owner.configurations.mapValues fun _ configuration =>
            if configuration.target = targetId then { configuration with target := newId }
            else configuration).mapValues fun _ configuration =>
            if configuration.target = newId then { configuration with target := targetId }
            else configuration) = owner.configurations := by
        rw [OrderedMap.mapValues_mapValues]
        refine OrderedMap.mapValues_eq_self fun entry held => ?_
        by_cases same : entry.2.target = targetId
        · simp [← same]
        · simp [same, back entry held]
      rw [restored]
  | deleteApp appId => simp [CatalogChangeIntent.identities] at rename

theorem inverse_distinct (distinct : intent.Distinct) : intent.inverse.Distinct := by
  intro pair named same
  cases intent with
  | renameApp appId newId =>
      cases named
      exact distinct _ rfl same.symm
  | renameArtifact appId artifactId newId =>
      cases named
      exact distinct _ rfl same.symm
  | renameTarget appId targetId newId =>
      cases named
      exact distinct _ rfl same.symm
  | deleteApp appId => simp [CatalogChangeIntent.inverse, CatalogChangeIntent.identities] at named

theorem resolve_elsewhere (named : owner.id = intent.appId)
    (moved : rewritten.id = intent.names.app owner.id) {other : AppDefinition}
    (apart : other.id ≠ owner.id) (apart' : other.id ≠ rewritten.id) {reference : TypedReference} :
    other.resolve (intent.names.image reference) = other.resolve reference := by
  by_cases held : reference.owner = some intent.appId
  · have before : reference.owner ≠ some other.id := by
      rw [held, ← named]
      exact fun same => apart (Option.some.inj same).symm
    have after : (intent.names.image reference).owner ≠ some other.id := by
      rw [Renaming.owner_image, held, ← named, Option.map_some, ← moved]
      exact fun same => apart' (Option.some.inj same).symm
    rw [AppDefinition.resolve_eq_none before, AppDefinition.resolve_eq_none after]
  · rw [image_of_other_owner held]

/-- A rename to an unused identity keeps what every reference of the catalog stands for. -/
theorem rename_preservesResolution {recipes : List (String × Authored.Recipe)}
    (rename : intent.identities = some (old, fresh))
    (done : rewriteAppDefinition owner intent = some rewritten) (unused : ¬owner.Uses fresh)
    (unmentioned : ∀ entry ∈ recipes, ∀ reference ∈ entry.2.references entry.1,
      ¬reference.2.Mentions fresh) :
    RewritesOwner intent old owner rewritten ∧
      ∀ entry ∈ recipes, RewritesRecipe intent old owner rewritten entry.1 entry.2
        (rewriteRecipe entry.2 entry.1 intent).1 (rewriteRecipe entry.2 entry.1 intent).2 := by
  have distinct := rewriteAppDefinition_distinct rename done unused
  have renamed := rewriteAppDefinition_renamedBy rename done
  have named := appId_of_rewrite done
  constructor
  · refine ⟨not_uses_old rename done unused, renamed, renamed.references_eq, fun reference held => ?_,
      rewriteAppDefinition_inverse rename done unused⟩
    exact renamed.resolve_image (separates rename done (unmentioned_of_unused unused held))
  · intro entry member
    obtain ⟨path, recipe⟩ := entry
    have free := unmentioned _ member
    have inverted : intent.inverse.Distinct := inverse_distinct distinct
    rw [rewriteRecipe_eq distinct]
    refine ⟨fun entry held => ?_, Authored.Recipe.references_rename, fun entry held => ?_,
      fun other apart apart' entry held => ?_, rfl, ?_, ?_⟩
    · rw [Authored.Recipe.references_rename, List.mem_map] at held
      obtain ⟨source, _, rfl⟩ := held
      exact not_mentions_old rename distinct
    · exact renamed.resolve_image (separates rename done (free entry held))
    · exact resolve_elsewhere named renamed.id apart apart'
    · rw [Authored.Recipe.rename_rename]
      rfl
    · rw [rewriteRecipe_eq inverted, Authored.Recipe.rename_rename]
      refine Authored.Recipe.rename_eq_self path fun entry held => ?_
      rw [Renaming.image_after, image_inverse rename (free entry held)]

def emulatorApp : AppDefinition where
  schemaVersion := 1
  kind := "app_definition"
  id := "emulator"
  name := "Emulator"
  packageId := "org.emulator"
  artifacts := .empty
  permissionSets := none
  targets := .ofList [("saves", ⟨.directory, .sharedStorage, "Emulator/saves"⟩)]
  configurations := .ofList [("main", ⟨.jsonV1, "saves", .empty, .empty⟩)]
  launcherActivity := none

def copySaves : Step where
  id := "copy"
  typeName := "copy_files"
  name := "Copy saves"
  progressNote := none
  userToggleable := false
  appRef := some "emulator"
  dependencies := []
  constraints := ⟨[], []⟩
  skipIf := []
  params := .ofList [("dest", .appTarget "saves")]
  verify := [⟨"path_exists", .ofList [("path", .object [("app_target", .string "saves")])]⟩]

def savesRecipe : Authored.Recipe where
  id := "saves"
  recipeDependencies := []
  inputs := .empty
  config := none
  artifacts := .empty
  artifactGroups := .empty
  steps := [copySaves]

theorem rename_preservesResolution_sample :
    RewritesOwner (.renameTarget "emulator" "saves" "states") (.target (some "emulator") "saves")
        emulatorApp
        { emulatorApp with
          targets := .ofList [("states", ⟨.directory, .sharedStorage, "Emulator/saves"⟩)]
          configurations := .ofList [("main", ⟨.jsonV1, "states", .empty, .empty⟩)] } ∧
      ∀ entry ∈ [("saves.yaml", savesRecipe)],
        RewritesRecipe (.renameTarget "emulator" "saves" "states")
          (.target (some "emulator") "saves") emulatorApp
          { emulatorApp with
            targets := .ofList [("states", ⟨.directory, .sharedStorage, "Emulator/saves"⟩)]
            configurations := .ofList [("main", ⟨.jsonV1, "states", .empty, .empty⟩)] }
          entry.1 entry.2
          (rewriteRecipe entry.2 entry.1 (.renameTarget "emulator" "saves" "states")).1
          (rewriteRecipe entry.2 entry.1 (.renameTarget "emulator" "saves" "states")).2 := by
  refine rename_preservesResolution rfl rfl ?_ ?_
  · rintro ⟨_, held | stands⟩
    · revert held
      decide
    · revert stands
      decide
  · have references : savesRecipe.references "saves.yaml" =
        [(⟨"saves.yaml", "steps.copy", "app_ref"⟩, .app "emulator"),
          (⟨"saves.yaml", "steps.copy", "params.dest"⟩, .target (some "emulator") "saves"),
          (⟨"saves.yaml", "steps.copy.verify[0]", "params.path"⟩,
            .target (some "emulator") "saves")] := by decide
    intro entry member reference held
    obtain rfl := List.mem_singleton.mp member
    rw [references] at held
    simp only [List.mem_cons, List.not_mem_nil, or_false] at held
    obtain rfl | rfl | rfl := held
    · simp [TypedReference.Mentions]
    · simp [TypedReference.Mentions]
    · simp [TypedReference.Mentions]

end

end EmuChef.Catalog
