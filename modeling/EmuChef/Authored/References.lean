import EmuChef.Authored.Document

/-! The typed references of authored documents, and what it means to rename the identities
they name. -/

namespace EmuChef.Authored

open Planner (ParamValue)

structure ReferenceSite where
  path : String
  object : String
  field : String
  deriving DecidableEq

/-- An identity in use, under the App Definition that the surrounding document names for it. -/
inductive TypedReference where
  | app (id : String)
  | artifact (app id : String)
  | target (app : Option String) (id : String)
  deriving DecidableEq

namespace TypedReference

def text : TypedReference → String
  | app id => id
  | artifact _ id => id
  | target _ id => id

def owner : TypedReference → Option String
  | app id => some id
  | artifact holder _ => some holder
  | target holder _ => holder

def Mentions (reference identity : TypedReference) : Prop :=
  match identity with
  | app id => reference.owner = some id
  | artifact holder id => reference = artifact holder id
  | target holder id => reference = target holder id

end TypedReference

structure Renaming where
  app : String → String
  artifact : String → String → String
  target : Option String → String → String

namespace Renaming

def image (names : Renaming) : TypedReference → TypedReference
  | .app id => .app (names.app id)
  | .artifact app id => .artifact (names.app app) (names.artifact app id)
  | .target app id => .target (app.map names.app) (names.target app id)

def after (second first : Renaming) : Renaming where
  app id := second.app (first.app id)
  artifact app id := second.artifact (first.app app) (first.artifact app id)
  target app id := second.target (app.map first.app) (first.target app id)

@[simp] theorem image_after {second first : Renaming} {reference : TypedReference} :
    (second.after first).image reference = second.image (first.image reference) := by
  cases reference with
  | app id => rfl
  | artifact app id => rfl
  | target app id => simp [image, after, Option.map_map, Function.comp_def]

theorem owner_image {names : Renaming} {reference : TypedReference} :
    (names.image reference).owner = reference.owner.map names.app := by
  cases reference with
  | app id => rfl
  | artifact holder id => rfl
  | target holder id => rfl

def blank : Renaming where
  app _ := ""
  artifact _ _ := ""
  target _ _ := ""

end Renaming

section

variable {names first second : Renaming}

def RecipeArtifact.rename (names : Renaming) : RecipeArtifact → RecipeArtifact
  | .remoteFile url cache => .remoteFile url cache
  | .appArtifact reference => .appArtifact
      { reference with
        appRef := names.app reference.appRef
        artifact := names.artifact reference.appRef reference.artifact }

def RecipeArtifact.references (path localId : String) :
    RecipeArtifact → List (ReferenceSite × TypedReference)
  | .remoteFile _ _ => []
  | .appArtifact reference =>
      [(⟨path, "artifacts." ++ localId, "app_ref"⟩, .app reference.appRef),
        (⟨path, "artifacts." ++ localId, "artifact"⟩, .artifact reference.appRef reference.artifact)]

theorem RecipeArtifact.rename_rename {artifact : RecipeArtifact} :
    (artifact.rename first).rename second = artifact.rename (second.after first) := by
  cases artifact with
  | remoteFile url cache => rfl
  | appArtifact reference => rfl

theorem RecipeArtifact.references_rename {path localId : String} {artifact : RecipeArtifact} :
    (artifact.rename names).references path localId =
      (artifact.references path localId).map fun entry => (entry.1, names.image entry.2) := by
  cases artifact with
  | remoteFile url cache => rfl
  | appArtifact reference => rfl

theorem RecipeArtifact.rename_eq_self (path localId : String) {artifact : RecipeArtifact}
    (fixed : ∀ entry ∈ artifact.references path localId, names.image entry.2 = entry.2) :
    artifact.rename names = artifact := by
  cases artifact with
  | remoteFile url cache => rfl
  | appArtifact reference =>
      have app := fixed _ (.head _)
      have part := fixed _ (.tail _ (.head _))
      simp only [Renaming.image, TypedReference.app.injEq, TypedReference.artifact.injEq] at app part
      simp [rename, app, part.2]

end

section

variable {names first second : Renaming} {app : Option String}

def StepCondition.target? (condition : StepCondition) : Option String :=
  if condition.typeName = "path_exists" ∨ condition.typeName = "file_exists" then
    match condition.params.get? "path" with
    | some (.object [(field, .string id)]) => if field = "app_target" then some id else none
    | _ => none
  else none

def StepCondition.rename (names : Renaming) (app : Option String) (condition : StepCondition) :
    StepCondition :=
  match condition.target? with
  | some id =>
      { condition with
        params := condition.params.insert "path"
          (.object [("app_target", .string (names.target app id))]) }
  | none => condition

variable {condition : StepCondition}

theorem StepCondition.path_of_target {id : String} (tested : condition.target? = some id) :
    condition.params.get? "path" = some (.object [("app_target", .string id)]) := by
  unfold target? at tested
  split at tested
  next _ =>
    split at tested
    next field found held =>
      split at tested
      next same => simpa [same, Option.some.inj tested] using held
      next _ => simp at tested
    next _ => simp at tested
  next _ => simp at tested

theorem StepCondition.target?_rename :
    (condition.rename names app).target? = condition.target?.map (names.target app) := by
  cases tested : condition.target? with
  | none => simp [rename, tested]
  | some id =>
      have existence : condition.typeName = "path_exists" ∨ condition.typeName = "file_exists" := by
        by_contra other
        simp [target?, other] at tested
      have renamed : condition.rename names app =
          { condition with
            params := condition.params.insert "path"
              (.object [("app_target", .string (names.target app id))]) } := by
        simp [rename, tested]
      rw [renamed]
      simp [target?, existence]

theorem StepCondition.rename_rename :
    (condition.rename first app).rename second (app.map first.app) =
      condition.rename (second.after first) app := by
  cases tested : condition.target? with
  | none => simp [rename, tested]
  | some id =>
      have moved : (condition.rename first app).target? = some (first.target app id) := by
        rw [target?_rename, tested, Option.map_some]
      rw [rename, moved]
      simp [rename, tested, OrderedMap.insert_insert, Renaming.after]

theorem StepCondition.rename_eq_self
    (fixed : ∀ id, condition.target? = some id → names.target app id = id) :
    condition.rename names app = condition := by
  cases tested : condition.target? with
  | none => simp [rename, tested]
  | some id =>
      have same := OrderedMap.insert_eq_self (StepCondition.path_of_target tested)
      simp [rename, tested, fixed id tested, same]

def renameParam (names : Renaming) (app : Option String) : ParamValue → ParamValue
  | .appTarget id => .appTarget (names.target app id)
  | other => other

def Step.rename (names : Renaming) (step : Step) : Step :=
  { step with
    appRef := step.appRef.map names.app
    params := step.params.mapValues fun _ value => renameParam names step.appRef value
    skipIf := step.skipIf.map (·.rename names step.appRef)
    verify := step.verify.map (·.rename names step.appRef) }

def paramReference (path stepId : String) (app : Option String) (parameter : String) :
    ParamValue → Option (ReferenceSite × TypedReference)
  | .appTarget id => some (⟨path, "steps." ++ stepId, "params." ++ parameter⟩, .target app id)
  | _ => none

def conditionReferences (path stepId collection : String) (app : Option String)
    (conditions : List StepCondition) : List (ReferenceSite × TypedReference) :=
  conditions.zipIdx.filterMap fun entry => entry.1.target?.map fun id =>
    (⟨path, "steps." ++ stepId ++ "." ++ collection ++ "[" ++ toString entry.2 ++ "]",
      "params.path"⟩, .target app id)

def Step.targetReferences (path : String) (step : Step) : List (ReferenceSite × TypedReference) :=
  (step.params.entries.filterMap fun entry =>
      paramReference path step.id step.appRef entry.1 entry.2) ++
    conditionReferences path step.id "skip_if" step.appRef step.skipIf ++
    conditionReferences path step.id "verify" step.appRef step.verify

def Step.references (path : String) (step : Step) : List (ReferenceSite × TypedReference) :=
  (step.appRef.toList.map fun app => (⟨path, "steps." ++ step.id, "app_ref"⟩, .app app)) ++
    step.targetReferences path

theorem Step.target_of_mem {path : String} {step : Step} {entry : ReferenceSite × TypedReference}
    (found : entry ∈ step.targetReferences path) : ∃ id, entry.2 = .target step.appRef id := by
  have tested : ∀ (collection : String) (conditions : List StepCondition),
      entry ∈ conditionReferences path step.id collection step.appRef conditions →
        ∃ id, entry.2 = .target step.appRef id := by
    intro collection conditions member
    obtain ⟨condition, _, written⟩ := List.mem_filterMap.mp member
    obtain ⟨id, _, rfl⟩ := Option.map_eq_some_iff.mp written
    exact ⟨id, rfl⟩
  simp only [targetReferences, List.mem_append, List.mem_filterMap] at found
  obtain (⟨held, _, written⟩ | member) | member := found
  · cases value : held.2 with
    | ref reference => simp [paramReference, value] at written
    | literal value => simp [paramReference, value] at written
    | appTarget id =>
        rw [value, paramReference, Option.some.injEq] at written
        exact ⟨id, written ▸ rfl⟩
  · exact tested _ _ member
  · exact tested _ _ member

theorem Step.owner_of_mem {path : String} {step : Step} {entry : ReferenceSite × TypedReference}
    (found : entry ∈ step.references path) : entry.2.owner = step.appRef := by
  obtain named | target := List.mem_append.mp found
  · obtain ⟨app, held, rfl⟩ := List.mem_map.mp named
    exact (Option.mem_toList.mp held).symm
  · obtain ⟨id, same⟩ := Step.target_of_mem target
    rw [same]
    rfl

theorem Step.rename_rename {step : Step} :
    (step.rename first).rename second = step.rename (second.after first) := by
  have params : ∀ value : ParamValue,
      renameParam second (step.appRef.map first.app) (renameParam first step.appRef value) =
        renameParam (second.after first) step.appRef value := by
    intro value
    cases value with
    | ref reference => rfl
    | appTarget id => rfl
    | literal value => rfl
  simp only [rename, OrderedMap.mapValues_mapValues, List.map_map, Option.map_map, params]
  congr 1
  · exact List.map_congr_left fun condition _ => StepCondition.rename_rename
  · exact List.map_congr_left fun condition _ => StepCondition.rename_rename

theorem Step.rename_of_target (fixed : ∀ holder id, names.target holder id = id) {step : Step} :
    step.rename names = { step with appRef := step.appRef.map names.app } := by
  have params : (step.params.mapValues fun _ value => renameParam names step.appRef value) =
      step.params := by
    refine OrderedMap.mapValues_eq_self fun entry _ => ?_
    cases entry.2 with
    | ref reference => rfl
    | appTarget id => rw [renameParam, fixed]
    | literal value => rfl
  have conditions : ∀ held : List StepCondition, held.map (·.rename names step.appRef) = held := by
    intro held
    refine (List.map_congr_left fun condition _ => ?_).trans (List.map_id held)
    exact StepCondition.rename_eq_self fun id _ => fixed _ id
  simp only [rename, params, conditions]

theorem conditionReferences_rename {path stepId collection : String}
    {conditions : List StepCondition} :
    conditionReferences path stepId collection (app.map names.app)
        (conditions.map (·.rename names app)) =
      (conditionReferences path stepId collection app conditions).map
        fun entry => (entry.1, names.image entry.2) := by
  simp only [conditionReferences, List.zipIdx_map, List.filterMap_map, List.map_filterMap]
  refine List.filterMap_congr fun entry _ => ?_
  simp only [Function.comp_apply, Prod.map_fst, Prod.map_snd, StepCondition.target?_rename,
    Option.map_map, id]
  rfl

theorem Step.references_rename {path : String} {step : Step} :
    (step.rename names).references path =
      (step.references path).map fun entry => (entry.1, names.image entry.2) := by
  have params : ∀ (parameter : String) (value : ParamValue),
      paramReference path step.id (step.appRef.map names.app) parameter
          (renameParam names step.appRef value) =
        (paramReference path step.id step.appRef parameter value).map
          fun entry => (entry.1, names.image entry.2) := by
    intro parameter value
    cases value with
    | ref reference => rfl
    | appTarget id => rfl
    | literal value => rfl
  have apps : ((step.appRef.map names.app).toList.map fun app =>
        ((⟨path, "steps." ++ step.id, "app_ref"⟩ : ReferenceSite), TypedReference.app app)) =
      (step.appRef.toList.map fun app =>
        ((⟨path, "steps." ++ step.id, "app_ref"⟩ : ReferenceSite), TypedReference.app app)).map
        fun entry => (entry.1, names.image entry.2) := by
    cases step.appRef with
    | none => rfl
    | some app => rfl
  simp only [references, targetReferences, rename, conditionReferences_rename, List.map_append, apps]
  congr 3
  simp only [OrderedMap.mapValues, List.filterMap_map, List.map_filterMap, Function.comp_def, params]

theorem Step.rename_eq_self (path : String) {step : Step}
    (fixed : ∀ entry ∈ step.references path, names.image entry.2 = entry.2) :
    step.rename names = step := by
  have targetFixed : ∀ {id : String} {site : ReferenceSite},
      (site, TypedReference.target step.appRef id) ∈ step.references path →
        names.target step.appRef id = id := by
    intro id site member
    have same := fixed _ member
    simp only [Renaming.image, TypedReference.target.injEq] at same
    exact same.2
  have tested : ∀ (collection : String) (conditions : List StepCondition),
      conditionReferences path step.id collection step.appRef conditions ⊆ step.references path →
        conditions.map (·.rename names step.appRef) = conditions := by
    intro collection conditions inside
    refine (List.map_congr_left fun condition member => ?_).trans (List.map_id conditions)
    refine StepCondition.rename_eq_self fun id tested => ?_
    obtain ⟨index, found⟩ := List.getElem?_of_mem member
    have numbered : (condition, index) ∈ conditions.zipIdx :=
      List.mk_mem_zipIdx_iff_getElem?.mpr found
    exact targetFixed (inside (List.mem_filterMap.mpr ⟨_, numbered, by rw [tested]; rfl⟩))
  have appRef : step.appRef.map names.app = step.appRef := by
    cases named : step.appRef with
    | none => rfl
    | some app =>
        have same := fixed (⟨path, "steps." ++ step.id, "app_ref"⟩, .app app)
          (by simp [Step.references, named])
        simpa [Renaming.image] using same
  have params : (step.params.mapValues fun _ value => renameParam names step.appRef value) =
      step.params := by
    refine OrderedMap.mapValues_eq_self fun entry member => ?_
    obtain ⟨parameter, value⟩ := entry
    cases value with
    | ref reference => rfl
    | literal value => rfl
    | appTarget id =>
        have here : (⟨path, "steps." ++ step.id, "params." ++ parameter⟩, .target step.appRef id) ∈
            step.references path := by
          simp only [Step.references, Step.targetReferences, List.mem_append, List.mem_filterMap]
          exact .inr (.inl (.inl ⟨_, member, rfl⟩))
        rw [renameParam, targetFixed here]
  have skipIf := tested "skip_if" step.skipIf fun _ found =>
    List.mem_append_right _ (List.mem_append_left _ (List.mem_append_right _ found))
  have verify := tested "verify" step.verify fun _ found =>
    List.mem_append_right _ (List.mem_append_right _ found)
  simp only [rename, appRef, params, skipIf, verify]

end

section

variable {names first second : Renaming}

def RecipeConfiguration.rename (names : Renaming) (config : RecipeConfiguration) :
    RecipeConfiguration :=
  { config with
    appRef := names.app config.appRef
    target := names.target (some config.appRef) config.target }

def RecipeConfiguration.references (path : String) (config : RecipeConfiguration) :
    List (ReferenceSite × TypedReference) :=
  [(⟨path, "config", "app_ref"⟩, .app config.appRef),
    (⟨path, "config", "target"⟩, .target (some config.appRef) config.target)]

def Recipe.rename (names : Renaming) (recipe : Recipe) : Recipe :=
  { recipe with
    config := recipe.config.map (·.rename names)
    artifacts := recipe.artifacts.mapValues fun _ artifact => artifact.rename names
    steps := recipe.steps.map (·.rename names) }

def Recipe.references (path : String) (recipe : Recipe) : List (ReferenceSite × TypedReference) :=
  (recipe.artifacts.entries.flatMap fun entry => entry.2.references path entry.1) ++
    recipe.steps.flatMap (·.references path) ++
    recipe.config.toList.flatMap (·.references path)

theorem Recipe.rename_rename {recipe : Recipe} :
    (recipe.rename first).rename second = recipe.rename (second.after first) := by
  have config : (recipe.config.map (·.rename first)).map (·.rename second) =
      recipe.config.map (·.rename (second.after first)) := by
    cases recipe.config with
    | none => rfl
    | some config => rfl
  simp only [rename, OrderedMap.mapValues_mapValues, RecipeArtifact.rename_rename, config,
    List.map_map, Function.comp_def, Step.rename_rename]

/-- The references of a renamed Recipe are the images of its references, at the same sites. -/
theorem Recipe.references_rename {path : String} {recipe : Recipe} :
    (recipe.rename names).references path =
      (recipe.references path).map fun entry => (entry.1, names.image entry.2) := by
  have config : (recipe.config.map (·.rename names)).toList.flatMap (·.references path) =
      (recipe.config.toList.flatMap (·.references path)).map
        fun entry => (entry.1, names.image entry.2) := by
    cases recipe.config with
    | none => rfl
    | some config => rfl
  simp only [references, rename, OrderedMap.mapValues, List.flatMap_map, List.map_append,
    List.map_flatMap, RecipeArtifact.references_rename, Step.references_rename, config]

theorem Recipe.rename_eq_self (path : String) {recipe : Recipe}
    (fixed : ∀ entry ∈ recipe.references path, names.image entry.2 = entry.2) :
    recipe.rename names = recipe := by
  have artifacts : (recipe.artifacts.mapValues fun _ artifact => artifact.rename names) =
      recipe.artifacts := by
    refine OrderedMap.mapValues_eq_self fun entry member => ?_
    refine RecipeArtifact.rename_eq_self path entry.1 fun inner found => fixed inner ?_
    simp only [references, List.mem_append, List.mem_flatMap]
    exact .inl (.inl ⟨entry, member, found⟩)
  have steps : recipe.steps.map (·.rename names) = recipe.steps := by
    refine (List.map_congr_left fun step member => ?_).trans (List.map_id recipe.steps)
    refine Step.rename_eq_self path fun inner found => fixed inner ?_
    simp only [references, List.mem_append, List.mem_flatMap]
    exact .inl (.inr ⟨step, member, found⟩)
  have config : recipe.config.map (·.rename names) = recipe.config := by
    cases configured : recipe.config with
    | none => rfl
    | some config =>
        have inside : config.references path ⊆ recipe.references path := by
          intro entry found
          simp only [references, configured, List.mem_append, Option.toList_some,
            List.flatMap_cons, List.flatMap_nil, List.append_nil]
          exact .inr found
        have app := fixed _ (inside (.head _))
        have target := fixed _ (inside (.tail _ (.head _)))
        simp only [Renaming.image, TypedReference.app.injEq, TypedReference.target.injEq]
          at app target
        simp [RecipeConfiguration.rename, app, target.2]
  simp only [rename, artifacts, steps, config]

end

section

variable {names : Renaming} {app renamed : AppDefinition}

/-- What a reference stands for in the package that the App Definition describes. -/
inductive Resolution where
  | app (packageId : String)
  | artifact (packageId : String) (artifact : AppArtifact)
  | target (packageId : String) (target : AppTarget)
  deriving DecidableEq

def AppDefinition.resolve (app : AppDefinition) : TypedReference → Option Resolution
  | .app id => if id = app.id then some (.app app.packageId) else none
  | .artifact holder id =>
      if holder = app.id then (app.artifacts.get? id).map (.artifact app.packageId) else none
  | .target holder id =>
      if holder = some app.id then (app.targets.get? id).map (.target app.packageId) else none

def AppDefinition.references (app : AppDefinition) : List TypedReference :=
  app.configurations.values.map fun configuration => .target (some app.id) configuration.target

def AppDefinition.Uses (app : AppDefinition) (identity : TypedReference) : Prop :=
  match identity with
  | .app id => app.id = id
  | .artifact holder id => holder = app.id ∧ id ∈ app.artifacts.keys
  | .target holder id => holder = some app.id ∧
      (id ∈ app.targets.keys ∨ identity ∈ app.references)

def renameConfiguration (names : Renaming) (app : String) (configuration : AppConfiguration) :
    AppConfiguration :=
  { configuration with target := names.target (some app) configuration.target }

/-- The renamed App Definition: the same entries in the same order under their new names. -/
structure AppDefinition.RenamedBy (names : Renaming) (app renamed : AppDefinition) : Prop where
  id : renamed.id = names.app app.id
  artifacts : renamed.artifacts.entries =
    app.artifacts.entries.map fun entry => (names.artifact app.id entry.1, entry.2)
  targets : renamed.targets.entries =
    app.targets.entries.map fun entry => (names.target (some app.id) entry.1, entry.2)
  configurations : renamed.configurations =
    app.configurations.mapValues fun _ configuration => renameConfiguration names app.id configuration
  untouched : renamed =
    { app with
      id := renamed.id
      artifacts := renamed.artifacts
      targets := renamed.targets
      configurations := renamed.configurations }

/-- No two identities that the reference could be confused with get the same new name. -/
structure Renaming.Separates (names : Renaming) (app : AppDefinition) (reference : TypedReference) :
    Prop where
  holder : ∀ holder, reference.owner = some holder → names.app holder = names.app app.id →
    holder = app.id
  artifact : ∀ id, reference = .artifact app.id id → ∀ key ∈ app.artifacts.keys,
    names.artifact app.id key = names.artifact app.id id → key = id
  target : ∀ id, reference = .target (some app.id) id → ∀ key ∈ app.targets.keys,
    names.target (some app.id) key = names.target (some app.id) id → key = id

theorem AppDefinition.resolve_eq_none {reference : TypedReference}
    (other : reference.owner ≠ some app.id) : app.resolve reference = none := by
  cases reference with
  | app id => exact if_neg fun same => other (congrArg some same)
  | artifact holder id => exact if_neg fun same => other (congrArg some same)
  | target holder id => exact if_neg other

theorem AppDefinition.RenamedBy.packageId (moved : RenamedBy names app renamed) :
    renamed.packageId = app.packageId := by
  rw [moved.untouched]

theorem AppDefinition.RenamedBy.references_eq (moved : RenamedBy names app renamed) :
    renamed.references = app.references.map names.image := by
  simp only [AppDefinition.references, moved.configurations, moved.id, OrderedMap.values,
    OrderedMap.mapValues, List.map_map, Function.comp_def, renameConfiguration, Renaming.image,
    Option.map_some]

theorem AppDefinition.RenamedBy.resolve_image (moved : RenamedBy names app renamed)
    {reference : TypedReference} (separated : names.Separates app reference) :
    renamed.resolve (names.image reference) = app.resolve reference := by
  cases reference with
  | app id =>
      by_cases same : id = app.id
      · simp [resolve, Renaming.image, same, moved.id, moved.packageId]
      · have apart : names.app id ≠ names.app app.id := fun met =>
          same (separated.holder id rfl met)
        simp [resolve, Renaming.image, same, moved.id, apart]
  | artifact holder id =>
      by_cases same : holder = app.id
      · subst same
        have found := OrderedMap.get?_renamed moved.artifacts (separated.artifact id rfl)
        simp [resolve, Renaming.image, moved.id, moved.packageId, found]
      · have apart : names.app holder ≠ names.app app.id := fun met =>
          same (separated.holder holder rfl met)
        simp [resolve, Renaming.image, same, moved.id, apart]
  | target holder id =>
      by_cases same : holder = some app.id
      · subst same
        have found := OrderedMap.get?_renamed moved.targets (separated.target id rfl)
        simp [resolve, Renaming.image, moved.id, moved.packageId, found]
      · have apart : holder.map names.app ≠ some (names.app app.id) := by
          intro met
          obtain ⟨named, rfl, matched⟩ := Option.map_eq_some_iff.mp met
          exact same (congrArg some (separated.holder named rfl matched))
        simp [resolve, Renaming.image, same, moved.id, apart]

end

end EmuChef.Authored
