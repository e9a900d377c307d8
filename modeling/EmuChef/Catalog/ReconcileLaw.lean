import EmuChef.Catalog.OpenDocuments

/-! What a catalog change leaves of the open documents. -/

namespace EmuChef.Catalog

open EmuChef.Authored
open Checks

section

variable {α υ : Type} {id : String} {step : OrderedMap String α → String × υ → OrderedMap String α}
  {effect : υ → Option α → Option α}

theorem get?_foldl_absent (single : ∀ (map : OrderedMap String α) update, (step map update).get? id =
      if update.1 = id then effect update.2 (map.get? id) else map.get? id)
    {updates : List (String × υ)} (map : OrderedMap String α)
    (absent : id ∉ updates.map Prod.fst) : (updates.foldl step map).get? id = map.get? id := by
  induction updates generalizing map with
  | nil => rfl
  | cons update updates ih =>
      rw [List.map_cons, List.mem_cons, not_or] at absent
      rw [List.foldl_cons, ih _ absent.2, single, if_neg (Ne.symm absent.1)]

theorem get?_foldl_present (single : ∀ (map : OrderedMap String α) update, (step map update).get? id =
      if update.1 = id then effect update.2 (map.get? id) else map.get? id)
    {updates : List (String × υ)} (map : OrderedMap String α)
    (distinct : (updates.map Prod.fst).Nodup) {change : υ} (member : (id, change) ∈ updates) :
    (updates.foldl step map).get? id = effect change (map.get? id) := by
  induction updates generalizing map with
  | nil => cases member
  | cons update updates ih =>
      rw [List.map_cons, List.nodup_cons] at distinct
      rw [List.foldl_cons]
      rcases List.mem_cons.mp member with rfl | later
      · rw [get?_foldl_absent single _ distinct.1, single, if_pos rfl]
      · have other : update.1 ≠ id := by
          rintro rfl
          exact distinct.1 (List.mem_map.mpr ⟨_, later, rfl⟩)
        rw [ih _ distinct.2 later, single, if_neg other]

def replacedBy (value : α) (held : Option α) : Option α := held.map fun _ => value

theorem get?_store_held (map : OrderedMap String α) (key : String) (value : α) :
    (if map.contains key then map.insert key value else map).get? id =
      if key = id then replacedBy value (map.get? id) else map.get? id := by
  by_cases held : map.contains key = true
  · rw [if_pos held, OrderedMap.get?_insert]
    obtain ⟨old, found⟩ := Option.isSome_iff_exists.mp (OrderedMap.contains_iff.mp held)
    by_cases same : key = id
    · subst same
      rw [if_pos rfl, if_pos rfl, found]
      rfl
    · rw [if_neg same, if_neg (Ne.symm same)]
  · rw [if_neg held]
    by_cases same : key = id
    · subst same
      have absent := mt OrderedMap.contains_iff.mpr held
      rw [Option.not_isSome_iff_eq_none] at absent
      rw [if_pos rfl, absent]
      rfl
    · rw [if_neg same]

end

section

variable {id : String}

theorem get?_replaceRecipe (map : OrderedMap String RecipeDocument)
    (update : String × RecipeDocument) : (replaceRecipe map update).get? id =
      if update.1 = id then replacedBy update.2 (map.get? id) else map.get? id :=
  get?_store_held map update.1 update.2

def AppUpdate.replaced : AppUpdate → Option AppDefinitionDocument → Option AppDefinitionDocument
  | .reloaded document, held => replacedBy document held
  | .closed, held => held

def AppUpdate.kept : AppUpdate → Option AppDefinitionDocument → Option AppDefinitionDocument
  | .reloaded _, held => held
  | .closed, _ => none

theorem get?_replaceApp (map : OrderedMap String AppDefinitionDocument)
    (update : String × AppUpdate) : (replaceApp map update).get? id =
      if update.1 = id then update.2.replaced (map.get? id) else map.get? id := by
  obtain ⟨key, change⟩ := update
  cases change with
  | reloaded document => exact get?_store_held map key document
  | closed =>
      change map.get? id = if key = id then map.get? id else map.get? id
      rw [ite_self]

theorem get?_closeApp (map : OrderedMap String AppDefinitionDocument)
    (update : String × AppUpdate) : (closeApp map update).get? id =
      if update.1 = id then update.2.kept (map.get? id) else map.get? id := by
  obtain ⟨key, change⟩ := update
  cases change with
  | reloaded document =>
      change map.get? id = if key = id then map.get? id else map.get? id
      rw [ite_self]
  | closed =>
      change (map.erase key).get? id = if key = id then none else map.get? id
      rw [OrderedMap.get?_erase]
      by_cases same : key = id
      · rw [if_pos same, if_pos same.symm]
      · rw [if_neg same, if_neg (Ne.symm same)]

end

section

variable {disk : Disk} {changedFiles : List FilePath} {session : OpenDocuments} {updates : Updates}

structure Loaded (disk : Disk) (changedFiles : List FilePath) (session : OpenDocuments)
    (updates : Updates) : Prop where
  clean : affectedDirtyPaths changedFiles session = []
  recipes : List.Forall₂ (fun entry update => reloadRecipe disk entry = .ok update)
    (session.documents.entries.filter fun entry => entry.2.path ∈ changedFiles) updates.recipes
  apps : List.Forall₂ (fun entry update => reloadApp disk changedFiles entry = .ok update)
    (session.appDefinitions.entries.filter fun entry => entry.2.path ∈ changedFiles) updates.apps

theorem loadUpdates_eq_ok (loaded : loadUpdates disk changedFiles session = .ok updates) :
    Loaded disk changedFiles session updates := by
  simp only [loadUpdates, bind_eq_ok] at loaded
  obtain ⟨_, clean, recipes, loadedRecipes, apps, loadedApps, built⟩ := loaded
  cases Except.ok.inj built
  exact ⟨require_eq_ok.mp clean, mapM_eq_ok.mp loadedRecipes, mapM_eq_ok.mp loadedApps⟩

theorem reloadRecipe_eq_ok {entry update : String × RecipeDocument} :
    reloadRecipe disk entry = .ok update ↔
      openRecipe disk entry.2.path entry.2.authoredRoot = .ok update.2 ∧ update.1 = entry.1 := by
  unfold reloadRecipe
  cases opened : openRecipe disk entry.2.path entry.2.authoredRoot with
  | error error => simp
  | ok reloaded =>
      constructor
      · intro found
        cases Except.ok.inj found
        exact ⟨rfl, rfl⟩
      · rintro ⟨same, named⟩
        cases Except.ok.inj same
        rw [← named]

inductive AppReloaded (disk : Disk) (changedFiles : List FilePath) (document : AppDefinitionDocument) :
    AppUpdate → Prop
  | opened {reloaded} : openedAppDefinition disk document.path document.authoredRoot = .ok reloaded →
      AppReloaded disk changedFiles document (.reloaded reloaded)
  | renamed {error path reloaded} :
      openedAppDefinition disk document.path document.authoredRoot = .error error →
      disk.existsAt document.path = false →
      renamedPath disk changedFiles document.path = some path →
      openedAppDefinition disk path document.authoredRoot = .ok reloaded →
      AppReloaded disk changedFiles document (.reloaded reloaded)
  | vanished {error} :
      openedAppDefinition disk document.path document.authoredRoot = .error error →
      disk.existsAt document.path = false →
      renamedPath disk changedFiles document.path = none →
      AppReloaded disk changedFiles document .closed

theorem reloadApp_eq_ok {entry : String × AppDefinitionDocument} {update : String × AppUpdate}
    (reloaded : reloadApp disk changedFiles entry = .ok update) :
    AppReloaded disk changedFiles entry.2 update.2 ∧ update.1 = entry.1 := by
  unfold reloadApp at reloaded
  cases opened : openedAppDefinition disk entry.2.path entry.2.authoredRoot with
  | ok document =>
      simp only [opened] at reloaded
      cases Except.ok.inj reloaded
      exact ⟨.opened opened, rfl⟩
  | error error =>
      simp only [opened] at reloaded
      by_cases gone : disk.existsAt entry.2.path = false
      · rw [if_pos gone] at reloaded
        cases found : renamedPath disk changedFiles entry.2.path with
        | none =>
            simp only [found] at reloaded
            cases Except.ok.inj reloaded
            exact ⟨.vanished opened gone found, rfl⟩
        | some path =>
            cases again : openedAppDefinition disk path entry.2.authoredRoot with
            | error error =>
                simp only [found, again] at reloaded
                cases reloaded
            | ok document =>
                simp only [found, again] at reloaded
                cases Except.ok.inj reloaded
                exact ⟨.renamed opened gone found again, rfl⟩
      · rw [if_neg gone] at reloaded
        cases reloaded

theorem reloadRecipe_named (entry update : String × RecipeDocument)
    (reloaded : reloadRecipe disk entry = .ok update) : update.1 = entry.1 :=
  (reloadRecipe_eq_ok.mp reloaded).2

theorem reloadApp_named (entry : String × AppDefinitionDocument) (update : String × AppUpdate)
    (reloaded : reloadApp disk changedFiles entry = .ok update) : update.1 = entry.1 :=
  (reloadApp_eq_ok reloaded).2

end

section

variable {α β : Type} {related : String × α → String × β → Prop} {updates : List (String × β)}
  (named : ∀ entry update, related entry update → update.1 = entry.1)

include named

theorem map_fst_of_forall₂ {entries : List (String × α)}
    (all : List.Forall₂ related entries updates) :
    updates.map Prod.fst = entries.map Prod.fst := by
  induction all with
  | nil => rfl
  | cons first _ ih => rw [List.map_cons, List.map_cons, ih, named _ _ first]

variable (affected : α → Bool) {held : OrderedMap String α} {id : String}
  (all : List.Forall₂ related (held.entries.filter fun entry => affected entry.2) updates)

include all

theorem updates_distinct : (updates.map Prod.fst).Nodup := by
  rw [map_fst_of_forall₂ named all]
  exact held.distinct.sublist (List.filter_sublist.map Prod.fst)

theorem updates_absent (other : ∀ document, held.get? id = some document →
      affected document = false) : id ∉ updates.map Prod.fst := by
  rw [map_fst_of_forall₂ named all]
  intro member
  obtain ⟨⟨key, document⟩, listed, rfl⟩ := List.mem_map.mp member
  obtain ⟨inside, changed⟩ := List.mem_filter.mp listed
  rw [other document (OrderedMap.get?_eq_some.mpr inside)] at changed
  cases changed

theorem updates_present {document : α} (found : held.get? id = some document)
    (changed : affected document = true) :
    ∃ update, (id, update) ∈ updates ∧ related (id, document) (id, update) := by
  obtain ⟨⟨key, update⟩, member, reloaded⟩ := mem_right_of_forall₂ all
    (List.mem_filter.mpr ⟨OrderedMap.get?_eq_some.mp found, changed⟩)
  obtain rfl := named _ _ reloaded
  exact ⟨update, member, reloaded⟩

end

section

variable {disk : Disk} {changedFiles : List FilePath} {session : OpenDocuments} {updates : Updates}
  {id : String}

theorem openRecipe_refreshed {path : FilePath} {root : Option FilePath} {document : RecipeDocument}
    (opened : openRecipe disk path root = .ok document) :
    refreshProjection disk changedFiles id document = document := by
  simp only [openRecipe, bind_eq_ok] at opened
  obtain ⟨snapshot, _, recipe, _, yaml, _, built⟩ := opened
  cases Except.ok.inj built
  unfold refreshProjection RecipeDocument.refreshCatalogProjection
  split
  next => rfl
  next => rw [ite_self]

/-- The same content, saved state and history; only what the catalog says of it may differ. -/
def SameContent (before after : RecipeDocument) : Prop :=
  after = { before with diagnostics := after.diagnostics, appCatalog := after.appCatalog }

theorem refreshProjection_sameContent (document : RecipeDocument) :
    SameContent document (refreshProjection disk changedFiles id document) := by
  unfold SameContent refreshProjection RecipeDocument.refreshCatalogProjection
  split
  next => rfl
  next => split <;> rfl

theorem commit_recipe : (commit disk changedFiles updates session).documents.get? id =
    ((updates.recipes.foldl replaceRecipe session.documents).get? id).map
      (refreshProjection disk changedFiles id) :=
  OrderedMap.get?_mapValues

variable (loaded : Loaded disk changedFiles session updates)

include loaded

theorem Loaded.recipe_other (other : ∀ document, session.documents.get? id = some document →
      document.path ∉ changedFiles) :
    (commit disk changedFiles updates session).documents.get? id =
      (session.documents.get? id).map (refreshProjection disk changedFiles id) := by
  rw [commit_recipe, get?_foldl_absent (fun map update => get?_replaceRecipe map update) _
    (updates_absent reloadRecipe_named (·.path ∈ changedFiles) loaded.recipes fun document found =>
      decide_eq_false (other document found))]

theorem Loaded.recipe_affected
    {document : RecipeDocument} (held : session.documents.get? id = some document)
    (affected : document.path ∈ changedFiles) :
    ∃ reloaded, openRecipe disk document.path document.authoredRoot = .ok reloaded ∧
      (commit disk changedFiles updates session).documents.get? id = some reloaded := by
  obtain ⟨reloaded, member, found⟩ := updates_present reloadRecipe_named (·.path ∈ changedFiles)
    loaded.recipes held (decide_eq_true affected)
  obtain ⟨opened, -⟩ := reloadRecipe_eq_ok.mp found
  refine ⟨reloaded, opened, ?_⟩
  rw [commit_recipe, get?_foldl_present (fun map update => get?_replaceRecipe map update) _
    (updates_distinct reloadRecipe_named (·.path ∈ changedFiles) loaded.recipes) member, held]
  exact congrArg some (openRecipe_refreshed opened)

theorem Loaded.app_other (other : ∀ document, session.appDefinitions.get? id = some document →
      document.path ∉ changedFiles) :
    (commit disk changedFiles updates session).appDefinitions.get? id =
      session.appDefinitions.get? id := by
  have absent := updates_absent reloadApp_named (·.path ∈ changedFiles) loaded.apps fun document found =>
    decide_eq_false (other document found)
  exact (get?_foldl_absent (fun map update => get?_closeApp map update) _ absent).trans
    (get?_foldl_absent (fun map update => get?_replaceApp map update) _ absent)

def AppUpdate.document : AppUpdate → Option AppDefinitionDocument
  | .reloaded document => some document
  | .closed => none

theorem Loaded.app_affected
    {document : AppDefinitionDocument} (held : session.appDefinitions.get? id = some document)
    (affected : document.path ∈ changedFiles) :
    ∃ update, AppReloaded disk changedFiles document update ∧
      (commit disk changedFiles updates session).appDefinitions.get? id = update.document := by
  obtain ⟨update, member, found⟩ := updates_present reloadApp_named (·.path ∈ changedFiles)
    loaded.apps held (decide_eq_true affected)
  refine ⟨update, (reloadApp_eq_ok found).1, ?_⟩
  have distinct := updates_distinct reloadApp_named (·.path ∈ changedFiles) loaded.apps
  have replaced := get?_foldl_present (fun map update => get?_replaceApp map update)
    session.appDefinitions distinct member
  have closed := get?_foldl_present (fun map update => get?_closeApp map update)
    (updates.apps.foldl replaceApp session.appDefinitions) distinct member
  change (updates.apps.foldl closeApp _).get? id = _
  rw [closed, replaced, held]
  cases update <;> rfl

end

section

variable (disk : Disk) (changedFiles : List FilePath)

structure Reconciled (before after : OpenDocuments) : Prop where
  dirtyRecipe : ∀ id document, before.documents.get? id = some document → document.isDirty = true →
    ∃ kept, after.documents.get? id = some kept ∧ SameContent document kept
  dirtyApp : ∀ id document, before.appDefinitions.get? id = some document →
    document.isDirty = true → after.appDefinitions.get? id = some document
  affectedRecipe : ∀ id document, before.documents.get? id = some document →
    document.path ∈ changedFiles →
    ∃ reloaded, openRecipe disk document.path document.authoredRoot = .ok reloaded ∧
      after.documents.get? id = some reloaded
  affectedApp : ∀ id document, before.appDefinitions.get? id = some document →
    document.path ∈ changedFiles →
    ∃ update, AppReloaded disk changedFiles document update ∧
      after.appDefinitions.get? id = update.document
  otherRecipe : ∀ id document, before.documents.get? id = some document →
    document.path ∉ changedFiles →
    ∃ kept, after.documents.get? id = some kept ∧ SameContent document kept
  otherApp : ∀ id document, before.appDefinitions.get? id = some document →
    document.path ∉ changedFiles → after.appDefinitions.get? id = some document
  noRecipe : ∀ id, before.documents.get? id = none → after.documents.get? id = none
  noApp : ∀ id, before.appDefinitions.get? id = none → after.appDefinitions.get? id = none

variable {disk changedFiles} {session : OpenDocuments} {updates : Updates}

theorem mem_values_of_get? {κ α : Type} [DecidableEq κ] {map : OrderedMap κ α} {key : κ} {value : α}
    (held : map.get? key = some value) : value ∈ map.values :=
  List.mem_map.mpr ⟨_, OrderedMap.get?_eq_some.mp held, rfl⟩

section

variable (loaded : Loaded disk changedFiles session updates)

include loaded

variable {id : String}

theorem Loaded.dirtyRecipe_other
    {document : RecipeDocument} (held : session.documents.get? id = some document)
    (dirty : document.isDirty = true) : document.path ∉ changedFiles := by
  intro affected
  have listed : document.path ∈ affectedDirtyPaths changedFiles session :=
    List.mem_filter.mpr ⟨List.mem_append_left _ (List.mem_map.mpr ⟨document,
      List.mem_filter.mpr ⟨mem_values_of_get? held, dirty⟩, rfl⟩), decide_eq_true affected⟩
  rw [loaded.clean] at listed
  exact List.not_mem_nil listed

theorem Loaded.dirtyApp_other
    {document : AppDefinitionDocument} (held : session.appDefinitions.get? id = some document)
    (dirty : document.isDirty = true) : document.path ∉ changedFiles := by
  intro affected
  have listed : document.path ∈ affectedDirtyPaths changedFiles session :=
    List.mem_filter.mpr ⟨List.mem_append_right _ (List.mem_map.mpr ⟨document,
      List.mem_filter.mpr ⟨mem_values_of_get? held, dirty⟩, rfl⟩), decide_eq_true affected⟩
  rw [loaded.clean] at listed
  exact List.not_mem_nil listed

theorem Loaded.recipe_kept
    {document : RecipeDocument} (held : session.documents.get? id = some document)
    (other : document.path ∉ changedFiles) :
    ∃ kept, (commit disk changedFiles updates session).documents.get? id = some kept ∧
      SameContent document kept := by
  refine ⟨refreshProjection disk changedFiles id document, ?_, refreshProjection_sameContent _⟩
  rw [loaded.recipe_other, held, Option.map_some]
  intro found same
  rw [held] at same
  cases Option.some.inj same
  exact other

theorem Loaded.app_kept
    {document : AppDefinitionDocument} (held : session.appDefinitions.get? id = some document)
    (other : document.path ∉ changedFiles) :
    (commit disk changedFiles updates session).appDefinitions.get? id = some document := by
  rw [loaded.app_other, held]
  intro found same
  rw [held] at same
  cases Option.some.inj same
  exact other

theorem Loaded.reconciled :
    Reconciled disk changedFiles session (commit disk changedFiles updates session) where
  dirtyRecipe _ _ held dirty := loaded.recipe_kept held (loaded.dirtyRecipe_other held dirty)
  dirtyApp _ _ held dirty := loaded.app_kept held (loaded.dirtyApp_other held dirty)
  affectedRecipe _ _ held affected := loaded.recipe_affected held affected
  affectedApp _ _ held affected := loaded.app_affected held affected
  otherRecipe _ _ held other := loaded.recipe_kept held other
  otherApp _ _ held other := loaded.app_kept held other
  noRecipe id none := by
    rw [loaded.recipe_other, none, Option.map_none]
    intro document held
    rw [none] at held
    cases held
  noApp id none := by
    rw [loaded.app_other, none]
    intro document held
    rw [none] at held
    cases held

end

/-- A catalog change that fails leaves every open document as it was; one that succeeds replaces no
dirty document, loads every affected one again and leaves the others as they were. -/
theorem reconcileCatalogChange_coherent (disk : Disk) (changedFiles : List FilePath)
    (session : OpenDocuments) :
    (∃ error, reconcileCatalogChange disk changedFiles session = (.error error, session)) ∨
      ∃ after, reconcileCatalogChange disk changedFiles session = (.ok (), after) ∧
        Reconciled disk changedFiles session after := by
  unfold reconcileCatalogChange
  cases loaded : loadUpdates disk changedFiles session with
  | error error => exact .inl ⟨error, rfl⟩
  | ok updates => exact .inr ⟨_, rfl, (loadUpdates_eq_ok loaded).reconciled⟩

end

/-- The files of the list that are there now, were not there before the change and lie in the directory
of the path. -/
def newAppFiles (disk : Disk) (existedBefore : FilePath → Bool) (changedFiles : List FilePath)
    (path : FilePath) : List FilePath :=
  changedFiles.filter fun changed =>
    disk.existsAt changed && !existedBefore changed && parentPath changed = parentPath path

def emulatorPath : FilePath := ["catalog", "apps", "emulator.yaml"]

def frontendPath : FilePath := ["catalog", "apps", "frontend.yaml"]

def sampleAppDefinition (id : String) : AppDefinition :=
  ⟨1, "app_definition", id, id, "org." ++ id, .empty, none, .empty, .empty, none⟩

def frontendDisk : Disk where
  existsAt path := path = frontendPath
  snapshotExistingFile _ := .error "No such file or directory (os error 2)"
  loadRecipe _ _ := .error "invalid Recipe"
  emitRecipeYaml _ := .error "invalid Recipe"
  resolvedPath path := path
  normalizeAuthoredRoot root _ := root
  recipeDiagnostics _ _ _ := []
  projectAppCatalog _ := .null
  rejectSymlinkedCatalogMembership _ _ := .ok ()
  captureAppFile path :=
    if path = frontendPath then .ok ⟨path, [], 0⟩ else .error "No such file or directory (os error 2)"
  parseAppDefinition _ := .ok (sampleAppDefinition "frontend")
  catalogRootForAppPath _ := some ["catalog"]
  emitDraftYaml definition := .ok ("id: " ++ definition.id ++ "\n")
  appDiagnostics _ := []
  admissionDiagnostics _ _ _ _ := []

def emulatorDocument : AppDefinitionDocument :=
  { path := emulatorPath
    authoredRoot := some ["catalog"]
    catalogIdentity := none
    appDefinition := sampleAppDefinition "emulator"
    currentYaml := "id: emulator\n"
    savedYaml := "id: emulator\n"
    openedFile := ⟨emulatorPath, [], 0⟩
    diagnostics := []
    undoStack := []
    redoStack := [] }

def emulatorSession : OpenDocuments := ⟨.empty, .ofList [("document-1", emulatorDocument)]⟩

/-- The App Definition whose file vanished becomes a document of the other one that is listed, which was
there before. -/
theorem not_closed_without_new_file :
    frontendDisk.existsAt emulatorPath = false ∧
      newAppFiles frontendDisk (fun path => path = emulatorPath ∨ path = frontendPath)
        [emulatorPath, frontendPath] emulatorPath = [] ∧
      (reconcileCatalogChange frontendDisk [emulatorPath, frontendPath] emulatorSession).1 = .ok () ∧
      ((reconcileCatalogChange frontendDisk [emulatorPath, frontendPath]
        emulatorSession).2.appDefinitions.get? "document-1").map AppDefinitionDocument.path =
          some frontendPath := by
  decide +kernel

end EmuChef.Catalog
