import EmuChef.Lib.OrderedMap
import EmuChef.Lib.Worklist

/-! The catalog against which one Recipe is validated, and the walk over what the Recipe depends on.
-/

namespace EmuChef.Catalog

open Worklist

/-- A Recipe as the catalog follows it. Only the checks of its content read the rest. -/
structure Recipe (γ : Type) where
  id : String
  recipeDependencies : List String
  content : γ
  deriving DecidableEq

/-- What a scan reads from a file: a Recipe, only the id of a mapping that is none, or neither. -/
inductive Reading (γ : Type) where
  | recipe (recipe : Recipe γ)
  | declared (id : String)
  | unreadable
  deriving DecidableEq

def Reading.declaredId {γ : Type} : Reading γ → Option String
  | .recipe authored => some authored.id
  | .declared id => some id
  | .unreadable => none

def Reading.recipe? {γ : Type} : Reading γ → Option (Recipe γ)
  | .recipe authored => some authored
  | _ => none

/-- The resolved paths of the Recipe files in scan order, and what each of them holds. -/
structure AuthoredRoot (γ : Type) where
  files : List String
  read : String → Reading γ

structure Detail where
  code : String
  objectKind : Option String
  objectId : Option String
  field : Option String
  deriving DecidableEq

inductive CatalogDiagnostic where
  | recipeIdConflict (id : String)
  | recipeNotFound (id : String) (index : Nat)
  | dependencyCycle (id : String)
  | content (detail : Detail)
  deriving DecidableEq

def CatalogDiagnostic.detail : CatalogDiagnostic → Detail
  | .recipeIdConflict id => ⟨"recipe_id_conflict", some "recipe", some id, some "id"⟩
  | .recipeNotFound id index => ⟨"recipe_not_found", some "recipe", some id,
      some ("recipe_dependencies[" ++ toString index ++ "]")⟩
  | .dependencyCycle id =>
      ⟨"dependency_cycle", some "recipe", some id, some "recipe_dependencies"⟩
  | .content detail => detail

/-- The checks of one Recipe's content against the App Definitions of the catalog. -/
structure ContentChecks (γ : Type) where
  localContent : Recipe γ → List Detail
  appDefinitionDiagnostics : List Detail
  concerns : Recipe γ → Detail → Bool
  appContent : Recipe γ → List Detail

def Named {γ : Type} (recipes : OrderedMap String (Recipe γ)) : Prop :=
  ∀ id recipe, recipes.get? id = some recipe → recipe.id = id

structure ValidationCatalog (γ : Type) where
  recipes : OrderedMap String (Recipe γ)
  recipeFiles : OrderedMap String (List String)
  named : Named recipes

variable {γ : Type}

theorem Named.insert {recipes : OrderedMap String (Recipe γ)} (named : Named recipes)
    (recipe : Recipe γ) : Named (recipes.insert recipe.id recipe) := by
  intro id found held
  rw [OrderedMap.get?_insert] at held
  split at held
  next same => rw [← Option.some.inj held, same]
  next => exact named id found held

theorem Named.erase {recipes : OrderedMap String (Recipe γ)} (named : Named recipes)
    (key : String) : Named (recipes.erase key) := by
  intro id found held
  rw [OrderedMap.get?_erase] at held
  split at held
  next => exact nomatch held
  next => exact named id found held

namespace ValidationCatalog

def empty : ValidationCatalog γ := ⟨.empty, .empty, nofun⟩

def filesOf (catalog : ValidationCatalog γ) (id : String) : List String :=
  (catalog.recipeFiles.get? id).getD []

def addFile (catalog : ValidationCatalog γ) (id path : String) : ValidationCatalog γ :=
  { catalog with recipeFiles := catalog.recipeFiles.insert id (catalog.filesOf id ++ [path]) }

def collectRecipe (catalog : ValidationCatalog γ) (path : String) :
    Reading γ → ValidationCatalog γ
  | .unreadable => catalog
  | .declared id => catalog.addFile id path
  | .recipe recipe =>
      let indexed := catalog.addFile recipe.id path
      if catalog.recipes.contains recipe.id then indexed
      else
        { indexed with
          recipes := catalog.recipes.insert recipe.id recipe
          named := catalog.named.insert recipe }

def collect (root : AuthoredRoot γ) : ValidationCatalog γ :=
  root.files.foldl (fun catalog path => catalog.collectRecipe path (root.read path)) empty

def firstRecipeIdForPath (catalog : ValidationCatalog γ) (target : String) : Option String :=
  (catalog.recipeFiles.entries.find? fun entry => entry.2.head? = some target).map Prod.fst

def withoutReplaced (catalog : ValidationCatalog γ) (target : String) :
    OrderedMap String (Recipe γ) :=
  match catalog.firstRecipeIdForPath target with
  | some existing => catalog.recipes.erase existing
  | none => catalog.recipes

theorem named_withoutReplaced (catalog : ValidationCatalog γ) (target : String) :
    Named (catalog.withoutReplaced target) := by
  unfold withoutReplaced
  split
  · exact catalog.named.erase _
  · exact catalog.named

def overlay (catalog : ValidationCatalog γ) (recipe : Recipe γ) (target : String) :
    OrderedMap String (Recipe γ) :=
  (catalog.withoutReplaced target).insert recipe.id recipe

def conflicts (catalog : ValidationCatalog γ) (recipe : Recipe γ) (target : String) : Bool :=
  if catalog.firstRecipeIdForPath target = some recipe.id then false
  else (catalog.filesOf recipe.id).head?.any (· ≠ target)

end ValidationCatalog

/-- What the walk knows of an id: its Recipe, which names itself so, and whether more than one
file declares it. -/
@[ext] structure View (γ : Type) where
  lookup : String → Option (Recipe γ)
  ambiguous : String → Bool
  named : ∀ id recipe, lookup id = some recipe → recipe.id = id

structure Report where
  seen : List Detail
  errors : List CatalogDiagnostic

section

variable (checks : ContentChecks γ) (view : View γ) (draft : String)

def missingDependencies (recipe : Recipe γ) : List CatalogDiagnostic :=
  recipe.recipeDependencies.zipIdx.filterMap fun entry =>
    if (view.lookup entry.1).isSome then none else some (.recipeNotFound recipe.id entry.2)

def pendingDependencies (current : String) : List String :=
  match view.lookup current with
  | none => []
  | some recipe =>
      if view.ambiguous current then []
      else recipe.recipeDependencies.filter fun dependency => (view.lookup dependency).isSome

def contentErrors (seen : List Detail) (current : String) (recipe : Recipe γ) :
    List Detail × List Detail :=
  let localErrors := if current = draft then [] else checks.localContent recipe
  let fresh := (checks.appDefinitionDiagnostics.filter fun detail =>
    checks.concerns recipe detail && !seen.contains detail).eraseDups
  (fresh, localErrors ++ fresh ++ checks.appContent recipe)

def visitRecipe (report : Report) (current : String) : Report :=
  match view.lookup current with
  | none => report
  | some recipe =>
      if view.ambiguous current then
        { report with errors := report.errors ++ [.recipeIdConflict current] }
      else
        let found := contentErrors checks draft report.seen current recipe
        { seen := report.seen ++ found.1
          errors := report.errors ++ found.2.map .content ++ missingDependencies view recipe }

end

namespace ValidationCatalog

variable (checks : ContentChecks γ) (catalog : ValidationCatalog γ) (recipe : Recipe γ)
  (target : String)

def view : View γ where
  lookup := (catalog.overlay recipe target).get?
  ambiguous current := current ≠ recipe.id && 1 < (catalog.filesOf current).length
  named := (catalog.named_withoutReplaced target).insert recipe

def dependencyCycleReachable (recipes : OrderedMap String (Recipe γ)) (selected : String) : Bool :=
  (visitCycle (fun id => (recipes.get? id).map Recipe.recipeDependencies)
    (recipes.keys.length + 1) [] ∅ selected).1

def validateRecipe (targetInCatalogRoot : Bool) : List CatalogDiagnostic :=
  let recipes := catalog.overlay recipe target
  let view := catalog.view recipe target
  let conflict := if targetInCatalogRoot && catalog.conflicts recipe target then
    [CatalogDiagnostic.recipeIdConflict recipe.id] else []
  let fuel := 1 + ∑ id ∈ recipes.keys.toFinset, (pendingDependencies view id).length
  let report := explore (pendingDependencies view) (visitRecipe checks view recipe.id) fuel
    [recipe.id] ∅ ⟨[], conflict⟩
  report.errors ++
    if dependencyCycleReachable recipes recipe.id then [.dependencyCycle recipe.id] else []

end ValidationCatalog

section

variable {checks : ContentChecks γ} {view : View γ} {draft : String}

def shown (checks : ContentChecks γ) (view : View γ) (draft current : String) :
    List CatalogDiagnostic :=
  match view.lookup current with
  | none => []
  | some recipe =>
      if view.ambiguous current then [.recipeIdConflict current]
      else (contentErrors checks draft [] current recipe).2.map .content ++ missingDependencies view recipe

theorem mem_contentErrors {seen : List Detail} {current : String} {recipe : Recipe γ}
    {detail : Detail} :
    detail ∈ (contentErrors checks draft seen current recipe).2 ∨ detail ∈ seen ↔
      detail ∈ (contentErrors checks draft [] current recipe).2 ∨ detail ∈ seen := by
  simp only [contentErrors, List.mem_append, List.mem_eraseDups, List.mem_filter, Bool.and_eq_true,
    Bool.not_eq_true', List.contains_eq_mem, decide_eq_false_iff_not, List.not_mem_nil,
    not_false_eq_true, and_true]
  tauto

def Report.Shows (report : Report) : Prop :=
  ∀ detail ∈ report.seen, CatalogDiagnostic.content detail ∈ report.errors

theorem visitRecipe_spec (checks : ContentChecks γ) (view : View γ) (draft : String)
    {report : Report} (shows : report.Shows) (current : String) :
    (visitRecipe checks view draft report current).Shows ∧
      ∀ diagnostic, diagnostic ∈ (visitRecipe checks view draft report current).errors ↔
        diagnostic ∈ report.errors ∨ diagnostic ∈ shown checks view draft current := by
  unfold visitRecipe shown
  split
  next missing => exact ⟨shows, by simp⟩
  next recipe found =>
    split
    next ambiguous =>
      refine ⟨fun detail seen => ?_, by simp⟩
      exact List.mem_append_left _ (shows detail seen)
    next clear =>
      constructor
      · intro detail seen
        rcases List.mem_append.mp seen with earlier | fresh
        · exact List.mem_append_left _ (List.mem_append_left _ (shows detail earlier))
        · refine List.mem_append_left _ (List.mem_append_right _ (List.mem_map.mpr ⟨detail, ?_, rfl⟩))
          simp only [contentErrors, List.mem_append]
          exact .inl (.inr fresh)
      · intro diagnostic
        simp only [List.mem_append, List.mem_map, or_assoc]
        constructor
        · rintro (earlier | ⟨detail, listed, rfl⟩ | missing)
          · exact .inl earlier
          · rcases mem_contentErrors.mp (.inl listed) with shown | seen
            · exact .inr (.inl ⟨detail, shown, rfl⟩)
            · exact .inl (shows detail seen)
          · exact .inr (.inr missing)
        · rintro (earlier | ⟨detail, listed, rfl⟩ | missing)
          · exact .inl earlier
          · rcases mem_contentErrors.mpr (.inl listed) with shown | seen
            · exact .inr (.inl ⟨detail, shown, rfl⟩)
            · exact .inl (shows detail seen)
          · exact .inr (.inr missing)

theorem mem_errors_foldl {order : List String} {report : Report} (shows : report.Shows)
    {diagnostic : CatalogDiagnostic} :
    diagnostic ∈ (order.foldl (visitRecipe checks view draft) report).errors ↔
      diagnostic ∈ report.errors ∨
        ∃ current ∈ order, diagnostic ∈ shown checks view draft current := by
  induction order generalizing report with
  | nil => simp
  | cons current order ih =>
      obtain ⟨still, errors⟩ := visitRecipe_spec checks view draft shows current
      rw [List.foldl_cons, ih still, errors, or_assoc]
      simp

/-- A diagnostic comes from the conflicting id, from a Recipe that the walk visits, or from a cycle. -/
theorem mem_validateRecipe {catalog : ValidationCatalog γ} {recipe : Recipe γ} {target : String}
    {inRoot : Bool} {diagnostic : CatalogDiagnostic} :
    diagnostic ∈ catalog.validateRecipe checks recipe target inRoot ↔
      (diagnostic = .recipeIdConflict recipe.id ∧
        (inRoot && catalog.conflicts recipe target) = true) ∨
      (∃ current, Reaches (pendingDependencies (catalog.view recipe target)) recipe.id current ∧
        diagnostic ∈ shown checks (catalog.view recipe target) recipe.id current) ∨
      (diagnostic = .dependencyCycle recipe.id ∧
        CycleReachable (fun id => ((catalog.overlay recipe target).get? id).map
          Recipe.recipeDependencies) recipe.id) := by
  have closed : ∀ point ∉ (catalog.overlay recipe target).keys.toFinset,
      pendingDependencies (catalog.view recipe target) point = [] := by
    intro point missing
    rw [List.mem_toFinset] at missing
    have unknown : (catalog.view recipe target).lookup point = none :=
      OrderedMap.get?_eq_none.mpr missing
    simp [pendingDependencies, unknown]
  have bounded : ∀ point, (((catalog.overlay recipe target).get? point).map
      Recipe.recipeDependencies).isSome → point ∈ (catalog.overlay recipe target).keys.toFinset := by
    intro point known
    rw [List.mem_toFinset, ← OrderedMap.get?_isSome]
    simpa using known
  have room : (catalog.overlay recipe target).keys.toFinset.card <
      (catalog.overlay recipe target).keys.length + 1 :=
    Nat.lt_succ_of_le (List.toFinset_card_le _)
  obtain ⟨order, same, covers⟩ := explore_from
    (visitRecipe checks (catalog.view recipe target) recipe.id) _ closed recipe.id
    ⟨[], if inRoot && catalog.conflicts recipe target then
      [CatalogDiagnostic.recipeIdConflict recipe.id] else []⟩ (Nat.le_refl _)
  have cyclic := visitCycle_iff bounded recipe.id room
  simp only [ValidationCatalog.validateRecipe, same, List.mem_append]
  rw [mem_errors_foldl (by simp [Report.Shows]), or_assoc]
  refine or_congr ?_ (or_congr ?_ ?_)
  · split <;> simp_all
  · simp only [covers]
  · rw [← cyclic, ValidationCatalog.dependencyCycleReachable]
    split <;> simp_all

end

section

variable {root : AuthoredRoot γ}

def declaring (root : AuthoredRoot γ) (id : String) : List String :=
  root.files.filter fun path => (root.read path).declaredId = some id

def Reading.recipeOf (reading : Reading γ) (id : String) : Option (Recipe γ) :=
  reading.recipe?.filter fun recipe => recipe.id = id

def usable (root : AuthoredRoot γ) (id : String) : Option (Recipe γ) :=
  root.files.findSome? fun path => (root.read path).recipeOf id

@[simp] theorem filesOf_addFile (catalog : ValidationCatalog γ) (id path other : String) :
    (catalog.addFile id path).filesOf other =
      catalog.filesOf other ++ if id = other then [path] else [] := by
  simp only [ValidationCatalog.filesOf, ValidationCatalog.addFile, OrderedMap.get?_insert]
  by_cases same : other = id
  · simp [same]
  · simp [same, Ne.symm same]

variable {catalog : ValidationCatalog γ}

theorem filesOf_collectRecipe {path id : String} {reading : Reading γ} :
    (catalog.collectRecipe path reading).filesOf id =
      catalog.filesOf id ++ if reading.declaredId = some id then [path] else [] := by
  cases reading with
  | unreadable => simp [ValidationCatalog.collectRecipe, Reading.declaredId]
  | declared other => simp [ValidationCatalog.collectRecipe, Reading.declaredId]
  | recipe recipe =>
      have indexed := filesOf_addFile catalog recipe.id path id
      simp only [ValidationCatalog.collectRecipe, Reading.declaredId, Option.some.injEq]
      split <;> exact indexed

theorem recipes_collectRecipe {path id : String} {reading : Reading γ} :
    (catalog.collectRecipe path reading).recipes.get? id =
      (catalog.recipes.get? id).or (reading.recipeOf id) := by
  cases reading with
  | unreadable => simp [ValidationCatalog.collectRecipe, Reading.recipeOf, Reading.recipe?]
  | declared other =>
      simp [ValidationCatalog.collectRecipe, ValidationCatalog.addFile, Reading.recipeOf,
        Reading.recipe?]
  | recipe recipe =>
      simp only [ValidationCatalog.collectRecipe, Reading.recipeOf, Reading.recipe?]
      by_cases known : catalog.recipes.contains recipe.id = true
      · rw [if_pos known]
        by_cases same : recipe.id = id
        · subst same
          rw [OrderedMap.contains_iff, Option.isSome_iff_exists] at known
          obtain ⟨kept, held⟩ := known
          simp [ValidationCatalog.addFile, held]
        · simp [ValidationCatalog.addFile, Option.filter, same]
      · rw [if_neg known]
        by_cases same : recipe.id = id
        · subst same
          rw [OrderedMap.contains_iff, Option.not_isSome_iff_eq_none] at known
          simp [known, Option.filter]
        · simp [Option.filter, same, Ne.symm same]

theorem filesOf_foldl {files : List String} {id : String} :
    (files.foldl (fun catalog path => catalog.collectRecipe path (root.read path)) catalog).filesOf
        id =
      catalog.filesOf id ++ files.filter fun path => (root.read path).declaredId = some id := by
  induction files generalizing catalog with
  | nil => simp
  | cons path files ih =>
      rw [List.foldl_cons, ih, filesOf_collectRecipe, List.filter_cons]
      split <;> simp_all

theorem filesOf_collect (root : AuthoredRoot γ) (id : String) :
    (ValidationCatalog.collect root).filesOf id = declaring root id := by
  rw [ValidationCatalog.collect, filesOf_foldl, declaring]
  simp [ValidationCatalog.filesOf, ValidationCatalog.empty]

theorem recipes_foldl {files : List String} {id : String} :
    (files.foldl (fun catalog path => catalog.collectRecipe path (root.read path))
        catalog).recipes.get? id =
      (catalog.recipes.get? id).or (files.findSome? fun path => (root.read path).recipeOf id) := by
  induction files generalizing catalog with
  | nil => simp
  | cons path files ih =>
      rw [List.foldl_cons, ih, recipes_collectRecipe, List.findSome?_cons]
      cases catalog.recipes.get? id <;> cases (root.read path).recipeOf id <;> rfl

theorem recipes_collect (root : AuthoredRoot γ) (id : String) :
    (ValidationCatalog.collect root).recipes.get? id = usable root id := by
  rw [ValidationCatalog.collect, recipes_foldl, usable]
  simp [ValidationCatalog.empty]

theorem mem_declaring {path id : String} :
    path ∈ declaring root id ↔ path ∈ root.files ∧ (root.read path).declaredId = some id := by
  simp [declaring]

theorem firstRecipeIdForPath_collect {target id : String} :
    (ValidationCatalog.collect root).firstRecipeIdForPath target = some id ↔
      (declaring root id).head? = some target := by
  have listed : ∀ other paths,
      (other, paths) ∈ (ValidationCatalog.collect root).recipeFiles.entries →
      paths = declaring root other := by
    intro other paths member
    rw [← filesOf_collect, ValidationCatalog.filesOf, OrderedMap.get?_eq_some.mpr member]
    rfl
  have unique : ∀ other, (declaring root other).head? = some target →
      (root.read target).declaredId = some other := by
    intro other first
    exact (mem_declaring.mp (List.mem_of_head? first)).2
  rw [ValidationCatalog.firstRecipeIdForPath, Option.map_eq_some_iff]
  constructor
  · rintro ⟨⟨other, paths⟩, found, rfl⟩
    have first := List.find?_some found
    rw [listed other paths (List.mem_of_find?_eq_some found)] at first
    simpa using first
  · intro first
    have known : declaring root id ≠ [] := by
      intro none'
      rw [none'] at first
      exact nomatch first
    have entry : ∃ paths, (id, paths) ∈ (ValidationCatalog.collect root).recipeFiles.entries := by
      by_contra missing
      refine known ?_
      have absent : (ValidationCatalog.collect root).recipeFiles.get? id = none := by
        refine Option.eq_none_iff_forall_ne_some.mpr fun paths held => missing ⟨paths, ?_⟩
        exact OrderedMap.get?_eq_some.mp held
      rw [← filesOf_collect, ValidationCatalog.filesOf, absent]
      rfl
    obtain ⟨paths, member⟩ := entry
    have some' : ((ValidationCatalog.collect root).recipeFiles.entries.find? fun entry =>
        entry.2.head? = some target).isSome := by
      rw [List.find?_isSome]
      refine ⟨(id, paths), member, ?_⟩
      rw [listed id paths member]
      simpa using first
    obtain ⟨⟨other, otherPaths⟩, found⟩ := Option.isSome_iff_exists.mp some'
    have otherFirst := List.find?_some found
    rw [listed other otherPaths (List.mem_of_find?_eq_some found)] at otherFirst
    have same := (unique other (by simpa using otherFirst)).symm.trans (unique id first)
    exact ⟨_, found, Option.some.inj same⟩

end

end EmuChef.Catalog
