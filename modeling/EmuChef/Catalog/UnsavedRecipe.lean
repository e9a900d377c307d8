import EmuChef.Catalog.ValidationCatalog

/-! An unsaved Recipe against the catalog on disk, and the same Recipe after its file is saved. -/

namespace EmuChef.Catalog

open Relation
open Worklist

variable {γ : Type}

section

variable {checks : ContentChecks γ} {stale saved : View γ} {draft former : String}

def WalkShows (checks : ContentChecks γ) (view : View γ) (draft : String)
    (diagnostic : CatalogDiagnostic) : Prop :=
  ∃ current, Reaches (pendingDependencies view) draft current ∧
    diagnostic ∈ shown checks view draft current

def Needed (view : View γ) (draft id : String) : Prop :=
  ∃ current recipe, Reaches (pendingDependencies view) draft current ∧
    view.lookup current = some recipe ∧ view.ambiguous current = false ∧
    id ∈ recipe.recipeDependencies

structure AgreeOff (stale saved : View γ) (former : String) : Prop where
  lookup : ∀ id, id ≠ former → stale.lookup id = saved.lookup id
  ambiguous : ∀ id, id ≠ former → stale.ambiguous id = saved.ambiguous id

/-- An id leads to the same findings in both views: it is unknown in both, or known and ambiguous
in both. -/
def SameOutlook (stale saved : View γ) (id : String) : Prop :=
  (stale.lookup id = none ∧ saved.lookup id = none) ∨
    ((stale.lookup id).isSome = true ∧ (saved.lookup id).isSome = true ∧
      stale.ambiguous id = true ∧ saved.ambiguous id = true)

theorem same_visit {current : String} (lookup : stale.lookup current = saved.lookup current)
    (ambiguous : stale.ambiguous current = saved.ambiguous current)
    (known : ∀ recipe, saved.lookup current = some recipe → saved.ambiguous current = false →
      ∀ dependency ∈ recipe.recipeDependencies,
        (stale.lookup dependency).isSome = (saved.lookup dependency).isSome) :
    shown checks stale draft current = shown checks saved draft current ∧
      pendingDependencies stale current = pendingDependencies saved current := by
  unfold shown pendingDependencies
  rw [lookup, ambiguous]
  cases found : saved.lookup current with
  | none => exact ⟨rfl, rfl⟩
  | some recipe =>
      cases clear : saved.ambiguous current with
      | true => exact ⟨rfl, rfl⟩
      | false =>
          have agrees := known recipe found clear
          have missing : missingDependencies stale recipe = missingDependencies saved recipe := by
            unfold missingDependencies
            refine List.filterMap_congr fun entry listed => ?_
            rw [agrees entry.1 (List.fst_mem_of_mem_zipIdx listed)]
          have pending : recipe.recipeDependencies.filter (fun dependency =>
              (stale.lookup dependency).isSome) =
              recipe.recipeDependencies.filter fun dependency =>
                (saved.lookup dependency).isSome :=
            List.filter_congr agrees
          exact ⟨by simp [missing], by simp [pending]⟩

theorem walkShows_congr (same : ∀ current, shown checks stale draft current =
      shown checks saved draft current ∧
        pendingDependencies stale current = pendingDependencies saved current)
    (diagnostic : CatalogDiagnostic) :
    WalkShows checks stale draft diagnostic ↔ WalkShows checks saved draft diagnostic := by
  have next : pendingDependencies stale = pendingDependencies saved :=
    funext fun current => (same current).2
  unfold WalkShows
  rw [next]
  exact exists_congr fun current => and_congr_right fun _ => by rw [(same current).1]

theorem walkShows_of_sameOutlook (off : AgreeOff stale saved former)
    (same : SameOutlook stale saved former) (diagnostic : CatalogDiagnostic) :
    WalkShows checks stale draft diagnostic ↔ WalkShows checks saved draft diagnostic := by
  have known : ∀ id, (stale.lookup id).isSome = (saved.lookup id).isSome := by
    intro id
    by_cases differs : id = former
    · subst differs
      rcases same with ⟨first, second⟩ | ⟨first, second, _⟩
      · rw [first, second]
      · rw [first, second]
    · rw [off.lookup id differs]
  refine walkShows_congr (fun current => ?_) diagnostic
  by_cases differs : current = former
  · subst differs
    rcases same with ⟨first, second⟩ | ⟨first, second, staleAmbiguous, savedAmbiguous⟩
    · simp [shown, pendingDependencies, first, second]
    · obtain ⟨staleRecipe, staleFound⟩ := Option.isSome_iff_exists.mp first
      obtain ⟨savedRecipe, savedFound⟩ := Option.isSome_iff_exists.mp second
      simp [shown, pendingDependencies, staleFound, savedFound, staleAmbiguous, savedAmbiguous]
  · exact same_visit (off.lookup current differs) (off.ambiguous current differs)
      fun _ _ _ dependency _ => known dependency

variable {view : View γ}

theorem mem_pendingDependencies {current dependency : String} :
    dependency ∈ pendingDependencies view current ↔
      ∃ recipe, view.lookup current = some recipe ∧ view.ambiguous current = false ∧
        dependency ∈ recipe.recipeDependencies ∧ (view.lookup dependency).isSome = true := by
  unfold pendingDependencies
  cases found : view.lookup current with
  | none => simp
  | some recipe =>
      cases clear : view.ambiguous current with
      | true => simp
      | false => simp

theorem walkShows_of_not_needed (off : AgreeOff stale saved former) (other : former ≠ draft)
    (unneeded : ¬ Needed saved draft former) (diagnostic : CatalogDiagnostic) :
    WalkShows checks stale draft diagnostic ↔ WalkShows checks saved draft diagnostic := by
  have apart : ∀ current, Reaches (pendingDependencies saved) draft current →
      current ≠ former := by
    rintro current path rfl
    rcases path.cases_tail with same | ⟨before, reached, edge⟩
    · exact other same
    · obtain ⟨recipe, found, clear, listed, _⟩ := mem_pendingDependencies.mp edge
      exact unneeded ⟨before, recipe, reached, found, clear, listed⟩
  have same : ∀ current, Reaches (pendingDependencies saved) draft current →
      shown checks stale draft current = shown checks saved draft current ∧
        pendingDependencies stale current = pendingDependencies saved current := by
    intro current reached
    have differs := apart current reached
    refine same_visit (off.lookup current differs) (off.ambiguous current differs) ?_
    intro recipe found clear dependency listed
    by_cases meets : dependency = former
    · subst meets
      exact absurd ⟨current, recipe, reached, found, clear, listed⟩ unneeded
    · rw [off.lookup dependency meets]
  have forth : ∀ current, Reaches (pendingDependencies saved) draft current →
      Reaches (pendingDependencies stale) draft current := by
    intro current path
    induction path with
    | refl => exact .refl
    | tail path edge ih =>
        refine ih.tail ?_
        rw [Edge, (same _ path).2]
        exact edge
  have back : ∀ current, Reaches (pendingDependencies stale) draft current →
      Reaches (pendingDependencies saved) draft current := by
    intro current path
    induction path with
    | refl => exact .refl
    | tail path edge ih =>
        refine ih.tail ?_
        rw [Edge, ← (same _ ih).2]
        exact edge
  constructor
  · rintro ⟨current, reached, seen⟩
    have path := back current reached
    exact ⟨current, path, (same current path).1 ▸ seen⟩
  · rintro ⟨current, reached, seen⟩
    exact ⟨current, forth current reached, (same current reached).1 ▸ seen⟩

structure Entry (stale saved : View γ) (draft former current : String) (recipe : Recipe γ) :
    Prop where
  apart : current ≠ former
  reachedStale : Reaches (pendingDependencies stale) draft current
  reachedSaved : Reaches (pendingDependencies saved) draft current
  found : saved.lookup current = some recipe
  clear : saved.ambiguous current = false
  needs : former ∈ recipe.recipeDependencies

theorem exists_entry (off : AgreeOff stale saved former) (other : former ≠ draft)
    (needed : Needed saved draft former) :
    ∃ current recipe, Entry stale saved draft former current recipe := by
  obtain ⟨last, lastRecipe, path, found, clear, listed⟩ := needed
  have either : (last ≠ former ∧ Reaches (pendingDependencies stale) draft last) ∨
      ∃ current recipe, Entry stale saved draft former current recipe := by
    clear found clear listed
    induction path with
    | refl => exact .inl ⟨Ne.symm other, .refl⟩
    | tail path edge ih =>
        rename_i before after
        rcases ih with ⟨apart, reached⟩ | entry
        · obtain ⟨recipe, found, clear, listed, known⟩ := mem_pendingDependencies.mp edge
          by_cases meets : after = former
          · subst meets
            exact .inr ⟨before, recipe, apart, reached, path, found, clear, listed⟩
          · refine .inl ⟨meets, reached.tail ?_⟩
            refine mem_pendingDependencies.mpr ⟨recipe, ?_, ?_, listed, ?_⟩
            · rw [off.lookup before apart, found]
            · rw [off.ambiguous before apart, clear]
            · rw [off.lookup after meets, known]
        · exact .inr entry
  rcases either with ⟨apart, reached⟩ | entry
  · exact ⟨last, lastRecipe, apart, reached, path, found, clear, listed⟩
  · exact entry

theorem walkShows_recipeNotFound {id : String} {index : Nat} :
    WalkShows checks view draft (.recipeNotFound id index) ↔
      Reaches (pendingDependencies view) draft id ∧
      ∃ recipe dependency, view.lookup id = some recipe ∧ view.ambiguous id = false ∧
        recipe.recipeDependencies[index]? = some dependency ∧ view.lookup dependency = none := by
  have shows : ∀ current, CatalogDiagnostic.recipeNotFound id index ∈
      shown checks view draft current ↔ current = id ∧ ∃ recipe dependency,
        view.lookup id = some recipe ∧ view.ambiguous id = false ∧
        recipe.recipeDependencies[index]? = some dependency ∧ view.lookup dependency = none := by
    intro current
    unfold shown missingDependencies
    constructor
    · intro listed
      cases found : view.lookup current with
      | none => simp [found] at listed
      | some recipe =>
          cases clear : view.ambiguous current with
          | true => simp [found, clear] at listed
          | false =>
              simp only [found, clear, Bool.false_eq_true, ↓reduceIte, List.mem_append,
                List.mem_map, reduceCtorEq, and_false, exists_false, false_or, List.mem_filterMap,
                Prod.exists, List.mk_mem_zipIdx_iff_getElem?] at listed
              obtain ⟨dependency, position, here, missing⟩ := listed
              split at missing
              · exact nomatch missing
              next unknown =>
                have same := Option.some.inj missing
                rw [CatalogDiagnostic.recipeNotFound.injEq] at same
                obtain ⟨rfl, rfl⟩ := same
                have named := view.named current recipe found
                subst named
                exact ⟨rfl, recipe, dependency, found, clear, here, by simpa using unknown⟩
    · rintro ⟨rfl, recipe, dependency, found, clear, here, unknown⟩
      have named := view.named current recipe found
      simp only [found, clear, Bool.false_eq_true, ↓reduceIte, List.mem_append, List.mem_filterMap,
        Prod.exists, List.mk_mem_zipIdx_iff_getElem?]
      exact .inr ⟨dependency, index, here, by simp [unknown, named]⟩
  constructor
  · rintro ⟨current, reached, listed⟩
    obtain ⟨rfl, rest⟩ := (shows current).mp listed
    exact ⟨reached, rest⟩
  · rintro ⟨reached, rest⟩
    exact ⟨id, reached, (shows id).mpr ⟨rfl, rest⟩⟩

theorem walkShows_recipeIdConflict {id : String} :
    WalkShows checks view draft (.recipeIdConflict id) ↔
      Reaches (pendingDependencies view) draft id ∧ (view.lookup id).isSome = true ∧
        view.ambiguous id = true := by
  have shows : ∀ current, CatalogDiagnostic.recipeIdConflict id ∈ shown checks view draft current ↔
      current = id ∧ (view.lookup current).isSome = true ∧ view.ambiguous current = true := by
    intro current
    unfold shown missingDependencies
    cases found : view.lookup current with
    | none => simp
    | some recipe =>
        cases clear : view.ambiguous current with
        | true => simp [eq_comm]
        | false => simp
  constructor
  · rintro ⟨current, reached, listed⟩
    obtain ⟨rfl, rest⟩ := (shows current).mp listed
    exact ⟨reached, rest⟩
  · rintro ⟨reached, rest⟩
    exact ⟨id, reached, (shows id).mpr ⟨rfl, rest⟩⟩

theorem exists_difference (checks : ContentChecks γ) (off : AgreeOff stale saved former)
    (other : former ≠ draft)
    (doubled : (stale.lookup former).isSome = true → stale.ambiguous former = true)
    (needed : Needed saved draft former) (differs : ¬ SameOutlook stale saved former) :
    ∃ diagnostic, diagnostic ≠ .recipeIdConflict draft ∧ diagnostic ≠ .dependencyCycle draft ∧
      ¬ (WalkShows checks stale draft diagnostic ↔ WalkShows checks saved draft diagnostic) := by
  obtain ⟨current, recipe, entry⟩ := exists_entry off other needed
  obtain ⟨index, bound, here⟩ := List.getElem_of_mem entry.needs
  have listed : recipe.recipeDependencies[index]? = some former := by
    rw [List.getElem?_eq_getElem bound, here]
  have staleFound : stale.lookup current = some recipe := by
    rw [off.lookup current entry.apart, entry.found]
  have staleClear : stale.ambiguous current = false := by
    rw [off.ambiguous current entry.apart, entry.clear]
  cases staleKnown : stale.lookup former with
  | none =>
      have known : saved.lookup former ≠ none := fun missing => differs (.inl ⟨staleKnown, missing⟩)
      refine ⟨.recipeNotFound current index, by simp, by simp, fun same => ?_⟩
      obtain ⟨_, found, dependency, held, _, position, missing⟩ := walkShows_recipeNotFound.mp
        (same.mp (walkShows_recipeNotFound.mpr
          ⟨entry.reachedStale, recipe, former, staleFound, staleClear, listed, staleKnown⟩))
      obtain rfl : recipe = found := Option.some.inj (entry.found.symm.trans held)
      obtain rfl : former = dependency := Option.some.inj (listed.symm.trans position)
      exact known missing
  | some old =>
      have ambiguous := doubled (by simp [staleKnown])
      cases savedKnown : saved.lookup former with
      | none =>
          refine ⟨.recipeNotFound current index, by simp, by simp, fun same => ?_⟩
          obtain ⟨_, found, dependency, held, _, position, missing⟩ := walkShows_recipeNotFound.mp
            (same.mpr (walkShows_recipeNotFound.mpr
              ⟨entry.reachedSaved, recipe, former, entry.found, entry.clear, listed, savedKnown⟩))
          obtain rfl : recipe = found := Option.some.inj (staleFound.symm.trans held)
          obtain rfl : former = dependency := Option.some.inj (listed.symm.trans position)
          rw [staleKnown] at missing
          exact nomatch missing
      | some new =>
          refine ⟨.recipeIdConflict former, by simpa using other, by simp, fun same => ?_⟩
          have edge : former ∈ pendingDependencies stale current := mem_pendingDependencies.mpr
            ⟨recipe, staleFound, staleClear, entry.needs, by simp [staleKnown]⟩
          obtain ⟨_, _, doubtful⟩ := walkShows_recipeIdConflict.mp
            (same.mp (walkShows_recipeIdConflict.mpr
              ⟨entry.reachedStale.tail edge, by simp [staleKnown], ambiguous⟩))
          exact differs (.inr ⟨by simp [staleKnown], by simp [savedKnown], ambiguous, doubtful⟩)

end

section

def Emission (draft : Recipe γ) : Type :=
  { reading : Reading γ // reading.declaredId = some draft.id }

/-- The root with the emission of a draft at a path. A path that was not listed gets a position in
the listing, or none where the scan does not list it. -/
def AuthoredRoot.save (root : AuthoredRoot γ) (path : String) (position : Option Nat)
    (emission : Reading γ) : AuthoredRoot γ where
  files :=
    if path ∈ root.files then root.files
    else
      match position with
      | none => root.files
      | some index => root.files.take index ++ path :: root.files.drop index
  read file := if file = path then emission else root.read file

def ValidatesAsSaved (checks : ContentChecks γ) (root : AuthoredRoot γ) (path : String)
    (position : Option Nat) (draft : Recipe γ) (emission : Emission draft) : Prop :=
  ∀ diagnostic,
    diagnostic ∈ (ValidationCatalog.collect root).validateRecipe checks draft path true ↔
      diagnostic ∈ (ValidationCatalog.collect
        (root.save path position emission.val)).validateRecipe checks draft path true

def formerId (root : AuthoredRoot γ) (path : String) : Option String :=
  if path ∈ root.files then (root.read path).declaredId else none

def otherFiles (root : AuthoredRoot γ) (path id : String) : List String :=
  root.files.filter fun file => file ≠ path && (root.read file).declaredId = some id

def otherRecipe (root : AuthoredRoot γ) (path id : String) : Option (Recipe γ) :=
  root.files.findSome? fun file => if file = path then none else (root.read file).recipeOf id

variable {id : String}

theorem named_findSome {files : List String} {read : String → Option (Recipe γ)}
    {recipe : Recipe γ} (found : files.findSome? read = some recipe)
    (named : ∀ file, ∀ held, read file = some held → held.id = id) : recipe.id = id := by
  obtain ⟨file, _, held⟩ := List.exists_of_findSome?_eq_some found
  exact named file recipe held

theorem recipeOf_id {reading : Reading γ} {recipe : Recipe γ}
    (held : reading.recipeOf id = some recipe) : recipe.id = id := by
  rw [Reading.recipeOf, Option.filter_eq_some_iff] at held
  simpa using held.2

def staleView (root : AuthoredRoot γ) (path : String) (draft : Recipe γ) : View γ where
  lookup id :=
    if id = draft.id then some draft
    else if (declaring root id).head? = some path then none
    else usable root id
  ambiguous id := id ≠ draft.id && 1 < (declaring root id).length
  named := by
    intro id recipe found
    split_ifs at found with same first
    · rw [← Option.some.inj found, same]
    · exact named_findSome found fun file held => recipeOf_id

def savedView (root : AuthoredRoot γ) (path : String) (draft : Recipe γ) : View γ where
  lookup id := if id = draft.id then some draft else otherRecipe root path id
  ambiguous id := id ≠ draft.id && 1 < (otherFiles root path id).length
  named := by
    intro id recipe found
    split_ifs at found with same
    · rw [← Option.some.inj found, same]
    · refine named_findSome found fun file held read => ?_
      split_ifs at read with here
      exact recipeOf_id read

def Cyclic (view : View γ) (start : String) : Prop :=
  CycleReachable (fun id => (view.lookup id).map Recipe.recipeDependencies) start

/-- The Recipe of an id that is left when its replaced file came first. -/
def staleRecipe (root : AuthoredRoot γ) (path id : String) : Option (Recipe γ) :=
  if (declaring root id).head? = some path then none else usable root id

/-- What the draft and the Recipes of the other files depend on, one id left out. -/
def otherDependencies (root : AuthoredRoot γ) (path : String) (draft : Recipe γ)
    (former : String) : String → Option (List String) :=
  without (fun id => if id = draft.id then some draft.recipeDependencies
    else (otherRecipe root path id).map Recipe.recipeDependencies) former

def leadsBack (root : AuthoredRoot γ) (path : String) (draft : Recipe γ) (former : String)
    (content : Option (Recipe γ)) : Prop :=
  LeadsBack (otherDependencies root path draft former) former
    ((content.map Recipe.recipeDependencies).getD [])

def listedBefore (root : AuthoredRoot γ) (path : String) (position : Option Nat) : List String :=
  if path ∈ root.files then root.files.takeWhile fun file => file ≠ path
  else root.files.take (position.getD root.files.length)

/-- The old content of the path is not consulted, or leads to the same findings: the path declared
the draft's id before, no other file does, or one that does is listed before it; an id that the file
gave up and a reached Recipe needs is unknown with the stale content and without, or known both ways
and declared by two other files; and where that id is reached from a draft that no cycle is reached
from otherwise, it leads back through its stale content exactly if it does so through what the other
files say of it. -/
structure OverlayFits (root : AuthoredRoot γ) (path : String) (position : Option Nat)
    (draft : Recipe γ) : Prop where
  own : formerId root path = some draft.id ∨ otherFiles root path draft.id = [] ∨
    ∃ file ∈ listedBefore root path position, (root.read file).declaredId = some draft.id
  former : ∀ former, formerId root path = some former → former ≠ draft.id →
    Needed (savedView root path draft) draft.id former →
    (staleRecipe root path former = none ∧ otherRecipe root path former = none) ∨
      ((staleRecipe root path former).isSome ∧ (otherRecipe root path former).isSome ∧
        1 < (otherFiles root path former).length)
  cycle : ∀ former, formerId root path = some former → former ≠ draft.id →
    ReflTransGen (Successor (otherDependencies root path draft former)) draft.id former →
    ¬ CycleReachable (otherDependencies root path draft former) draft.id →
    (leadsBack root path draft former (staleRecipe root path former) ↔
      leadsBack root path draft former (otherRecipe root path former))

variable {checks : ContentChecks γ} {root : AuthoredRoot γ} {path : String}
  {position : Option Nat} {draft : Recipe γ}

theorem view_collect (root : AuthoredRoot γ) (path : String) (draft : Recipe γ) :
    (ValidationCatalog.collect root).view draft path = staleView root path draft := by
  have without : ∀ id, ((ValidationCatalog.collect root).withoutReplaced path).get? id =
      if (declaring root id).head? = some path then none else usable root id := by
    intro id
    unfold ValidationCatalog.withoutReplaced
    split
    next existing replaced =>
      rw [OrderedMap.get?_erase, recipes_collect]
      by_cases same : id = existing
      · rw [if_pos same, if_pos (same ▸ firstRecipeIdForPath_collect.mp replaced)]
      · rw [if_neg same, if_neg]
        intro first
        have other := firstRecipeIdForPath_collect.mpr first
        exact same (Option.some.inj (other.symm.trans replaced))
    next kept =>
      rw [recipes_collect, if_neg]
      intro first
      rw [firstRecipeIdForPath_collect.mpr first] at kept
      exact nomatch kept
  refine View.ext ?_ ?_
  · funext id
    simp only [ValidationCatalog.view, ValidationCatalog.overlay, OrderedMap.get?_insert, without,
      staleView]
  · funext id
    simp only [ValidationCatalog.view, filesOf_collect, staleView]

theorem conflicts_collect (root : AuthoredRoot γ) (path : String) (draft : Recipe γ) :
    (ValidationCatalog.collect root).conflicts draft path = true ↔
      ∃ first, (declaring root draft.id).head? = some first ∧ first ≠ path := by
  unfold ValidationCatalog.conflicts
  by_cases own : (declaring root draft.id).head? = some path
  · rw [if_pos (firstRecipeIdForPath_collect.mpr own)]
    simp [own]
  · rw [if_neg (fun replaced => own (firstRecipeIdForPath_collect.mp replaced)), filesOf_collect]
    simp [Option.any_eq_true]

theorem filter_save (root : AuthoredRoot γ) (path : String) (position : Option Nat)
    (emission : Reading γ) (keep : String → Bool) (skips : keep path = false) :
    (root.save path position emission).files.filter keep = root.files.filter keep := by
  simp only [AuthoredRoot.save]
  split
  · rfl
  · split
    · rfl
    next index =>
      rw [List.filter_append, List.filter_cons_of_neg (by simp [skips]), ← List.filter_append,
        List.take_append_drop]

theorem findSome_save {emission : Reading γ} {read : String → Option (Recipe γ)}
    (skips : read path = none) :
    (root.save path position emission).files.findSome? read = root.files.findSome? read := by
  simp only [AuthoredRoot.save]
  split
  · rfl
  · split
    · rfl
    next index =>
      rw [List.findSome?_append, List.findSome?_cons_of_isNone (by simp [skips]),
        ← List.findSome?_append, List.take_append_drop]

variable {emission : Emission draft}

theorem read_save (file : String) :
    (root.save path position emission.val).read file =
      if file = path then emission.val else root.read file := rfl

theorem declaring_save (other : id ≠ draft.id) :
    declaring (root.save path position emission.val) id = otherFiles root path id := by
  have declares : (emission.val.declaredId = some id) = False := by
    rw [emission.property]
    simpa using Ne.symm other
  rw [declaring, filter_save root path position emission.val _ (by simp [read_save, declares]),
    otherFiles]
  refine List.filter_congr fun file _ => ?_
  by_cases here : file = path
  · simp [read_save, here, declares]
  · simp [read_save, here]

theorem findSome_congr {files : List String} {first second : String → Option (Recipe γ)}
    (same : ∀ file ∈ files, first file = second file) :
    files.findSome? first = files.findSome? second := by
  induction files with
  | nil => rfl
  | cons file files ih =>
      rw [List.findSome?_cons, List.findSome?_cons, same file List.mem_cons_self,
        ih fun other listed => same other (List.mem_cons_of_mem _ listed)]

theorem recipeOf_eq_none {reading : Reading γ}
    (other : reading.declaredId ≠ some id) : reading.recipeOf id = none := by
  cases reading with
  | recipe recipe =>
      have differs : recipe.id ≠ id := by simpa [Reading.declaredId] using other
      simp [Reading.recipeOf, Reading.recipe?, Option.filter, differs]
  | declared _ => rfl
  | unreadable => rfl

theorem usable_save (other : id ≠ draft.id) :
    usable (root.save path position emission.val) id = otherRecipe root path id := by
  have none' : emission.val.recipeOf id = none := by
    refine recipeOf_eq_none ?_
    rw [emission.property]
    simpa using Ne.symm other
  rw [usable, findSome_save (by simp [read_save, none']), otherRecipe]
  refine findSome_congr fun file _ => ?_
  by_cases here : file = path
  · simp [read_save, here, none']
  · simp [read_save, here]

theorem staleView_save :
    staleView (root.save path position emission.val) path draft = savedView root path draft := by
  refine View.ext (funext fun id => ?_) (funext fun id => ?_)
  · by_cases same : id = draft.id
    · simp [staleView, savedView, same]
    · have notFirst : (otherFiles root path id).head? ≠ some path := by
        intro first
        have member := List.mem_of_head? first
        simp [otherFiles] at member
      simp only [staleView, savedView, same, ↓reduceIte, declaring_save same, notFirst,
        usable_save same]
  · by_cases same : id = draft.id
    · simp [staleView, savedView, same]
    · simp only [staleView, savedView, declaring_save same]

theorem declaring_eq (other : formerId root path ≠ some id) :
    declaring root id = otherFiles root path id := by
  refine List.filter_congr fun file listed => ?_
  by_cases here : file = path
  · subst here
    rw [formerId, if_pos listed] at other
    simp [other]
  · simp [here]

theorem usable_eq (other : formerId root path ≠ some id) :
    usable root id = otherRecipe root path id := by
  refine findSome_congr fun file listed => ?_
  by_cases here : file = path
  · subst here
    rw [formerId, if_pos listed] at other
    rw [if_pos rfl, recipeOf_eq_none other]
  · rw [if_neg here]

theorem view_eq (other : formerId root path ≠ some id ∨ id = draft.id) :
    (staleView root path draft).lookup id = (savedView root path draft).lookup id ∧
      (staleView root path draft).ambiguous id = (savedView root path draft).ambiguous id := by
  by_cases same : id = draft.id
  · simp [staleView, savedView, same]
  · have differs := other.resolve_right same
    have notFirst : (otherFiles root path id).head? ≠ some path := by
      intro first
      have member := List.mem_of_head? first
      simp [otherFiles] at member
    simp only [staleView, savedView, same, ↓reduceIte, declaring_eq differs, usable_eq differs,
      notFirst, and_self]

theorem agreeOff {former : String} (gaveUp : formerId root path = some former) :
    AgreeOff (staleView root path draft) (savedView root path draft) former := by
  have differs : ∀ id, id ≠ former → formerId root path ≠ some id := by
    intro id apart same
    exact apart (Option.some.inj (same.symm.trans gaveUp))
  exact ⟨fun id apart => (view_eq (.inl (differs id apart))).1,
    fun id apart => (view_eq (.inl (differs id apart))).2⟩

theorem views_eq (kept : ∀ former, formerId root path = some former → former = draft.id) :
    staleView root path draft = savedView root path draft := by
  have same : ∀ id, formerId root path ≠ some id ∨ id = draft.id := by
    intro id
    by_cases former : formerId root path = some id
    · exact .inr (kept id former)
    · exact .inl former
  exact View.ext (funext fun id => (view_eq (same id)).1) (funext fun id => (view_eq (same id)).2)

theorem ambiguous_of_former {former : String} (gaveUp : formerId root path = some former)
    (other : former ≠ draft.id)
    (known : ((staleView root path draft).lookup former).isSome = true) :
    (staleView root path draft).ambiguous former = true := by
  have member : path ∈ declaring root former := by
    rw [formerId] at gaveUp
    split at gaveUp
    next listed => exact mem_declaring.mpr ⟨listed, gaveUp⟩
    next => exact nomatch gaveUp
  simp only [staleView, other, ↓reduceIte] at known
  split at known
  next => exact nomatch known
  next notFirst =>
    have longer : 1 < (declaring root former).length := by
      cases files : declaring root former with
      | nil => simp [files] at member
      | cons first rest =>
          rw [files] at member notFirst
          rcases List.mem_cons.mp member with rfl | later
          · exact absurd rfl notFirst
          · have room := List.length_pos_of_mem later
            rw [List.length_cons]
            omega
    simp [staleView, other, longer]

theorem mem_declaring_save {file id : String} (apart : file ≠ path) :
    file ∈ declaring (root.save path position emission.val) id ↔ file ∈ declaring root id := by
  have listed : file ∈ (root.save path position emission.val).files ↔ file ∈ root.files := by
    have kept := congrArg (file ∈ ·)
      (filter_save root path position emission.val (fun file => file ≠ path) (by simp))
    simpa [apart] using kept
  rw [mem_declaring, mem_declaring, listed, read_save, if_neg apart]

theorem declaring_save_own (kept : formerId root path = some draft.id) :
    declaring (root.save path position emission.val) draft.id = declaring root draft.id := by
  rw [formerId] at kept
  split at kept
  next listed =>
    have files : (root.save path position emission.val).files = root.files := if_pos listed
    rw [declaring, files, declaring]
    refine List.filter_congr fun file _ => ?_
    rw [read_save]
    by_cases here : file = path
    · simp [here, kept, emission.property]
    · simp [here]
  next => cases kept

theorem conflict_of_saved {first : String}
    (found : (declaring (root.save path position emission.val) draft.id).head? = some first)
    (apart : first ≠ path) :
    ∃ earlier, (declaring root draft.id).head? = some earlier ∧ earlier ≠ path := by
  have member := (mem_declaring_save apart).mp (List.mem_of_head? found)
  cases head : (declaring root draft.id).head? with
  | none =>
      rw [List.head?_eq_none_iff] at head
      rw [head] at member
      exact absurd member List.not_mem_nil
  | some earlier =>
      refine ⟨earlier, rfl, ?_⟩
      rintro rfl
      -- The path came first before, so the scan is the same after saving.
      obtain ⟨listed, declares⟩ := mem_declaring.mp (List.mem_of_head? head)
      rw [declaring_save_own (by rw [formerId, if_pos listed, declares]), head] at found
      exact apart (Option.some.inj found).symm

variable {view : View γ}

theorem not_walkShows_own (clear : view.ambiguous draft.id = false) :
    ¬ WalkShows checks view draft.id (.recipeIdConflict draft.id) := by
  intro shows
  have doubtful := (walkShows_recipeIdConflict.mp shows).2.2
  rw [clear] at doubtful
  exact nomatch doubtful

theorem not_walkShows_cycle {start : String} :
    ¬ WalkShows checks view start (.dependencyCycle start) := by
  rintro ⟨current, _, listed⟩
  unfold shown missingDependencies at listed
  split at listed
  · simp at listed
  · split at listed
    · simp at listed
    · simp only [List.mem_append, List.mem_map, reduceCtorEq, and_false, exists_false, false_or,
        List.mem_filterMap, Prod.exists] at listed
      obtain ⟨_, _, _, missing⟩ := listed
      split at missing <;> exact nomatch missing

theorem mem_validate_stale {diagnostic : CatalogDiagnostic} :
    diagnostic ∈ (ValidationCatalog.collect root).validateRecipe checks draft path true ↔
      (diagnostic = .recipeIdConflict draft.id ∧
        ∃ first, (declaring root draft.id).head? = some first ∧ first ≠ path) ∨
      WalkShows checks (staleView root path draft) draft.id diagnostic ∨
      (diagnostic = .dependencyCycle draft.id ∧ Cyclic (staleView root path draft) draft.id) := by
  rw [mem_validateRecipe, Bool.true_and, conflicts_collect, ← view_collect]
  rfl

theorem ValidatesAsSaved.own (same : ValidatesAsSaved checks root path position draft emission)
    (first : (declaring (root.save path position emission.val) draft.id).head? = some path)
    (earlier : String) (found : (declaring root draft.id).head? = some earlier) :
    earlier = path := by
  have savedClear : (savedView root path draft).ambiguous draft.id = false := by simp [savedView]
  by_contra apart
  have conflict := (same (.recipeIdConflict draft.id)).mp
    (mem_validate_stale.mpr (.inl ⟨rfl, earlier, found, apart⟩))
  rw [mem_validate_stale, staleView_save] at conflict
  rcases conflict with ⟨_, other, head, differs⟩ | shows | ⟨impossible, _⟩
  · exact differs (Option.some.inj (head.symm.trans first))
  · exact not_walkShows_own savedClear shows
  · exact nomatch impossible

theorem files_save (root : AuthoredRoot γ) (path : String) (position : Option Nat)
    (emission : Reading γ) : ∃ after, (root.save path position emission).files =
      listedBefore root path position ++ after ∧ path ∉ listedBefore root path position ∧
        (after = [] ∨ after.head? = some path) := by
  by_cases listed : path ∈ root.files
  · simp only [AuthoredRoot.save, listedBefore, if_pos listed]
    obtain ⟨before, after, split, apart⟩ := List.eq_append_cons_of_mem listed
    have taken : (root.files.takeWhile fun file => file ≠ path) = before := by
      rw [split, List.takeWhile_append_of_pos, List.takeWhile_cons_of_neg, List.append_nil]
      · simp
      · exact fun file early => decide_eq_true fun here => apart (here ▸ early)
    exact ⟨path :: after, by rw [taken, ← split], taken ▸ apart, .inr rfl⟩
  · simp only [AuthoredRoot.save, listedBefore, if_neg listed]
    have before : path ∉ root.files.take (position.getD root.files.length) :=
      fun early => listed (List.mem_of_mem_take early)
    cases position with
    | none => exact ⟨[], by simp, before, .inl rfl⟩
    | some index => exact ⟨_, rfl, before, .inr rfl⟩

theorem listedBefore_iff (emission : Emission draft) (others : otherFiles root path draft.id ≠ []) :
    (∃ file ∈ listedBefore root path position, (root.read file).declaredId = some draft.id) ↔
      (declaring (root.save path position emission.val) draft.id).head? ≠ some path := by
  obtain ⟨after, files, apart, last⟩ := files_save root path position emission.val
  have declares : declaring (root.save path position emission.val) draft.id =
      (listedBefore root path position).filter (fun file =>
        (root.read file).declaredId = some draft.id) ++
        after.filter fun file => ((root.save path position emission.val).read file).declaredId =
          some draft.id := by
    rw [declaring, files, List.filter_append]
    refine congrArg (· ++ _) (List.filter_congr fun file early => ?_)
    rw [read_save, if_neg fun (here : file = path) => apart (here ▸ early)]
  constructor
  · rintro ⟨file, early, named⟩ first
    rw [declares, List.head?_append_of_ne_nil _
      (List.ne_nil_of_mem (List.mem_filter.mpr ⟨early, decide_eq_true named⟩))] at first
    exact apart (List.mem_filter.mp (List.mem_of_head? first)).1
  · intro later
    by_contra none'
    have empty : (listedBefore root path position).filter (fun file =>
        (root.read file).declaredId = some draft.id) = [] :=
      List.filter_eq_nil_iff.mpr fun file early named => none' ⟨file, early, of_decide_eq_true named⟩
    rw [declares, empty, List.nil_append] at later
    rcases last with rfl | head
    · obtain ⟨file, member⟩ := List.exists_mem_of_ne_nil _ others
      obtain ⟨listed, named⟩ := List.mem_filter.mp member
      obtain ⟨here, named⟩ := (Bool.and_eq_true _ _).mp named
      have saved : file ∈ declaring (root.save path position emission.val) draft.id :=
        (mem_declaring_save (of_decide_eq_true here)).mpr
          (mem_declaring.mpr ⟨listed, of_decide_eq_true named⟩)
      rw [declares, empty] at saved
      cases saved
    · obtain ⟨rest, rfl⟩ : ∃ rest, after = path :: rest := by
        cases after with
        | nil => cases head
        | cons file rest => exact ⟨rest, by rw [Option.some.inj head]⟩
      exact later (by simp [read_save, emission.property])

theorem own_iff (emission : Emission draft) :
    (formerId root path = some draft.id ∨ otherFiles root path draft.id = [] ∨
      ∃ file ∈ listedBefore root path position, (root.read file).declaredId = some draft.id) ↔
    ((declaring (root.save path position emission.val) draft.id).head? = some path →
      ∀ first, (declaring root draft.id).head? = some first → first = path) := by
  rw [or_congr_right (or_congr_right' (listedBefore_iff emission))]
  have other {file : String} : file ∈ otherFiles root path draft.id ↔
      file ∈ declaring root draft.id ∧ file ≠ path := by
    simp only [otherFiles, mem_declaring, List.mem_filter, Bool.and_eq_true, decide_eq_true_eq]
    tauto
  constructor
  · rintro (kept | alone | later) saved first found
    · rw [declaring_save_own kept] at saved
      exact Option.some.inj (found.symm.trans saved)
    · by_contra apart
      have member := other.mpr ⟨List.mem_of_head? found, apart⟩
      rw [alone] at member
      cases member
    · exact absurd saved later
  · intro own
    by_contra neither
    push Not at neither
    obtain ⟨given, others, saved⟩ := neither
    obtain ⟨file, member⟩ := List.exists_mem_of_ne_nil _ others
    have found := List.head?_eq_some_head (List.ne_nil_of_mem (other.mp member).1)
    obtain ⟨inside, named⟩ := mem_declaring.mp (List.mem_of_head? (own saved _ found ▸ found))
    exact given (by rw [formerId, if_pos inside, named])

theorem lookup_stale (other : id ≠ draft.id) :
    (staleView root path draft).lookup id = staleRecipe root path id := by
  simp [staleView, staleRecipe, other]

theorem lookup_saved (other : id ≠ draft.id) :
    (savedView root path draft).lookup id = otherRecipe root path id := by
  simp [savedView, other]

theorem sameOutlook_iff {former : String} (gaveUp : formerId root path = some former)
    (other : former ≠ draft.id) :
    SameOutlook (staleView root path draft) (savedView root path draft) former ↔
      (staleRecipe root path former = none ∧ otherRecipe root path former = none) ∨
        ((staleRecipe root path former).isSome ∧ (otherRecipe root path former).isSome ∧
          1 < (otherFiles root path former).length) := by
  have doubled := ambiguous_of_former gaveUp other
  have saved : (savedView root path draft).ambiguous former = true ↔
      1 < (otherFiles root path former).length := by simp [savedView, other]
  rw [lookup_stale other] at doubled
  rw [SameOutlook, lookup_stale other, lookup_saved other, saved]
  refine or_congr_right (and_congr_right fun known => ?_)
  simp [doubled known]

theorem cyclic_iff {former : String} {content : Option (Recipe γ)}
    (held : view.lookup former = content)
    (others : without (fun id => (view.lookup id).map Recipe.recipeDependencies) former =
      otherDependencies root path draft former) :
    Cyclic view draft.id ↔ CycleReachable (otherDependencies root path draft former) draft.id ∨
      ReflTransGen (Successor (otherDependencies root path draft former)) draft.id former ∧
        leadsBack root path draft former content := by
  rw [Cyclic, cycleReachable_without, others, held]
  rfl

theorem cycles_iff : (Cyclic (staleView root path draft) draft.id ↔
      Cyclic (savedView root path draft) draft.id) ↔
    ∀ former, formerId root path = some former → former ≠ draft.id →
      ReflTransGen (Successor (otherDependencies root path draft former)) draft.id former →
      ¬ CycleReachable (otherDependencies root path draft former) draft.id →
      (leadsBack root path draft former (staleRecipe root path former) ↔
        leadsBack root path draft former (otherRecipe root path former)) := by
  by_cases gaveUp : ∃ former, formerId root path = some former ∧ former ≠ draft.id
  · obtain ⟨former, declared, other⟩ := gaveUp
    have saved : without (fun id => ((savedView root path draft).lookup id).map
        Recipe.recipeDependencies) former = otherDependencies root path draft former := by
      refine congrArg (without · former) (funext fun id => ?_)
      by_cases same : id = draft.id
      · simp [savedView, same]
      · simp [savedView, same]
    have stale : without (fun id => ((staleView root path draft).lookup id).map
        Recipe.recipeDependencies) former = otherDependencies root path draft former := by
      rw [← saved]
      refine funext fun id => ?_
      by_cases same : id = former
      · simp [without, same]
      · simp [without, same, (agreeOff declared).lookup id same]
    rw [cyclic_iff (lookup_stale other) stale, cyclic_iff (lookup_saved other) saved]
    constructor
    · intro same former' declared' _ reached acyclic
      obtain rfl := Option.some.inj (declared.symm.trans declared')
      simpa [reached, acyclic] using same
    · intro each
      by_cases cyclic : CycleReachable (otherDependencies root path draft former) draft.id
      · simp [cyclic]
      · refine or_congr_right (and_congr_right fun reached => ?_)
        exact each former declared other reached cyclic
  · rw [views_eq fun former declared => by_contra fun other => gaveUp ⟨former, declared, other⟩]
    refine iff_of_true Iff.rfl fun former declared other => ?_
    exact absurd ⟨former, declared, other⟩ gaveUp

theorem conflict_iff (emission : Emission draft)
    (own : (declaring (root.save path position emission.val) draft.id).head? = some path →
      ∀ first, (declaring root draft.id).head? = some first → first = path) :
    (∃ first, (declaring root draft.id).head? = some first ∧ first ≠ path) ↔
      ∃ first, (declaring (root.save path position emission.val) draft.id).head? = some first ∧
        first ≠ path := by
  constructor
  · rintro ⟨first, found, apart⟩
    have member : first ∈ declaring (root.save path position emission.val) draft.id :=
      (mem_declaring_save apart).mpr (List.mem_of_head? found)
    have head := List.head?_eq_some_head (List.ne_nil_of_mem member)
    exact ⟨_, head, fun saved => apart (own (head.trans (congrArg some saved)) first found)⟩
  · rintro ⟨first, found, apart⟩
    exact conflict_of_saved found apart

theorem walkShows_iff {diagnostic : CatalogDiagnostic}
    (fits : ∀ former, formerId root path = some former → former ≠ draft.id →
      Needed (savedView root path draft) draft.id former →
      (staleRecipe root path former = none ∧ otherRecipe root path former = none) ∨
        ((staleRecipe root path former).isSome ∧ (otherRecipe root path former).isSome ∧
          1 < (otherFiles root path former).length)) :
    WalkShows checks (staleView root path draft) draft.id diagnostic ↔
      WalkShows checks (savedView root path draft) draft.id diagnostic := by
  by_cases gaveUp : ∃ former, formerId root path = some former ∧ former ≠ draft.id
  · obtain ⟨former, declared, other⟩ := gaveUp
    by_cases needed : Needed (savedView root path draft) draft.id former
    · exact walkShows_of_sameOutlook (agreeOff declared)
        ((sameOutlook_iff declared other).mpr (fits former declared other needed)) diagnostic
    · exact walkShows_of_not_needed (agreeOff declared) other needed diagnostic
  · rw [views_eq fun former declared => by_contra fun other => gaveUp ⟨former, declared, other⟩]

/-- An unsaved Recipe validates as the saved one exactly if the old content of its file fits. -/
theorem validatesAsSaved_iff (checks : ContentChecks γ) (root : AuthoredRoot γ) (path : String)
    (position : Option Nat) (draft : Recipe γ) (emission : Emission draft) :
    ValidatesAsSaved checks root path position draft emission ↔
      OverlayFits root path position draft := by
  have iff : ValidatesAsSaved checks root path position draft emission ↔ ∀ diagnostic, _ :=
    forall_congr' fun diagnostic => by rw [mem_validate_stale, mem_validate_stale, staleView_save]
  constructor
  · intro validates
    have same := iff.mp validates
    refine ⟨(own_iff emission).mpr validates.own, ?_, cycles_iff.mp ?_⟩
    · intro former gaveUp other needed
      by_contra differs
      obtain ⟨diagnostic, notOwn, notCycle, apart⟩ := exists_difference checks (agreeOff gaveUp) other
        (ambiguous_of_former gaveUp other) needed (mt (sameOutlook_iff gaveUp other).mp differs)
      exact apart (by simpa [notOwn, notCycle] using same diagnostic)
    · have cyclic := same (.dependencyCycle draft.id)
      simpa [not_walkShows_cycle] using cyclic
  · intro fits
    refine iff.mpr fun diagnostic => ?_
    rw [conflict_iff emission ((own_iff emission).mp fits.own), walkShows_iff fits.former,
      cycles_iff.mpr fits.cycle]

def renamedRoot : AuthoredRoot Unit where
  files := ["recipes/a.yaml", "recipes/b.yaml"]
  read file := .recipe ⟨if file = "recipes/a.yaml" then "a" else "b", [], ()⟩

def renamedDraft : Recipe Unit := ⟨"b", [], ()⟩

/-- The unsaved draft conflicts with the later file, the saved one does not. -/
theorem not_validatesAsSaved_renamed :
    ¬ ValidatesAsSaved ⟨fun _ => [], [], fun _ _ => false, fun _ => []⟩ renamedRoot
      "recipes/a.yaml" none renamedDraft ⟨.recipe renamedDraft, rfl⟩ := by
  intro same
  have own := same.own (by decide) "recipes/b.yaml" (by decide)
  exact absurd own (by decide)

end

end EmuChef.Catalog
