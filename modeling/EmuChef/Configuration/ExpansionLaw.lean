import EmuChef.Configuration.Expansion

/-! When the walks over Recipe dependencies agree. -/

namespace EmuChef.Configuration

open DepthFirst
open Planner (Expansion visitRecipeDependency expandRecipeDependencies)
open Relation
open Worklist (Successor CycleReachable)

variable {recipes : OrderedMap String Authored.Recipe}

def dependencies (recipes : OrderedMap String Authored.Recipe) (id : String) : Option (List String) :=
  (recipes.get? id).map (·.recipeDependencies)

theorem dependencies_none {id : String} (unknown : recipes.get? id = none) :
    dependencies recipes id = none := by
  rw [dependencies, unknown, Option.map_none]

theorem dependencies_some {id : String} {recipe : Authored.Recipe}
    (held : recipes.get? id = some recipe) :
    dependencies recipes id = some recipe.recipeDependencies := by
  rw [dependencies, held, Option.map_some]

theorem mem_keys_of_dependencies (id : String) (known : (dependencies recipes id).isSome) :
    id ∈ recipes.keys.toFinset := by
  rw [dependencies, Option.isSome_map] at known
  exact List.mem_toFinset.mpr (OrderedMap.get?_isSome.mp known)

theorem card_keys : recipes.keys.toFinset.card = recipes.entries.length := by
  rw [List.toFinset_card_of_nodup recipes.keys_nodup, OrderedMap.keys, List.length_map]

theorem card_keys_lt : recipes.keys.toFinset.card < recipes.entries.length + 1 := by
  rw [card_keys]
  exact Nat.lt_succ_self _

theorem length_le_of_inside {stack : List String} (distinct : stack.Nodup)
    (inside : ∀ earlier ∈ stack, earlier ∈ recipes.keys.toFinset) :
    stack.length ≤ recipes.entries.length := by
  rw [← card_keys, ← List.toFinset_card_of_nodup distinct]
  exact Finset.card_le_card fun earlier member => inside earlier (List.mem_toFinset.mp member)

theorem visitRecipeDependency_follows {fuel : Nat} {recipeRef : String} {stack : List String}
    {found : Expansion} (distinct : stack.Nodup)
    (inside : ∀ earlier ∈ stack, earlier ∈ recipes.keys.toFinset)
    (room : recipes.entries.length < fuel + stack.length)
    (listed : found.ordered.toFinset = found.permanent) :
    Follows Expansion.permanent Expansion.errors (fun found => found.ordered.toFinset = found.permanent)
      found (visitRecipeDependency recipes fuel recipeRef stack found)
      (finishing (dependencies recipes) fuel stack.reverse found.permanent recipeRef) := by
  induction fuel generalizing recipeRef stack found with
  | zero =>
      have short := length_le_of_inside distinct inside
      omega
  | succ fuel ih =>
      rw [visitRecipeDependency, finishing]
      by_cases done : recipeRef ∈ found.permanent
      · rw [if_pos done, if_pos done]
        exact .refl listed
      rw [if_neg done, if_neg done]
      by_cases loop : recipeRef ∈ stack
      · rw [if_pos loop, if_pos (List.mem_reverse.mpr loop)]
        exact .failed listed rfl
      rw [if_neg loop, if_neg (mt List.mem_reverse.mp loop)]
      cases held : recipes.get? recipeRef with
      | none =>
          rw [dependencies_none held]
          exact .failed listed rfl
      | some recipe =>
          have extended : (stack ++ [recipeRef]).Nodup := List.nodup_append.mpr
            ⟨distinct, List.nodup_singleton _, fun earlier member last same => by
              obtain rfl := List.mem_singleton.mp same
              exact fun equal => loop (equal ▸ member)⟩
          have within : ∀ earlier ∈ stack ++ [recipeRef], earlier ∈ recipes.keys.toFinset := by
            intro earlier member
            rcases List.mem_append.mp member with member | member
            · exact inside earlier member
            · obtain rfl := List.mem_singleton.mp member
              exact mem_keys_of_dependencies _ (by simp [dependencies_some held])
          have inner := @foldl_follows String _ _ Expansion.permanent Expansion.errors
            (fun found => found.ordered.toFinset = found.permanent) _ _ recipe.recipeDependencies
            found (fun state dependencyRef _ listed => @ih dependencyRef (stack ++ [recipeRef]) state
              extended within (by rw [List.length_append, List.length_singleton]; omega) listed) listed
          rw [List.reverse_append, List.reverse_singleton, List.singleton_append] at inner
          rw [dependencies_some held, Option.bind_some]
          refine inner.around (insert recipeRef) ?_ rfl rfl rfl
          have collected := inner.sound
          dsimp only at collected ⊢
          split
          next again =>
            rw [← collected, Finset.insert_eq_of_mem (List.mem_toFinset.mpr again)]
          next =>
            rw [List.toFinset_append, collected, Finset.union_comm]
            rfl

theorem expandRecipeDependencies_follows (selected : List String) :
    Follows Expansion.permanent Expansion.errors (fun found => found.ordered.toFinset = found.permanent)
      ⟨[], ∅, []⟩ (selected.foldl (fun found recipeRef => visitRecipeDependency recipes
        (recipes.entries.length + 1) recipeRef [] found) ⟨[], ∅, []⟩)
      (selected.foldlM (finishing (dependencies recipes) (recipes.entries.length + 1) []) ∅) :=
  foldl_follows selected (fun _ _ _ listed => visitRecipeDependency_follows List.nodup_nil (by simp)
    (Nat.lt_succ_self _) listed) rfl

theorem toOption_visitContract {fuel : Nat} {visiting : List String} {expanded : Finset String}
    {id : String} : (visitContract recipes fuel visiting expanded id).toOption =
      finishing (dependencies recipes) fuel visiting expanded id := by
  induction fuel generalizing visiting expanded id with
  | zero => rfl
  | succ fuel ih =>
      rw [visitContract, finishing]
      by_cases done : id ∈ expanded
      · rw [if_pos done, if_pos done]
        rfl
      rw [if_neg done, if_neg done]
      cases held : recipes.get? id with
      | none =>
          rw [dependencies_none held]
          by_cases loop : id ∈ visiting
          · rw [if_pos loop]
            rfl
          · rw [if_neg loop]
            rfl
      | some recipe =>
          rw [dependencies_some held]
          dsimp only
          by_cases loop : id ∈ visiting
          · rw [if_pos loop, if_pos loop]
            rfl
          · rw [if_neg loop, if_neg loop, Option.bind_some, Checks.toOption_bind,
              Checks.toOption_foldlM, funext₂ fun _ _ => ih, Option.map_eq_bind]
            rfl

theorem expandedRecipeContracts_ok {selected : List String} {ids : List String} :
    expandedRecipeContracts recipes selected = .ok ids ↔ ∃ after,
      selected.foldlM (finishing (dependencies recipes) (recipes.entries.length + 1) []) ∅ =
        some after ∧ after.sort (· ≤ ·) = ids := by
  have walked := @Checks.toOption_foldlM _ _ _ selected
    (visitContract recipes (recipes.entries.length + 1) []) ∅
  rw [funext₂ fun _ _ => toOption_visitContract] at walked
  rw [expandedRecipeContracts, Checks.bind_eq_ok, ← walked]
  simp only [Checks.toOption_eq_some]
  exact exists_congr fun after => and_congr_right fun _ => ⟨Except.ok.inj, congrArg Except.ok⟩

/-- An open visit is of a Recipe that is expanded already, and only known ones are expanded. -/
structure SelectionExpansion.Sound (recipes : OrderedMap String Authored.Recipe)
    (base : Finset String) (found : SelectionExpansion) : Prop where
  opened : found.visiting ⊆ found.expanded.toFinset
  known : found.expanded.toFinset ⊆ recipes.keys.toFinset
  grown : base ⊆ found.expanded.toFinset

theorem expandRecipeSelection_follows {fuel : Nat} {found : SelectionExpansion} {recipeId : String}
    {base : Finset String} (sound : found.Sound recipes base)
    (room : recipes.entries.length < fuel + base.card) :
    Follows (·.expanded.toFinset) SelectionExpansion.diagnostics (·.Sound recipes base) found
      (expandRecipeSelection recipes fuel found recipeId)
      (marking (dependencies recipes) fuel found.expanded.toFinset recipeId) := by
  induction fuel generalizing found recipeId base with
  | zero =>
      have short := Finset.card_le_card (sound.grown.trans sound.known)
      rw [card_keys] at short
      omega
  | succ fuel ih =>
      rw [expandRecipeSelection, marking]
      by_cases done : recipeId ∈ found.expanded
      · rw [if_pos done, if_pos (List.mem_toFinset.mpr done)]
        exact .refl sound
      rw [if_neg done, if_neg (mt List.mem_toFinset.mp done)]
      cases held : recipes.get? recipeId with
      | none =>
          rw [dependencies_none held]
          exact .failed ⟨sound.opened, sound.known, sound.grown⟩ rfl
      | some recipe =>
          have closed : recipeId ∉ found.visiting :=
            fun opened => done (List.mem_toFinset.mp (sound.opened opened))
          have appended : (found.expanded ++ [recipeId]).toFinset =
              insert recipeId found.expanded.toFinset := by
            rw [List.toFinset_append, Finset.union_comm]
            rfl
          have larger : base.card < (insert recipeId found.expanded.toFinset).card := by
            rw [Finset.card_insert_of_notMem (mt List.mem_toFinset.mp done)]
            exact Nat.lt_succ_of_le (Finset.card_le_card sound.grown)
          have started : SelectionExpansion.Sound recipes (insert recipeId found.expanded.toFinset)
              ⟨found.expanded ++ [recipeId], insert recipeId found.visiting, found.diagnostics⟩ := by
            refine ⟨?_, ?_, appended.ge⟩
            · rw [appended]
              exact Finset.insert_subset_insert _ sound.opened
            · rw [appended]
              exact Finset.insert_subset (mem_keys_of_dependencies _ (by simp [dependencies_some held]))
                sound.known
          have inner := foldl_follows recipe.recipeDependencies (fun state dependency _ sound =>
            @ih state dependency _ sound (by omega)) started
          rw [dependencies_some held, Option.bind_some, ← appended]
          dsimp only
          rw [if_neg closed, ← @Option.map_id_apply _ (List.foldlM _ _ _)]
          refine inner.around id ⟨?_, inner.sound.known, ?_⟩ rfl rfl rfl
          · exact (Finset.erase_subset _ _).trans inner.sound.opened
          · exact sound.grown.trans ((Finset.subset_insert _ _).trans inner.sound.grown)

theorem expandSelectedRecipes_follows (selected : List String) :
    Follows (·.expanded.toFinset) SelectionExpansion.diagnostics (·.Sound recipes ∅) ⟨[], ∅, []⟩
      (expandSelectedRecipes recipes selected)
      (selected.foldlM (marking (dependencies recipes) (recipes.entries.length + 1)) ∅) :=
  foldl_follows selected (fun _ _ _ sound => expandRecipeSelection_follows sound (Nat.lt_succ_self _))
    ⟨by simp, by simp, by simp⟩

section

def ReachesCycle (recipes : OrderedMap String Authored.Recipe) (selected : List String) : Prop :=
  ∃ id, Reached (dependencies recipes) selected id ∧
    TransGen (Successor (dependencies recipes)) id id

def ReachesUnknown (recipes : OrderedMap String Authored.Recipe) (selected : List String) : Prop :=
  ∃ id, Reached (dependencies recipes) selected id ∧ recipes.get? id = none

theorem not_reachesUnknown {selected : List String} : ¬ ReachesUnknown recipes selected ↔
    ∀ start ∈ selected, Known (dependencies recipes) start := by
  constructor
  · intro none start member reached path
    rw [dependencies, Option.isSome_map, Option.isSome_iff_ne_none]
    exact fun unknown => none ⟨reached, ⟨start, member, path⟩, unknown⟩
  · rintro known ⟨id, ⟨start, member, path⟩, unknown⟩
    have found := known start member id path
    rw [dependencies_none unknown] at found
    cases found

theorem not_reachesCycle {selected : List String} : ¬ ReachesCycle recipes selected ↔
    ∀ start ∈ selected, ¬ CycleReachable (dependencies recipes) start := by
  constructor
  · rintro none start member ⟨id, path, cycle⟩
    exact none ⟨id, ⟨start, member, path⟩, cycle⟩
  · rintro none ⟨id, ⟨start, member, path⟩, cycle⟩
    exact none start member ⟨id, path, cycle⟩

/-- Planning, a baseline and the checks of a saved configuration refuse the same selections, and
expand the ones they accept to the same Recipes. -/
def WalksAgree (recipes : OrderedMap String Authored.Recipe) (selected : List String) : Prop :=
  let planned := expandRecipeDependencies recipes selected
  let contracts := expandedRecipeContracts recipes selected
  let saved := expandSelectedRecipes recipes selected
  (planned.2 = [] ↔ ∃ ids, contracts = .ok ids) ∧
  ((∃ ids, contracts = .ok ids) ↔ saved.diagnostics = []) ∧
  (planned.2 = [] → ∀ ids, contracts = .ok ids → ∀ id,
    (id ∈ planned.1 ↔ id ∈ ids) ∧ (id ∈ ids ↔ id ∈ saved.expanded))

variable {selected : List String}

theorem finishes_iff : (∃ after, selected.foldlM
      (finishing (dependencies recipes) (recipes.entries.length + 1) []) ∅ = some after) ↔
    ¬ ReachesUnknown recipes selected ∧ ¬ ReachesCycle recipes selected := by
  rw [exists_finish mem_keys_of_dependencies card_keys_lt, not_reachesUnknown, not_reachesCycle]
  exact forall₂_and

theorem expandRecipeDependencies_quiet : (expandRecipeDependencies recipes selected).2 = [] ↔
    ¬ ReachesUnknown recipes selected ∧ ¬ ReachesCycle recipes selected := by
  have follows := @expandRecipeDependencies_follows recipes selected
  rw [← finishes_iff]
  constructor
  · intro quiet
    exact ⟨_, follows.quiet quiet⟩
  · rintro ⟨after, ran⟩
    by_contra errors
    rw [follows.noisy errors] at ran
    cases ran

theorem mem_expandRecipeDependencies (quiet : (expandRecipeDependencies recipes selected).2 = [])
    (id : String) : id ∈ (expandRecipeDependencies recipes selected).1 ↔
      Reached (dependencies recipes) selected id := by
  have follows := @expandRecipeDependencies_follows recipes selected
  rw [← mem_finish (follows.quiet quiet), ← follows.sound, List.mem_toFinset]
  rfl

theorem expandedRecipeContracts_accepts : (∃ ids, expandedRecipeContracts recipes selected = .ok ids) ↔
    ¬ ReachesUnknown recipes selected ∧ ¬ ReachesCycle recipes selected := by
  rw [← finishes_iff]
  simp only [expandedRecipeContracts_ok]
  constructor
  · rintro ⟨_, after, ran, _⟩
    exact ⟨after, ran⟩
  · rintro ⟨after, ran⟩
    exact ⟨_, after, ran, rfl⟩

theorem mem_expandedRecipeContracts {ids : List String}
    (accepts : expandedRecipeContracts recipes selected = .ok ids) (id : String) :
    id ∈ ids ↔ Reached (dependencies recipes) selected id := by
  obtain ⟨after, ran, rfl⟩ := expandedRecipeContracts_ok.mp accepts
  rw [Finset.mem_sort, mem_finish ran]

theorem expandSelectedRecipes_quiet : (expandSelectedRecipes recipes selected).diagnostics = [] ↔
    ¬ ReachesUnknown recipes selected := by
  have follows := @expandSelectedRecipes_follows recipes selected
  rw [not_reachesUnknown, ← exists_mark mem_keys_of_dependencies card_keys_lt]
  constructor
  · intro quiet
    exact ⟨_, follows.quiet quiet⟩
  · rintro ⟨after, ran⟩
    by_contra diagnostics
    rw [follows.noisy diagnostics] at ran
    cases ran

theorem mem_expandSelectedRecipes (quiet : (expandSelectedRecipes recipes selected).diagnostics = [])
    (id : String) : id ∈ (expandSelectedRecipes recipes selected).expanded ↔
      Reached (dependencies recipes) selected id := by
  have follows := @expandSelectedRecipes_follows recipes selected
  rw [← mem_mark (follows.quiet quiet), List.mem_toFinset]

/-- The three expansions agree unless the selection reaches a cycle and nothing unknown. -/
theorem walksAgree_iff : WalksAgree recipes selected ↔
    ¬ ReachesCycle recipes selected ∨ ReachesUnknown recipes selected := by
  have sets : (expandRecipeDependencies recipes selected).2 = [] → ∀ ids,
      expandedRecipeContracts recipes selected = .ok ids → ∀ id,
      (id ∈ (expandRecipeDependencies recipes selected).1 ↔ id ∈ ids) ∧
        (id ∈ ids ↔ id ∈ (expandSelectedRecipes recipes selected).expanded) := by
    intro quiet ids accepts id
    have known := expandSelectedRecipes_quiet.mpr (expandRecipeDependencies_quiet.mp quiet).1
    rw [mem_expandRecipeDependencies quiet, mem_expandedRecipeContracts accepts,
      mem_expandSelectedRecipes known]
    exact ⟨.rfl, .rfl⟩
  simp only [WalksAgree, expandRecipeDependencies_quiet, expandedRecipeContracts_accepts,
    expandSelectedRecipes_quiet] at sets ⊢
  constructor
  · rintro ⟨_, same, _⟩
    by_contra neither
    rw [not_or, not_not] at neither
    exact (same.mpr neither.2).2 neither.1
  · rintro (acyclic | unknown)
    · exact ⟨trivial, and_iff_left acyclic, sets⟩
    · exact ⟨trivial, ⟨fun both => both.1, fun known => absurd unknown known⟩, sets⟩

def mutualRecipes : OrderedMap String Authored.Recipe :=
  .ofList ([("cores", "saves"), ("saves", "cores")].map fun (id, dependency) =>
    (id, ⟨id, [dependency], .empty, none, .empty, .empty, []⟩))

/-- The checks of a saved configuration say nothing about a cycle that planning refuses. -/
theorem not_walksAgree_mutual : ¬ WalksAgree mutualRecipes ["saves"] := by
  rintro ⟨_, same, _⟩
  obtain ⟨ids, accepted⟩ := same.mpr (by rfl)
  have refused : (expandedRecipeContracts mutualRecipes ["saves"]).toOption = none := by
    decide +kernel
  rw [accepted] at refused
  cases refused

end

end EmuChef.Configuration
