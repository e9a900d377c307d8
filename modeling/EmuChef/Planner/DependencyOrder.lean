import EmuChef.Configuration.ExpansionLaw

/-! The expansion of Recipe dependencies returns on every graph, and lists each Recipe once and
after all that it depends on. -/

namespace EmuChef.Planner

open EmuChef.Configuration
open DepthFirst

variable {recipes : OrderedMap String Authored.Recipe}

theorem nodup_concat {stack : List String} {recipeRef : String} (distinct : stack.Nodup)
    (fresh : recipeRef ∉ stack) : (stack ++ [recipeRef]).Nodup :=
  List.nodup_append.mpr ⟨distinct, List.nodup_singleton _, fun earlier member last same => by
    obtain rfl := List.mem_singleton.mp same
    exact fun equal => fresh (equal ▸ member)⟩

theorem inside_concat {stack : List String} {recipeRef : String} {recipe : Authored.Recipe}
    (inside : ∀ earlier ∈ stack, earlier ∈ recipes.keys.toFinset)
    (held : recipes.get? recipeRef = some recipe) :
    ∀ earlier ∈ stack ++ [recipeRef], earlier ∈ recipes.keys.toFinset := by
  intro earlier member
  rcases List.mem_append.mp member with member | member
  · exact inside earlier member
  · obtain rfl := List.mem_singleton.mp member
    exact mem_keys_of_dependencies _ (by simp [dependencies_some held])

theorem visitRecipeDependency_nodup (fuel : Nat) (recipeRef : String) (stack : List String)
    (found : Expansion) (distinct : found.ordered.Nodup) :
    (visitRecipeDependency recipes fuel recipeRef stack found).ordered.Nodup := by
  induction fuel generalizing recipeRef stack found with
  | zero => exact distinct
  | succ fuel ih =>
      have each : ∀ (dependencies : List String) (found : Expansion), found.ordered.Nodup →
          (dependencies.foldl (fun found dependencyRef => visitRecipeDependency recipes fuel
            dependencyRef (stack ++ [recipeRef]) found) found).ordered.Nodup := by
        intro dependencies
        induction dependencies with
        | nil => exact fun _ distinct => distinct
        | cons dependencyRef rest visits =>
            exact fun found distinct => visits _ (ih dependencyRef _ found distinct)
      rw [visitRecipeDependency]
      split
      next => exact distinct
      next =>
        split
        next => exact distinct
        next =>
          split
          next => exact distinct
          next recipe _ =>
            have visited := each recipe.recipeDependencies found distinct
            dsimp only
            split
            next => exact visited
            next absent => exact nodup_concat visited absent

theorem expandRecipeDependencies_nodup (selectedRecipeRefs : List String) :
    (expandRecipeDependencies recipes selectedRecipeRefs).1.Nodup := by
  have each : ∀ (refs : List String) (found : Expansion), found.ordered.Nodup →
      (refs.foldl (fun found recipeRef => visitRecipeDependency recipes
        (recipes.entries.length + 1) recipeRef [] found) found).ordered.Nodup := by
    intro refs
    induction refs with
    | nil => exact fun _ distinct => distinct
    | cons recipeRef rest ih =>
        exact fun found distinct => ih _ (visitRecipeDependency_nodup _ recipeRef [] found distinct)
  exact each selectedRecipeRefs _ List.nodup_nil

def Postordered (recipes : OrderedMap String Authored.Recipe) (order : List String) : Prop :=
  ∀ before id after, order = before ++ id :: after →
    ∀ others, dependencies recipes id = some others → ∀ other ∈ others, other ∈ before

theorem Postordered.concat {order others : List String} {id : String}
    (held : Postordered recipes order) (listing : dependencies recipes id = some others)
    (listed : ∀ other ∈ others, other ∈ order) : Postordered recipes (order ++ [id]) := by
  intro before last after split found sameListing
  rcases List.eq_nil_or_concat after with rfl | ⟨earlier, final, rfl⟩
  · obtain ⟨rfl, same⟩ := List.append_inj' split rfl
    obtain rfl : id = last := by simpa using same
    obtain rfl : others = found := Option.some.inj (listing.symm.trans sameListing)
    exact listed
  · have shorter : order ++ [id] = (before ++ last :: earlier) ++ [final] := by simpa using split
    obtain ⟨same, _⟩ := List.append_inj' shorter rfl
    exact held before last earlier same found sameListing

theorem visitRecipeDependency_postordered {fuel : Nat} {recipeRef : String} {stack : List String}
    {found : Expansion} (distinct : stack.Nodup)
    (inside : ∀ earlier ∈ stack, earlier ∈ recipes.keys.toFinset)
    (room : recipes.entries.length < fuel + stack.length)
    (listed : found.ordered.toFinset = found.permanent) (held : Postordered recipes found.ordered)
    (quiet : (visitRecipeDependency recipes fuel recipeRef stack found).errors = found.errors) :
    Postordered recipes (visitRecipeDependency recipes fuel recipeRef stack found).ordered := by
  induction fuel generalizing recipeRef stack found with
  | zero => exact held
  | succ fuel ih =>
      rw [visitRecipeDependency] at quiet ⊢
      by_cases done : recipeRef ∈ found.permanent
      · rwa [if_pos done]
      rw [if_neg done] at quiet ⊢
      by_cases loop : recipeRef ∈ stack
      · rwa [if_pos loop]
      rw [if_neg loop] at quiet ⊢
      cases known : recipes.get? recipeRef with
      | none => exact held
      | some recipe =>
          simp only [known] at quiet ⊢
          have extended := nodup_concat distinct loop
          have within := inside_concat inside known
          have deeper : recipes.entries.length < fuel + (stack ++ [recipeRef]).length := by
            rw [List.length_append, List.length_singleton]
            omega
          have follows := foldl_follows recipe.recipeDependencies
            (fun state dependencyRef _ listed => @visitRecipeDependency_follows recipes fuel
              dependencyRef (stack ++ [recipeRef]) state extended within deeper listed) listed
          have ordered := @foldl_keeps _ _ _ _ _ _ _ _ (fun found => Postordered recipes found.ordered)
            recipe.recipeDependencies found
            (fun state dependencyRef _ listed => @visitRecipeDependency_follows recipes fuel
              dependencyRef (stack ++ [recipeRef]) state extended within deeper listed)
            (fun state dependencyRef _ listed held quiet => ih extended within deeper listed held quiet)
            listed held quiet
          have finished := mem_of_foldlM_finishing (follows.quiet quiet)
          split
          next => exact ordered
          next =>
            refine ordered.concat (dependencies_some known) fun other member => ?_
            have visited := finished other member
            rw [← follows.sound] at visited
            exact List.mem_toFinset.mp visited

theorem expandRecipeDependencies_postordered {selected : List String}
    (quiet : (expandRecipeDependencies recipes selected).2 = []) :
    Postordered recipes (expandRecipeDependencies recipes selected).1 :=
  foldl_keeps selected
    (fun _ _ _ listed => visitRecipeDependency_follows List.nodup_nil (by simp) (Nat.lt_succ_self _)
      listed)
    (fun _ _ _ listed held quiet => visitRecipeDependency_postordered List.nodup_nil (by simp)
      (Nat.lt_succ_self _) listed held quiet)
    rfl (fun _ _ _ split => absurd split (by simp)) quiet

/-- The visits that the source makes to some references in order, however deep they go. -/
inductive Visits (recipes : OrderedMap String Authored.Recipe) :
    List String → List String → Expansion → Expansion → Prop
  | done {stack : List String} {found : Expansion} : Visits recipes stack [] found found
  | known {stack rest : List String} {recipeRef : String} {found after : Expansion}
      (member : recipeRef ∈ found.permanent) (later : Visits recipes stack rest found after) :
      Visits recipes stack (recipeRef :: rest) found after
  | cycle {stack rest : List String} {recipeRef : String} {found after : Expansion}
      (fresh : recipeRef ∉ found.permanent) (member : recipeRef ∈ stack)
      (later : Visits recipes stack rest { found with
        errors := found.errors ++ [recipeCycleMessage (stack ++ [recipeRef]) recipeRef] } after) :
      Visits recipes stack (recipeRef :: rest) found after
  | missing {stack rest : List String} {recipeRef : String} {found after : Expansion}
      (fresh : recipeRef ∉ found.permanent) (closed : recipeRef ∉ stack)
      (unknown : recipes.get? recipeRef = none)
      (later : Visits recipes stack rest { found with
        errors := found.errors ++ [recipeNotFoundMessage recipeRef stack.getLast?] } after) :
      Visits recipes stack (recipeRef :: rest) found after
  | expands {stack rest : List String} {recipeRef : String} {recipe : Authored.Recipe}
      {found visited after : Expansion} (fresh : recipeRef ∉ found.permanent)
      (closed : recipeRef ∉ stack) (held : recipes.get? recipeRef = some recipe)
      (inner : Visits recipes (stack ++ [recipeRef]) recipe.recipeDependencies found visited)
      (later : Visits recipes stack rest { visited with
        permanent := insert recipeRef visited.permanent
        ordered := if recipeRef ∈ visited.ordered then visited.ordered
          else visited.ordered ++ [recipeRef] } after) :
      Visits recipes stack (recipeRef :: rest) found after

theorem visits_foldl {visit : Expansion → String → Expansion} {stack : List String}
    (each : ∀ recipeRef rest found after, Visits recipes stack rest (visit found recipeRef) after →
      Visits recipes stack (recipeRef :: rest) found after) (refs : List String)
    (found : Expansion) : Visits recipes stack refs found (refs.foldl visit found) := by
  induction refs generalizing found with
  | nil => exact .done
  | cons recipeRef rest ih => exact each recipeRef rest found _ (ih (visit found recipeRef))

theorem visits_visitRecipeDependency {fuel : Nat} {recipeRef : String} {stack rest : List String}
    {found after : Expansion} (distinct : stack.Nodup)
    (inside : ∀ earlier ∈ stack, earlier ∈ recipes.keys.toFinset)
    (room : recipes.entries.length < fuel + stack.length)
    (later : Visits recipes stack rest (visitRecipeDependency recipes fuel recipeRef stack found) after) :
    Visits recipes stack (recipeRef :: rest) found after := by
  induction fuel generalizing recipeRef stack rest found after with
  | zero =>
      have short := length_le_of_inside distinct inside
      omega
  | succ fuel ih =>
      rw [visitRecipeDependency] at later
      by_cases done : recipeRef ∈ found.permanent
      · rw [if_pos done] at later
        exact .known done later
      rw [if_neg done] at later
      by_cases loop : recipeRef ∈ stack
      · rw [if_pos loop] at later
        exact .cycle done loop later
      rw [if_neg loop] at later
      cases held : recipes.get? recipeRef with
      | none =>
          rw [held] at later
          exact .missing done loop held later
      | some recipe =>
          rw [held] at later
          have extended := nodup_concat distinct loop
          have within := inside_concat inside held
          have deeper : recipes.entries.length < fuel + (stack ++ [recipeRef]).length := by
            rw [List.length_append, List.length_singleton]
            omega
          refine .expands done loop held (visits_foldl ?_ recipe.recipeDependencies found) later
          intro dependencyRef others found after visited
          exact ih extended within deeper visited

theorem visits_expandRecipeDependencies (selected : List String) :
    ∃ found, Visits recipes [] selected ⟨[], ∅, []⟩ found ∧
      expandRecipeDependencies recipes selected = (found.ordered, found.errors) := by
  refine ⟨_, visits_foldl ?_ selected _, rfl⟩
  intro recipeRef rest found after later
  exact visits_visitRecipeDependency List.nodup_nil (by simp) (Nat.lt_succ_self _) later

theorem Visits.unique {stack refs : List String} {found first second : Expansion}
    (one : Visits recipes stack refs found first) (other : Visits recipes stack refs found second) :
    first = second := by
  induction one generalizing second with
  | done =>
      cases other
      rfl
  | known member _ ih =>
      cases other with
      | known _ later => exact ih later
      | cycle fresh => exact absurd member fresh
      | missing fresh => exact absurd member fresh
      | expands fresh => exact absurd member fresh
  | cycle fresh member _ ih =>
      cases other with
      | known known => exact absurd known fresh
      | cycle _ _ later => exact ih later
      | missing _ closed => exact absurd member closed
      | expands _ closed => exact absurd member closed
  | missing fresh closed unknown _ ih =>
      cases other with
      | known known => exact absurd known fresh
      | cycle _ open_ => exact absurd open_ closed
      | missing _ _ _ later => exact ih later
      | expands _ _ held => rw [unknown] at held; cases held
  | expands fresh closed held _ _ inner ih =>
      cases other with
      | known known => exact absurd known fresh
      | cycle _ open_ => exact absurd open_ closed
      | missing _ _ unknown => rw [held] at unknown; cases unknown
      | expands _ _ sameHeld visits later =>
          obtain rfl := Option.some.inj (held.symm.trans sameHeld)
          obtain rfl := inner visits
          exact ih later

/-- Expansion returns on every map; it is quiet when all that the selection reaches is known and on
no cycle, and then lists what is reached, once each and dependencies first. -/
theorem expandRecipeDependencies_correct (recipes : OrderedMap String Authored.Recipe)
    (selected : List String) :
    (∃ found, Visits recipes [] selected ⟨[], ∅, []⟩ found ∧
      expandRecipeDependencies recipes selected = (found.ordered, found.errors)) ∧
    ((expandRecipeDependencies recipes selected).2 = [] ↔
      ¬ ReachesUnknown recipes selected ∧ ¬ ReachesCycle recipes selected) ∧
    ((expandRecipeDependencies recipes selected).2 = [] →
      (expandRecipeDependencies recipes selected).1.Nodup ∧
      (∀ id, id ∈ (expandRecipeDependencies recipes selected).1 ↔
        Reached (dependencies recipes) selected id) ∧
      Postordered recipes (expandRecipeDependencies recipes selected).1) := by
  refine ⟨visits_expandRecipeDependencies selected, expandRecipeDependencies_quiet, fun quiet => ?_⟩
  exact ⟨expandRecipeDependencies_nodup selected, mem_expandRecipeDependencies quiet,
    expandRecipeDependencies_postordered quiet⟩

end EmuChef.Planner
