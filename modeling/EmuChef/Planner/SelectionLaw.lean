import EmuChef.Planner.Selection

/-! The steps that a selection keeps are those whose dependencies, all of them, can run. -/

namespace EmuChef.Planner

open Dependency Relation

def DependsOn (recipe : Recipe) (stepId dependency : String) : Prop :=
  ∃ step ∈ recipe.steps, step.id = stepId ∧ dependency ∈ step.dependencies

theorem stepsById_get? {recipe : Recipe} (distinct : (recipe.steps.map Step.id).Nodup)
    {stepId : String} {step : Step} :
    (stepsById recipe).get? stepId = some step ↔ step ∈ recipe.steps ∧ step.id = stepId := by
  have keys : ((recipe.steps.map fun step => (step.id, step)).map Prod.fst).Nodup := by
    simpa [Function.comp_def] using distinct
  rw [stepsById, OrderedMap.get?_ofList keys]
  simp only [List.mem_map, Prod.mk.injEq]
  constructor
  · rintro ⟨found, member, rfl, rfl⟩
    exact ⟨member, rfl⟩
  · rintro ⟨member, rfl⟩
    exact ⟨step, member, rfl, rfl⟩

theorem dependsOn_iff {recipe : Recipe} (distinct : (recipe.steps.map Step.id).Nodup)
    {stepId : String} {step : Step} (found : (stepsById recipe).get? stepId = some step)
    {dependency : String} : DependsOn recipe stepId dependency ↔ dependency ∈ step.dependencies := by
  constructor
  · rintro ⟨other, member, same, listed⟩
    have equal := (stepsById_get? distinct).mpr ⟨member, same⟩
    obtain rfl : other = step := Option.some.inj (equal.symm.trans found)
    exact listed
  · intro listed
    obtain ⟨member, same⟩ := (stepsById_get? distinct).mp found
    exact ⟨step, member, same, listed⟩

section

variable {recipe : Recipe}

def authoredOnce (recipe : Recipe) : Recipe := { recipe with steps := (stepsById recipe).values }

variable {stepId : String}

theorem mem_of_stepsById {step : Step} (found : (stepsById recipe).get? stepId = some step) :
    step ∈ recipe.steps ∧ step.id = stepId := by
  obtain ⟨other, member, same⟩ := List.mem_map.mp (OrderedMap.mem_of_get?_ofList found)
  obtain ⟨rfl, rfl⟩ := Prod.mk.inj same
  exact ⟨member, rfl⟩

theorem stepsById_isSome :
    ((stepsById recipe).get? stepId).isSome ↔ ∃ step ∈ recipe.steps, step.id = stepId := by
  rw [OrderedMap.get?_isSome, stepsById, OrderedMap.mem_keys_ofList]
  simp

theorem entries_stepsById :
    (authoredOnce recipe).steps.map (fun step => (step.id, step)) = (stepsById recipe).entries := by
  rw [authoredOnce, OrderedMap.values, List.map_map]
  conv_rhs => rw [← List.map_id (stepsById recipe).entries]
  refine List.map_congr_left fun entry member => ?_
  have named := (mem_of_stepsById (OrderedMap.get?_eq_some.mpr member)).2
  exact Prod.ext named rfl

theorem authoredOnce_distinct : ((authoredOnce recipe).steps.map Step.id).Nodup := by
  have keys := (stepsById recipe).distinct
  rw [← entries_stepsById, List.map_map] at keys
  exact keys

theorem stepsById_authoredOnce : stepsById (authoredOnce recipe) = stepsById recipe := by
  refine OrderedMap.ext_entries ?_
  rw [stepsById, OrderedMap.entries_ofList, entries_stepsById]
  rw [entries_stepsById]
  exact (stepsById recipe).distinct

theorem authoredOnce_length : (authoredOnce recipe).steps.length ≤ recipe.steps.length := by
  have short := OrderedMap.length_keys_ofList (recipe.steps.map fun step => (step.id, step))
  simpa [authoredOnce, stepsById, OrderedMap.values, OrderedMap.keys] using short

theorem authoredOnce_ids :
    (∃ step ∈ (authoredOnce recipe).steps, step.id = stepId) ↔
      ∃ step ∈ recipe.steps, step.id = stepId := by
  rw [← stepsById_isSome, stepsById_authoredOnce, stepsById_isSome]

theorem authoredOnce_eq (distinct : (recipe.steps.map Step.id).Nodup) : authoredOnce recipe = recipe := by
  have keys : ((recipe.steps.map fun step => (step.id, step)).map Prod.fst).Nodup := by
    simpa [Function.comp_def] using distinct
  have steps : (authoredOnce recipe).steps = recipe.steps := by
    rw [authoredOnce, OrderedMap.values, stepsById, OrderedMap.entries_ofList keys, List.map_map]
    exact List.map_id _
  exact (congrArg (fun steps => { recipe with steps := steps }) steps :)

theorem dependsOn_authoredOnce {dependency : String} {step : Step}
    (found : (stepsById recipe).get? stepId = some step) :
    DependsOn (authoredOnce recipe) stepId dependency ↔ dependency ∈ step.dependencies :=
  dependsOn_iff authoredOnce_distinct (by rw [stepsById_authoredOnce, found])

end

section

variable {stepById : OrderedMap String Step}

def Below (stepById : OrderedMap String Step) (next stepId : String) : Prop :=
  ∃ step, stepById.get? stepId = some step ∧ next ∈ step.dependencies ∧
    (stepById.get? next).isSome

theorem visitStepDependencyCycle_ok {fuel : Nat} {stepId : String} {permanent visited : Finset String}
    {stack : List String} (grounded : ∀ id ∈ permanent, Acc (Below stepById) id)
    (path : stack.Nodup) (inside : ∀ id ∈ stack, id ∈ stepById.keys)
    (room : stepById.keys.length < fuel + stack.length)
    (passed : visitStepDependencyCycle stepById fuel stepId permanent stack = .ok visited) :
    (∀ id ∈ visited, Acc (Below stepById) id) ∧ permanent ⊆ visited ∧
      ((stepById.get? stepId).isSome → stepId ∈ visited) := by
  induction fuel generalizing stepId permanent visited stack with
  | zero =>
      have short := (List.subperm_of_subset path inside).length_le
      omega
  | succ fuel ih =>
      rw [visitStepDependencyCycle] at passed
      split at passed
      next known =>
        cases Except.ok.inj passed
        exact ⟨grounded, Finset.Subset.refl _, fun _ => known⟩
      next =>
        split at passed
        next => exact nomatch passed
        next fresh =>
          split at passed
          next missing =>
            cases Except.ok.inj passed
            exact ⟨grounded, Finset.Subset.refl _, fun authored => by simp [missing] at authored⟩
          next step found =>
            obtain ⟨below, folded, built⟩ := Checks.bind_eq_ok.mp passed
            cases Except.ok.inj built
            have belongs : stepId ∈ stepById.keys := OrderedMap.get?_isSome.mp (by simp [found])
            have longer : (stack ++ [stepId]).Nodup := by
              rw [List.nodup_append]
              refine ⟨path, List.nodup_singleton _, ?_⟩
              intro id member other last same
              rw [List.mem_singleton] at last
              exact fresh (last ▸ same ▸ member)
            have covered : (∀ id ∈ below, Acc (Below stepById) id) ∧ permanent ⊆ below ∧
                ∀ dependency ∈ uniqueDependencyIds step.dependencies,
                  (stepById.get? dependency).isSome → dependency ∈ below := by
              refine Checks.foldlM_invariant (fun seen state =>
                (∀ id ∈ state, Acc (Below stepById) id) ∧ permanent ⊆ state ∧
                  ∀ dependency ∈ seen, (stepById.get? dependency).isSome → dependency ∈ state)
                ⟨grounded, Finset.Subset.refl _, by simp⟩ ?_ folded
              rintro seen dependency rest state next - ⟨held, wider, reached⟩ stepped
              obtain ⟨nextHeld, nextWider, added⟩ := ih held longer (by
                intro id member
                rcases List.mem_append.mp member with earlier | last
                · exact inside id earlier
                · exact List.mem_singleton.mp last ▸ belongs) (by simp; omega) stepped
              refine ⟨nextHeld, wider.trans nextWider, ?_⟩
              intro other member authored
              rcases List.mem_append.mp member with earlier | last
              · exact nextWider (reached other earlier authored)
              · obtain rfl := List.mem_singleton.mp last
                exact added authored
            obtain ⟨held, wider, reached⟩ := covered
            refine ⟨?_, wider.trans (Finset.subset_insert _ _), fun _ => Finset.mem_insert_self _ _⟩
            intro id member
            rcases Finset.mem_insert.mp member with rfl | earlier
            · refine Acc.intro _ ?_
              rintro next ⟨owner, same, listed, authored⟩
              obtain rfl : step = owner := Option.some.inj (found.symm.trans same)
              exact held next (reached next (by simpa [uniqueDependencyIds] using listed) authored)
            · exact held id earlier

theorem acc_of_validateStepDependencyCycles {recipeId : String} {steps : List (String × Step)}
    (valid : validateStepDependencyCycles recipeId steps = []) :
    ∀ entry ∈ steps, Acc (Below (.ofList steps)) entry.1 := by
  simp only [validateStepDependencyCycles] at valid
  split at valid
  next => exact nomatch valid
  next visited folded =>
    have covered : (∀ id ∈ visited, Acc (Below (.ofList steps)) id) ∧
        ∀ entry ∈ steps, entry.1 ∈ visited := by
      refine Checks.foldlM_invariant (fun seen state =>
        (∀ id ∈ state, Acc (Below (.ofList steps)) id) ∧ ∀ entry ∈ seen, entry.1 ∈ state)
        ⟨by simp, by simp⟩ ?_ folded
      rintro seen entry rest state next split ⟨held, reached⟩ stepped
      have short := OrderedMap.length_keys_ofList steps
      obtain ⟨nextHeld, wider, added⟩ := visitStepDependencyCycle_ok held List.nodup_nil
        (by simp) (by simp; omega) stepped
      refine ⟨nextHeld, ?_⟩
      intro other member
      rcases List.mem_append.mp member with earlier | last
      · exact wider (reached other earlier)
      · obtain rfl := List.mem_singleton.mp last
        have listed : other.1 ∈ steps.map Prod.fst := List.mem_map.mpr ⟨other, by simp [split], rfl⟩
        exact added (OrderedMap.get?_isSome.mpr (OrderedMap.mem_keys_ofList.mpr listed))
    exact fun entry member => covered.1 _ (covered.2 entry member)

end

section

variable {recipe : Recipe} {available : OrderedMap String Bool}

def Available (available : OrderedMap String Bool) (stepId : String) : Prop :=
  available.get? stepId = some true

def Selectable (recipe : Recipe) (available : OrderedMap String Bool) (stepId : String) : Prop :=
  Throughout (DependsOn recipe) (Available available) stepId

def AvailableDependency (recipe : Recipe) (available : OrderedMap String Bool)
    (stepId dependency : String) : Prop :=
  Available available stepId ∧ DependsOn recipe stepId dependency ∧ Available available dependency

structure OpenPath (recipe : Recipe) (available : OrderedMap String Bool) (fuel : Nat)
    (path : Finset String) (stepId : String) : Prop where
  open_available : ∀ id ∈ path, Available available id
  leads : Available available stepId →
    ∀ id ∈ path, TransGen (AvailableDependency recipe available) id stepId
  room : recipe.steps.length < fuel + path.card

structure Selecting (recipe : Recipe) (available : OrderedMap String Bool) : Prop where
  distinct : (recipe.steps.map Step.id).Nodup
  authored : ∀ id, Available available id → ∃ step ∈ recipe.steps, step.id = id
  acyclic : ∀ id, Available available id → ¬ TransGen (AvailableDependency recipe available) id id

namespace Selecting

variable (selecting : Selecting recipe available)
include selecting

theorem found {id : String} (isAvailable : Available available id) :
    ∃ step, (stepsById recipe).get? id = some step := by
  obtain ⟨step, member, same⟩ := selecting.authored id isAvailable
  exact ⟨step, (stepsById_get? selecting.distinct).mpr ⟨member, same⟩⟩

theorem fresh {fuel : Nat} {path : Finset String} {id : String}
    (opened : OpenPath recipe available fuel path id) : id ∉ path := by
  intro member
  have isAvailable := opened.open_available id member
  exact selecting.acyclic id isAvailable (opened.leads isAvailable id member)

theorem path_card {path : Finset String} (open_available : ∀ id ∈ path, Available available id) :
    path.card ≤ recipe.steps.length := by
  have inside : path ⊆ (recipe.steps.map Step.id).toFinset := by
    intro id member
    obtain ⟨step, authored, same⟩ := selecting.authored id (open_available id member)
    simpa using ⟨step, authored, same⟩
  calc path.card ≤ (recipe.steps.map Step.id).toFinset.card := Finset.card_le_card inside
    _ ≤ (recipe.steps.map Step.id).length := List.toFinset_card_le _
    _ = recipe.steps.length := by simp

theorem descend {fuel : Nat} {path : Finset String} {id next : String}
    (opened : OpenPath recipe available (fuel + 1) path id) (isAvailable : Available available id)
    (depends : DependsOn recipe id next) :
    OpenPath recipe available fuel (insert id path) next := by
  refine ⟨?_, ?_, ?_⟩
  · intro other member
    rcases Finset.mem_insert.mp member with rfl | earlier
    · exact isAvailable
    · exact opened.open_available other earlier
  · intro nextAvailable other member
    have edge : AvailableDependency recipe available id next := ⟨isAvailable, depends, nextAvailable⟩
    rcases Finset.mem_insert.mp member with rfl | earlier
    · exact .single edge
    · exact (opened.leads isAvailable other earlier).tail edge
  · have grown := Finset.card_insert_of_notMem (selecting.fresh opened)
    have room := opened.room
    omega

end Selecting

variable {stepId : String} {cache : SelectCache}

theorem selectable_iff : Selectable recipe available stepId ↔
    Available available stepId ∧
      ∀ next, DependsOn recipe stepId next → Selectable recipe available next :=
  throughout_iff

def CacheSound (recipe : Recipe) (available : OrderedMap String Bool) (cache : SelectCache) : Prop :=
  ∀ id answer, cache.answers.get? id = some answer →
    (answer = true ↔ Selectable recipe available id)

theorem CacheSound.insert (sound : CacheSound recipe available cache) {id : String}
    {answer : Bool} (right : answer = true ↔ Selectable recipe available id) :
    CacheSound recipe available { cache with answers := cache.answers.insert id answer } := by
  intro other found stored
  rw [OrderedMap.get?_insert] at stored
  split at stored
  next same =>
    cases Option.some.inj stored
    exact same ▸ right
  next => exact sound other found stored

def Answers (recipe : Recipe) (available : OrderedMap String Bool) (expected : Prop)
    (errors : List PlannerMessage) (result : Bool × SelectCache) : Prop :=
  (result.1 = true ↔ expected) ∧ CacheSound recipe available result.2 ∧ result.2.errors = errors

theorem answers_foldl (ask : String → SelectCache → Bool × SelectCache)
    {dependencies : List String} {errors : List PlannerMessage}
    (asks : ∀ dependency ∈ dependencies, ∀ cache, CacheSound recipe available cache →
      cache.errors = errors →
      Answers recipe available (Selectable recipe available dependency) errors (ask dependency cache))
    (allowed : Bool) (sound : CacheSound recipe available cache)
    (reported : cache.errors = errors) :
    Answers recipe available
      (allowed = true ∧ ∀ dependency ∈ dependencies, Selectable recipe available dependency) errors
      (dependencies.foldl (fun (found : Bool × SelectCache) dependency =>
        if found.1 then ask dependency found.2 else (false, found.2)) (allowed, cache)) := by
  induction dependencies generalizing allowed cache with
  | nil => simpa [Answers] using ⟨sound, reported⟩
  | cons dependency rest ih =>
      have later := fun other member => asks other (List.mem_cons_of_mem _ member)
      rw [List.foldl_cons]
      cases allowed with
      | false =>
          have stopped := ih later false sound reported
          simpa [Answers] using stopped
      | true =>
          obtain ⟨right, nextSound, nextReported⟩ := asks dependency (by simp) cache sound reported
          obtain ⟨last, lastSound, lastReported⟩ :=
            ih later (ask dependency cache).1 nextSound nextReported
          refine ⟨?_, lastSound, lastReported⟩
          simpa [right] using last

theorem canSelectLocalStep_unavailable {fuel : Nat} {temporary : Finset String}
    (missing : ¬ Available available stepId)
    (open_available : ∀ id ∈ temporary, Available available id)
    (sound : CacheSound recipe available cache) :
    Answers recipe available (Selectable recipe available stepId) cache.errors
      (canSelectLocalStep recipe (stepsById recipe) available fuel stepId temporary cache) := by
  have rejected : ¬ Selectable recipe available stepId := fun holds => missing (holds _ .refl)
  have stores : CacheSound recipe available
      { cache with answers := cache.answers.insert stepId false } :=
    sound.insert (by simp [rejected])
  cases fuel with
  | zero => exact ⟨by simp [canSelectLocalStep, rejected], sound, rfl⟩
  | succ fuel =>
      rw [canSelectLocalStep]
      split
      next cached stored => exact ⟨sound _ _ stored, sound, rfl⟩
      next =>
        rw [if_neg fun member => missing (open_available _ member)]
        split
        next => exact ⟨by simp [rejected], stores, rfl⟩
        next step found =>
          have unavailable : (available.get? stepId).getD false = false := by
            cases stored : available.get? stepId with
            | none => rfl
            | some answer =>
                cases answer with
                | false => rfl
                | true => exact absurd stored missing
          have stops : ∀ dependencies : List String, dependencies.foldl
              (fun (found : Bool × SelectCache) dependency =>
                if found.1 then canSelectLocalStep recipe (stepsById recipe) available fuel
                  dependency (insert stepId temporary) found.2 else (false, found.2))
              (false, cache) = (false, cache) := by
            intro dependencies
            induction dependencies with
            | nil => rfl
            | cons dependency rest ih => exact ih
          simp only [unavailable]
          erw [stops]
          exact ⟨by simp [rejected], stores, rfl⟩

theorem canSelectLocalStep_answers (selecting : Selecting recipe available) {fuel : Nat}
    {temporary : Finset String} (opened : OpenPath recipe available fuel temporary stepId)
    (sound : CacheSound recipe available cache) :
    Answers recipe available (Selectable recipe available stepId) cache.errors
      (canSelectLocalStep recipe (stepsById recipe) available fuel stepId temporary cache) := by
  induction fuel generalizing stepId temporary cache with
  | zero =>
      have small := selecting.path_card opened.open_available
      have room := opened.room
      omega
  | succ fuel ih =>
      by_cases isAvailable : Available available stepId
      · rw [canSelectLocalStep]
        split
        next cached stored => exact ⟨sound _ _ stored, sound, rfl⟩
        next =>
          rw [if_neg (selecting.fresh opened)]
          obtain ⟨step, found⟩ := selecting.found isAvailable
          simp only [found]
          have asked := answers_foldl (fun dependency cache => canSelectLocalStep recipe (stepsById recipe)
            available fuel dependency (insert stepId temporary) cache) (by
              intro dependency (listed : dependency ∈ step.dependencies) other otherSound reported
              have depends := (dependsOn_iff selecting.distinct found).mpr listed
              exact reported ▸ ih (selecting.descend opened isAvailable depends) otherSound)
            ((available.get? stepId).getD false) sound rfl
          obtain ⟨right, lastSound, reported⟩ := asked
          have answer : _ ↔ Selectable recipe available stepId := right.trans (by
            rw [selectable_iff]
            simp only [dependsOn_iff selecting.distinct found]
            simp [isAvailable, show available.get? stepId = some true from isAvailable])
          exact ⟨answer, lastSound.insert answer, reported⟩
      · exact canSelectLocalStep_unavailable isAvailable opened.open_available sound

def DependencyClosed (recipe : Recipe) (selected : Finset String) : Prop :=
  ∀ id ∈ selected, ∀ next, DependsOn recipe id next → next ∈ selected

theorem DependencyClosed.reached {selected : Finset String}
    (closed : DependencyClosed recipe selected) {id reached : String} (member : id ∈ selected)
    (path : ReflTransGen (DependsOn recipe) id reached) : reached ∈ selected := by
  induction path with
  | refl => exact member
  | tail _ edge ih => exact closed _ ih _ edge

def GrownBy (recipe : Recipe) (stepId : String) (selected after : Finset String) : Prop :=
  ∀ id, id ∈ after ↔ id ∈ selected ∨ ReflTransGen (DependsOn recipe) stepId id

theorem GrownBy.closed {selected after : Finset String}
    (grown : GrownBy recipe stepId selected after) (closed : DependencyClosed recipe selected) :
    DependencyClosed recipe after := by
  intro id member next edge
  rcases (grown id).mp member with earlier | path
  · exact (grown next).mpr (.inl (closed id earlier next edge))
  · exact (grown next).mpr (.inr (path.tail edge))

theorem addLocalStepWithDependencies_grown (selecting : Selecting recipe available) {fuel : Nat}
    {path selected : Finset String} (opened : OpenPath recipe available fuel path stepId)
    (selectable : Selectable recipe available stepId)
    (closed : DependencyClosed recipe selected) :
    GrownBy recipe stepId selected
      (addLocalStepWithDependencies (stepsById recipe) fuel stepId selected) := by
  induction fuel generalizing stepId path selected with
  | zero =>
      have small := selecting.path_card opened.open_available
      have room := opened.room
      omega
  | succ fuel ih =>
      have parts := selectable_iff.mp selectable
      obtain ⟨step, found⟩ := selecting.found parts.1
      rw [addLocalStepWithDependencies]
      split
      next known =>
        intro id
        exact ⟨.inl, fun member => member.elim (fun earlier => earlier) (closed.reached known)⟩
      next =>
        simp only [found]
        have added : ∀ dependencies : List String,
            (∀ next ∈ dependencies, DependsOn recipe stepId next) →
            ∀ start : Finset String, DependencyClosed recipe start →
            ∀ id, id ∈ dependencies.foldl (fun selected dependency =>
                addLocalStepWithDependencies (stepsById recipe) fuel dependency selected) start ↔
              id ∈ start ∨ ∃ next ∈ dependencies, ReflTransGen (DependsOn recipe) next id := by
          intro dependencies
          induction dependencies with
          | nil => simp
          | cons dependency rest inner =>
              intro listed start startClosed id
              have depends := listed dependency (by simp)
              have grown := ih (selecting.descend opened parts.1 depends)
                (parts.2 dependency depends) startClosed
              rw [List.foldl_cons, inner (fun next member => listed next (by simp [member])) _
                (grown.closed startClosed), grown id]
              simp only [List.mem_cons, exists_eq_or_imp]
              tauto
        intro id
        rw [Finset.mem_insert, added step.dependencies
          (fun next => (dependsOn_iff selecting.distinct found).mpr) selected closed]
        constructor
        · rintro (rfl | earlier | ⟨next, listed, path⟩)
          · exact .inr .refl
          · exact .inl earlier
          · exact .inr (.head ((dependsOn_iff selecting.distinct found).mpr listed) path)
        · rintro (earlier | path)
          · exact .inr (.inl earlier)
          · rcases path.cases_head with rfl | ⟨next, edge, rest⟩
            · exact .inl rfl
            · exact .inr (.inr ⟨next, (dependsOn_iff selecting.distinct found).mp edge, rest⟩)

theorem selecting_of_validated {requested : List String}
    (authored : ∀ id, Available available id → ∃ step ∈ recipe.steps, step.id = id)
    (asks : ∀ id, id ∈ requested ↔ Available available id)
    (valid : validateAvailableStepDependencies recipe requested (stepsById recipe) = []) :
    Selecting (authoredOnce recipe) available := by
  refine ⟨authoredOnce_distinct, fun id usable => authoredOnce_ids.mpr (authored id usable), ?_⟩
  intro id isAvailable
  simp only [validateAvailableStepDependencies] at valid
  split at valid
  next =>
    have requestedStep : ∀ stepId, Available available stepId → ∃ step,
        (stepsById recipe).get? stepId = some step ∧
        (OrderedMap.ofList (requested.filterMap fun stepId =>
          ((stepsById recipe).get? stepId).map fun step => (stepId, step))).get? stepId =
            some step := by
      intro stepId usable
      obtain ⟨step, found⟩ := Option.isSome_iff_exists.mp
        (stepsById_isSome.mpr (authored stepId usable))
      refine ⟨step, found, OrderedMap.get?_ofList_of_agree ?_ ?_⟩
      · exact List.mem_filterMap.mpr ⟨stepId, (asks stepId).mpr usable, by simp [found]⟩
      · intro other listed
        obtain ⟨key, _, same⟩ := List.mem_filterMap.mp listed
        obtain ⟨held, stored, equal⟩ := Option.map_eq_some_iff.mp same
        obtain ⟨rfl, rfl⟩ := Prod.mk.inj equal
        exact Option.some.inj (stored.symm.trans found)
    obtain ⟨step, found, listed⟩ := requestedStep id isAvailable
    have grounded := acc_of_validateStepDependencyCycles valid (id, step) (by
      exact List.mem_filterMap.mpr ⟨id, (asks id).mpr isAvailable, by simp [found]⟩)
    intro cycle
    refine not_self_of_acc grounded.transGen (transGen_swap.mpr (TransGen.mono ?_ _ _ cycle))
    rintro first second ⟨firstAvailable, depends, secondAvailable⟩
    obtain ⟨firstStep, firstFound, firstListed⟩ := requestedStep first firstAvailable
    obtain ⟨_, _, secondListed⟩ := requestedStep second secondAvailable
    exact ⟨firstStep, firstListed, (dependsOn_authoredOnce firstFound).mp depends,
      by simp [secondListed]⟩
  next reported => simp [valid] at reported

structure Collected (recipe : Recipe) (available : OrderedMap String Bool) (passed : List String)
    (found : Finset String × SelectCache) : Prop where
  sound : CacheSound recipe available found.2
  silent : found.2.errors = []
  closed : DependencyClosed recipe found.1
  members : ∀ id, id ∈ found.1 ↔ ∃ asked ∈ passed, Selectable recipe available asked ∧
    ReflTransGen (DependsOn recipe) asked id

theorem canSelectLocalStep_authoredOnce (byId : OrderedMap String Step) (fuel : Nat)
    (stepId : String) (temporary : Finset String) (cache : SelectCache) :
    canSelectLocalStep recipe byId available fuel stepId temporary cache =
      canSelectLocalStep (authoredOnce recipe) byId available fuel stepId temporary cache := by
  induction fuel generalizing stepId temporary cache with
  | zero => rfl
  | succ fuel ih =>
      have same : canSelectLocalStep recipe byId available fuel =
          canSelectLocalStep (authoredOnce recipe) byId available fuel := by
        funext stepId temporary cache
        exact ih stepId temporary cache
      simp only [canSelectLocalStep, same]
      rfl

theorem selectRequestedStep_eq (found : Finset String × SelectCache) (asked : String) :
    selectRequestedStep recipe (stepsById recipe) available found asked =
      let answer := canSelectLocalStep (authoredOnce recipe) (stepsById (authoredOnce recipe)) available
        (recipe.steps.length + 1) asked ∅ found.2
      (if answer.1 then addLocalStepWithDependencies (stepsById (authoredOnce recipe))
          (recipe.steps.length + 1) asked found.1
        else found.1, answer.2) := by
  rw [stepsById_authoredOnce, ← canSelectLocalStep_authoredOnce]
  rfl

theorem Collected.step (selecting : Selecting (authoredOnce recipe) available) {passed : List String}
    {found : Finset String × SelectCache}
    (holds : Collected (authoredOnce recipe) available passed found) (asked : String) :
    Collected (authoredOnce recipe) available (passed ++ [asked])
      (selectRequestedStep recipe (stepsById recipe) available found asked) := by
  have room : (authoredOnce recipe).steps.length ≤ recipe.steps.length := authoredOnce_length
  have opened : OpenPath (authoredOnce recipe) available (recipe.steps.length + 1) ∅ asked :=
    ⟨by simp, by simp, by simp; omega⟩
  have answers := canSelectLocalStep_answers selecting opened holds.sound
  rw [selectRequestedStep_eq]
  generalize canSelectLocalStep (authoredOnce recipe) (stepsById (authoredOnce recipe)) available
    (recipe.steps.length + 1) asked ∅ found.2 = answer at answers
  obtain ⟨right, sound, silent⟩ := answers
  by_cases selectable : Selectable (authoredOnce recipe) available asked
  · have grown := addLocalStepWithDependencies_grown selecting opened selectable holds.closed
    simp only [right.mpr selectable, if_true]
    refine ⟨sound, silent.trans holds.silent, grown.closed holds.closed, fun id => ?_⟩
    rw [grown id, holds.members id]
    constructor
    · rintro (⟨other, member, usable, path⟩ | path)
      · exact ⟨other, by simp [member], usable, path⟩
      · exact ⟨asked, by simp, selectable, path⟩
    · rintro ⟨other, member, usable, path⟩
      rcases List.mem_append.mp member with earlier | last
      · exact .inl ⟨other, earlier, usable, path⟩
      · exact .inr (List.mem_singleton.mp last ▸ path)
  · have rejected : answer.1 = false :=
      Bool.eq_false_iff.mpr fun answered => selectable (right.mp answered)
    simp only [rejected, Bool.false_eq_true, if_false]
    refine ⟨sound, silent.trans holds.silent, holds.closed, fun id => ?_⟩
    rw [holds.members id]
    constructor
    · rintro ⟨other, member, usable, path⟩
      exact ⟨other, by simp [member], usable, path⟩
    · rintro ⟨other, member, usable, path⟩
      rcases List.mem_append.mp member with earlier | last
      · exact ⟨other, earlier, usable, path⟩
      · exact absurd (List.mem_singleton.mp last ▸ usable) selectable

theorem collected_foldl (selecting : Selecting (authoredOnce recipe) available)
    (requested : List String) :
    Collected (authoredOnce recipe) available requested (requested.foldl
      (selectRequestedStep recipe (stepsById recipe) available) (∅, ⟨.empty, []⟩)) := by
  induction requested using List.reverseRecOn with
  | nil =>
      refine ⟨?_, rfl, ?_, by simp⟩
      · intro id answer stored
        exact nomatch stored
      · intro id member
        simp at member
  | append_singleton passed asked ih =>
      rw [List.foldl_append]
      exact ih.step selecting asked

/-- A step is selected exactly if it and what it depends on are available. -/
theorem mem_selectLocalStepIds {requested : List String} {selected : Finset String}
    (authored : ∀ id, Available available id → ∃ step ∈ recipe.steps, step.id = id)
    (asks : ∀ id, id ∈ requested ↔ Available available id)
    (selects : selectLocalStepIds recipe requested available = (selected, [])) (id : String) :
    id ∈ selected ↔ Selectable (authoredOnce recipe) available id := by
  simp only [selectLocalStepIds] at selects
  by_cases valid : validateAvailableStepDependencies recipe requested (stepsById recipe) = []
  · have collected := collected_foldl (selecting_of_validated authored asks valid) requested
    generalize requested.foldl (selectRequestedStep recipe (stepsById recipe) available)
      (∅, ⟨.empty, []⟩) = last at selects collected
    obtain rfl : last.1 = selected := by simpa [valid, collected.silent] using selects
    rw [collected.members id]
    constructor
    · rintro ⟨asked, _, usable, path⟩
      exact usable.closed path
    · intro usable
      exact ⟨id, (asks id).mpr (usable id .refl), usable, .refl⟩
  · simp [valid] at selects

end

section

variable {recipe : Recipe} {dependencyId : String}

theorem subset_foldl_addDependent (steps : List Step) (dependents : Finset String) :
    dependents ⊆ steps.foldl (addDependent dependencyId) dependents := by
  induction steps generalizing dependents with
  | nil => exact Finset.Subset.refl _
  | cons step rest ih =>
      refine Finset.Subset.trans ?_ (ih _)
      unfold addDependent
      split
      · exact Finset.Subset.refl _
      · split
        · exact Finset.subset_insert _ _
        · exact Finset.Subset.refl _

def SoundDependents (recipe : Recipe) (dependencyId : String) (dependents : Finset String) : Prop :=
  ∀ id ∈ dependents, id ≠ dependencyId ∧ TransGen (DependsOn recipe) id dependencyId

theorem soundDependents_foldl {steps : List Step} (authored : ∀ step ∈ steps, step ∈ recipe.steps)
    {dependents : Finset String} (sound : SoundDependents recipe dependencyId dependents) :
    SoundDependents recipe dependencyId (steps.foldl (addDependent dependencyId) dependents) := by
  induction steps generalizing dependents with
  | nil => exact sound
  | cons step rest ih =>
      refine ih (fun other member => authored other (by simp [member])) ?_
      unfold addDependent
      split
      next => exact sound
      next fresh =>
        split
        next triggers =>
          intro id member
          rcases Finset.mem_insert.mp member with rfl | earlier
          · have edge (item : String) (listed : item ∈ step.dependencies) :
                DependsOn recipe step.id item := ⟨step, authored step (by simp), rfl, listed⟩
            refine ⟨fun same => fresh (.inl same), ?_⟩
            rcases triggers with direct | ⟨item, listed, known⟩
            · exact .single (edge _ direct)
            · exact .head (edge _ listed) (sound item known).2
          · exact sound id earlier
        next => exact sound

theorem mem_foldl_addDependent {steps : List Step} {dependents : Finset String} {step : Step}
    (member : step ∈ steps) (different : step.id ≠ dependencyId)
    (triggers : ∃ item ∈ step.dependencies, item = dependencyId ∨ item ∈ dependents) :
    step.id ∈ steps.foldl (addDependent dependencyId) dependents := by
  induction steps generalizing dependents with
  | nil => exact nomatch member
  | cons first rest ih =>
      rw [List.foldl_cons]
      rcases List.mem_cons.mp member with rfl | later
      · refine subset_foldl_addDependent rest _ ?_
        obtain ⟨item, listed, reason⟩ := triggers
        have direct : dependencyId ∈ step.dependencies ∨
            ∃ item ∈ step.dependencies, item ∈ dependents :=
          reason.elim (fun same => .inl (same ▸ listed)) fun known => .inr ⟨item, listed, known⟩
        unfold addDependent
        split
        next known => exact known.resolve_left different
        next => exact Finset.mem_insert_self _ _
      · obtain ⟨item, listed, reason⟩ := triggers
        exact ih later ⟨item, listed, reason.imp_right fun known =>
          subset_foldl_addDependent [first] dependents known⟩

theorem foldl_addDependent_subset {steps : List Step}
    (authored : ∀ step ∈ steps, step ∈ recipe.steps) {dependents : Finset String}
    (inside : dependents ⊆ (recipe.steps.map Step.id).toFinset) :
    steps.foldl (addDependent dependencyId) dependents ⊆ (recipe.steps.map Step.id).toFinset := by
  induction steps generalizing dependents with
  | nil => exact inside
  | cons step rest ih =>
      refine ih (fun other member => authored other (by simp [member])) ?_
      unfold addDependent
      split
      · exact inside
      · split
        · refine Finset.insert_subset ?_ inside
          simpa using ⟨step, authored step (by simp), rfl⟩
        · exact inside

theorem mem_dependentStepIds {id : String} : id ∈ dependentStepIds recipe dependencyId ↔
    id ≠ dependencyId ∧ TransGen (DependsOn recipe) id dependencyId := by
  constructor
  · refine saturate_invariant (SoundDependents recipe dependencyId) ?_ _ ∅ (by
      intro id member
      simp at member) id
    exact fun found sound => soundDependents_foldl (fun _ member => member) sound
  · have settled : dependentRound recipe dependencyId (dependentStepIds recipe dependencyId) =
        dependentStepIds recipe dependencyId := by
      refine round_saturate (recipe.steps.map Step.id).toFinset
        (fun found => subset_foldl_addDependent _ found) ?_ _ ∅ (by simp) ?_
      · exact fun found => foldl_addDependent_subset (fun _ member => member)
      · have small := List.toFinset_card_le (recipe.steps.map Step.id)
        simp only [List.length_map] at small
        simp
        omega
    rintro ⟨different, path⟩
    induction path using TransGen.head_induction_on with
    | single edge =>
        obtain ⟨step, member, rfl, listed⟩ := edge
        rw [← settled]
        exact mem_foldl_addDependent member different ⟨_, listed, .inl rfl⟩
    | head edge path ih =>
        obtain ⟨step, member, rfl, listed⟩ := edge
        rw [← settled]
        refine mem_foldl_addDependent member different ⟨_, listed, ?_⟩
        rename_i middle
        by_cases same : middle = dependencyId
        · exact .inl same
        · exact .inr (ih same)

end

end EmuChef.Planner
