import EmuChef.Configuration.Availability
import EmuChef.Planner.CapabilityProbe

/-! The capabilities that are reported as missing are those of the smallest sets whose addition makes a
Recipe runnable. -/

namespace EmuChef.Configuration

open Authored (AppDefinition)
open Checks (bind_eq_ok)
open MinimalSets
open Planner

section

def withCapabilities (capabilities : RuntimeCapabilities) (added : Finset String) :
    RuntimeCapabilities where
  adbAvailable := capabilities.adbAvailable || decide ("adb_available" ∈ added)
  apkInstall := capabilities.apkInstall || decide ("apk_install" ∈ added)
  sharedStorageWrite := capabilities.sharedStorageWrite || decide ("shared_storage_write" ∈ added)
  appLaunch := capabilities.appLaunch || decide ("app_launch" ∈ added)
  shellCommand := capabilities.shellCommand || decide ("shell_command" ∈ added)
  packageRemoveForUser :=
    capabilities.packageRemoveForUser || decide ("package_remove_for_user" ∈ added)
  rootShell := capabilities.rootShell || decide ("root_shell" ∈ added)
  appDataWrite := capabilities.appDataWrite || decide ("app_data_write" ∈ added)
  rootShellRoute := capabilities.rootShellRoute

variable {capabilities : RuntimeCapabilities} {name : String} {capability : RuntimeCapability}

@[simp] theorem withCapabilities_empty : withCapabilities capabilities ∅ = capabilities := by
  simp [withCapabilities]

theorem withCapabilities_union (added more : Finset String) :
    withCapabilities (withCapabilities capabilities added) more =
      withCapabilities capabilities (added ∪ more) := by
  simp [withCapabilities, Bool.or_assoc]

def capabilityName : RuntimeCapability → String
  | .adbAvailable => "adb_available"
  | .apkInstall => "apk_install"
  | .sharedStorageWrite => "shared_storage_write"
  | .appLaunch => "app_launch"
  | .shellCommand => "shell_command"
  | .packageRemoveForUser => "package_remove_for_user"
  | .rootShell => "root_shell"
  | .appDataWrite => "app_data_write"

theorem name_of_fromName (known : RuntimeCapability.fromName name = some capability) :
    name = capabilityName capability := by
  unfold RuntimeCapability.fromName at known
  split at known <;> cases known <;> rfl

theorem isAvailable_withCapabilities (added : Finset String) :
    capability.isAvailable (withCapabilities capabilities added) =
      (capability.isAvailable capabilities || decide (capabilityName capability ∈ added)) := by
  cases capability <;> rfl

theorem setAvailable_eq (capability : RuntimeCapability) :
    setAvailable capabilities true capability =
      withCapabilities capabilities {capabilityName capability} := by
  cases capability <;> simp [setAvailable, withCapabilities, capabilityName]

theorem addCapabilities_eq {subset : List String}
    (known : ∀ name ∈ subset, (RuntimeCapability.fromName name).isSome) :
    addCapabilities capabilities subset = .ok (withCapabilities capabilities subset.toFinset) := by
  induction subset generalizing capabilities with
  | nil => simp [addCapabilities, pure, Except.pure]
  | cons name rest ih =>
      obtain ⟨capability, found⟩ := Option.isSome_iff_exists.mp (known name List.mem_cons_self)
      have later : addCapabilities (withCapabilities capabilities {name}) rest =
          .ok (withCapabilities (withCapabilities capabilities {name}) rest.toFinset) :=
        ih fun other member => known other (List.mem_cons_of_mem _ member)
      rw [withCapabilities_union, ← Finset.insert_eq, ← List.toFinset_cons] at later
      rw [← later, addCapabilities, List.foldlM_cons]
      simp only [setRuntimeCapability, found, Option.map_some, setAvailable_eq,
        ← name_of_fromName found]
      rfl

theorem capabilityAvailable_all : capabilityAvailable allRuntimeCapabilities true name = true := by
  unfold capabilityAvailable
  split
  next capability _ => cases capability <;> rfl
  next => rfl

theorem mem_sortedSet {names : List String} : name ∈ sortedSet names ↔ name ∈ names := by
  rw [sortedSet, List.mem_insertionSort, List.mem_dedup]

theorem sortedSet_nodup (names : List String) : (sortedSet names).Nodup :=
  (List.perm_insertionSort _ _).nodup_iff.mpr (List.nodup_dedup names)

end

section

variable (host : Host) (checks : AuthorityChecks) (input : PlannerInput)
  (appDefinitions : List AppDefinition)

def planWith (added : Finset String) : Except PlannerPanic PlanningResult :=
  planExecutionForRecipeAvailability host checks
    { input with runtimeCapabilities := withCapabilities input.runtimeCapabilities added }
    appDefinitions

def Restores (added : Finset String) : Prop :=
  ∃ result, planWith host checks input appDefinitions added = .ok result ∧
    planningResultHasSteps result = true

def Answers (added : Finset String) : Prop :=
  ∃ result, planWith host checks input appDefinitions added = .ok result ∧
    (planningResultHasSteps result = true ∨ planningResultIsEmptyOnly result = true)

def MissingCapability (name : String) : Prop :=
  (RuntimeCapability.fromName name).isSome ∧
    runtimeCapabilityAvailable input.runtimeCapabilities name = false

structure MinimalSolution (added : Finset String) : Prop where
  nonempty : added.Nonempty
  missing : ∀ name ∈ added, MissingCapability input name
  restores : Restores host checks input appDefinitions added
  least : ∀ fewer, fewer ⊂ added → fewer.Nonempty → ¬ Restores host checks input appDefinitions fewer

end

variable {host : Host} {checks : AuthorityChecks} {prepared : PreparedConfiguration}
  {recipe : Authored.Recipe} {appDefinitions : List AppDefinition} {search : Search}

structure SearchReached (host : Host) (checks : AuthorityChecks) (appDefinitions : List AppDefinition)
    (search : Search) : Prop where
  actual : ∃ result, planExecutionForRecipeAvailability host checks search.input appDefinitions =
    .ok result ∧ planningResultHasSteps result = false ∧ planningResultIsEmptyOnly result = true
  upper : ∃ plan warnings, planExecutionForRecipeAvailabilityUpperBound host checks
      { search.input with runtimeCapabilities := allRuntimeCapabilities } appDefinitions =
        .ok (.success plan warnings) ∧
    ∀ name, name ∈ search.missingCandidates ↔ MissingCapability search.input name ∧
      ∃ step ∈ plan.steps, name ∈ step.constraints.capabilities
  distinct : search.missingCandidates.Nodup

theorem planned_eq_ok {α : Type} {result : Except PlannerPanic α} {value : α} :
    planned result = .ok value ↔ result = .ok value := by
  cases result with
  | ok found => simp [planned]
  | error panic => simp [planned]

theorem reached_of_beforeSearch
    (reaches : beforeSearch host checks prepared recipe appDefinitions = .ok search) :
    SearchReached host checks appDefinitions search := by
  unfold beforeSearch at reaches
  dsimp only at reaches
  split at reaches
  next => cases reaches
  next input given =>
    simp only [bind_eq_ok, planned_eq_ok] at reaches
    obtain ⟨actual, actually, reaches⟩ := reaches
    split at reaches
    next => cases reaches
    next idle =>
      split at reaches
      next => cases reaches
      next empty =>
        simp only [bind_eq_ok, planned_eq_ok] at reaches
        obtain ⟨upperBound, bounded, reaches⟩ := reaches
        split at reaches
        next =>
          split at reaches
          next => cases reaches
          next => cases reaches
        next steps =>
          split at reaches
          next => cases reaches
          next =>
            cases Except.ok.inj reaches
            cases upperBound with
            | error errors warnings => simp [planningResultHasSteps] at steps
            | success plan warnings =>
                refine ⟨⟨actual, actually, by simpa using idle, by simpa using empty⟩,
                  ⟨plan, warnings, bounded, fun name => ?_⟩, (sortedSet_nodup _).filter _⟩
                simp only [List.mem_filter, candidateCapabilities, mem_sortedSet, stepsOfPlan,
                  List.mem_flatMap, setRuntimeCapability, Option.isSome_map, MissingCapability,
                  Bool.not_eq_true']
                tauto

section

variable {added : Finset String}

theorem success_of_hasSteps {result : PlanningResult} (steps : planningResultHasSteps result = true) :
    ∃ plan warnings, result = .success plan warnings ∧ plan.steps ≠ [] := by
  cases result with
  | success plan warnings => exact ⟨plan, warnings, rfl, by simpa [planningResultHasSteps] using steps⟩
  | error errors warnings => cases steps

theorem available_of_choose {input : PlannerInput} {mode : PlanningMode} {found : Prepared}
    {selected : Finset String} {chosen : Chosen} (chooses : ChosenBy input mode found selected chosen)
    {planned : PlannedStep} (listed : planned ∈ chosen.steps) :
    ∃ usage, found.targetUsage.get? planned.id = some usage ∧ ∀ name ∈ usage.capabilities,
      capabilityAvailable input.runtimeCapabilities mode.assumeUnrecognizedCapabilitiesAvailable
        name = true :=
  stepAvailable_iff.mp (chooses.selectedStep listed).1

theorem SearchReached.restores_candidates (reached : SearchReached host checks appDefinitions search)
    (missing : ∀ name ∈ added, MissingCapability search.input name)
    (restores : Restores host checks search.input appDefinitions added)
    (answers : Answers host checks search.input appDefinitions
      (added.filter (· ∈ search.missingCandidates))) :
    Restores host checks search.input appDefinitions (added.filter (· ∈ search.missingCandidates)) := by
  obtain ⟨_, planned, steps⟩ := restores
  obtain ⟨plan, warnings, rfl, occupied⟩ := success_of_hasSteps steps
  obtain ⟨found, selected, chosen, ordered, prepares, _, done⟩ := prepares_of_success planned
  obtain ⟨bound, boundWarnings, bounded, candidate⟩ := reached.upper
  obtain ⟨again, boundSelected, boundChosen, boundOrdered, boundPrepares, _, boundDone⟩ :=
    prepares_of_success bounded
  have start : prepare host checks search.input appDefinitions ⟨true, false, true⟩ = .ok found :=
    (prepare_capabilities _ rfl).symm.trans prepares
  have boundStart : prepare host checks search.input appDefinitions ⟨true, false, true⟩ = .ok again :=
    (prepare_capabilities _ rfl).symm.trans boundPrepares
  obtain rfl : found = again := Except.ok.inj (start.symm.trans boundStart)
  have standing := done.standing
  have usable (planned : PlannedStep) (listed : planned ∈ chosen.steps) :=
    available_of_choose done.chooses listed
  have inBound (planned : PlannedStep) (listed : planned ∈ chosen.steps) :
      planned ∈ boundChosen.steps := by
    refine standing.isChosen boundDone.chooses (fun other otherListed => ?_) listed
    obtain ⟨usage, used, _⟩ := usable other otherListed
    exact stepAvailable_iff.mpr ⟨usage, used, fun _ _ => capabilityAvailable_all⟩
  have available (planned : PlannedStep) (listed : planned ∈ chosen.steps) : StepAvailable
      (withCapabilities search.input.runtimeCapabilities
        (added.filter (· ∈ search.missingCandidates))) found.targetUsage false planned.id = true := by
    obtain ⟨usage, used, held⟩ := usable planned listed
    refine stepAvailable_iff.mpr ⟨usage, used, fun name asked => ?_⟩
    have grants := held name asked
    change capabilityAvailable (withCapabilities search.input.runtimeCapabilities added) false name =
      true at grants
    unfold capabilityAvailable at grants ⊢
    split at grants
    next capability known =>
      rw [isAvailable_withCapabilities, Bool.or_eq_true, decide_eq_true_eq,
        ← name_of_fromName known] at grants ⊢
      refine grants.imp_right fun inside => Finset.mem_filter.mpr ⟨inside, ?_⟩
      obtain ⟨step, emittedIn, _, _, emitted⟩ := boundDone.emits_all (inBound planned listed)
      refine (candidate name).mpr ⟨missing name inside, step, emittedIn, ?_⟩
      obtain rfl := Option.some.inj (used.symm.trans emitted.used)
      rw [emitted.capabilities]
      exact asked
    next => cases grants
  obtain ⟨result, answered, steps | empty⟩ := answers
  · exact ⟨result, answered, steps⟩
  · exfalso
    cases result with
    | success => cases empty
    | error errors warnings =>
        simp only [planningResultIsEmptyOnly, Bool.and_eq_true, decide_eq_true_eq,
          List.all_eq_true] at empty
        have startWith : prepare host checks { search.input with
            runtimeCapabilities := withCapabilities search.input.runtimeCapabilities
              (added.filter (· ∈ search.missingCandidates)) } appDefinitions ⟨true, false, true⟩ =
              .ok found := (prepare_capabilities _ rfl).trans start
        obtain ⟨none, chooses, noSteps⟩ := chosen_empty startWith answered empty.1 empty.2
        obtain ⟨_, chosenBy⟩ := chosenBy_of_choose chooses
        obtain ⟨step, member⟩ := List.exists_mem_of_ne_nil _ occupied
        obtain ⟨planned, listed, _⟩ := done.emitted member
        have inside := standing.isChosen chosenBy available listed
        rw [noSteps] at inside
        exact List.not_mem_nil inside

theorem MinimalSolution.candidates (reached : SearchReached host checks appDefinitions search)
    (answers : ∀ fewer : Finset String, (∀ name ∈ fewer, name ∈ search.missingCandidates) →
      fewer.Nonempty → Answers host checks search.input appDefinitions fewer)
    (minimal : MinimalSolution host checks search.input appDefinitions added) :
    ∀ name ∈ added, name ∈ search.missingCandidates := by
  have inside : ∀ name ∈ added.filter (· ∈ search.missingCandidates),
      name ∈ search.missingCandidates := fun name member => (Finset.mem_filter.mp member).2
  obtain ⟨actual, planned, idle, empty⟩ := reached.actual
  have asPlanned : planWith host checks search.input appDefinitions ∅ = .ok actual := by
    unfold planWith
    rw [withCapabilities_empty]
    exact planned
  have restores := reached.restores_candidates minimal.missing minimal.restores (by
    rcases (added.filter (· ∈ search.missingCandidates)).eq_empty_or_nonempty with none | some
    · rw [none]
      exact ⟨actual, asPlanned, .inr empty⟩
    · exact answers _ inside some)
  rcases (added.filter (· ∈ search.missingCandidates)).eq_empty_or_nonempty with none | some
  · rw [none] at restores
    obtain ⟨result, again, steps⟩ := restores
    obtain rfl := Except.ok.inj (again.symm.trans asPlanned)
    rw [idle] at steps
    cases steps
  · by_contra outside
    refine minimal.least _ ?_ some restores
    refine Finset.ssubset_iff_subset_ne.mpr ⟨Finset.filter_subset _ _, fun same => outside ?_⟩
    exact Finset.filter_eq_self.mp same

end

section

variable (host checks appDefinitions search) in
def Solves (subset : List String) : Prop :=
  Restores host checks search.input appDefinitions subset.toFinset

theorem mem_capabilitySubsets {candidates subset : List String}
    (member : subset ∈ capabilitySubsets candidates) : subset.Sublist candidates ∧ subset ≠ [] :=
  mem_nonemptyCombinations.mp member

theorem covers_iff {minimalSolutions : List (List String)} {subset : List String} :
    (minimalSolutions.any fun solution => solution.all fun capability =>
      subset.contains capability) = true ↔ ∃ solution ∈ minimalSolutions, solution ⊆ subset := by
  simp [List.subset_def]

theorem probeSubset_minimal {passed minimalSolutions : List (List String)} {subset : List String}
    (known : ∀ name ∈ subset, (RuntimeCapability.fromName name).isSome)
    (answers : Answers host checks search.input appDefinitions subset.toFinset)
    (minimal : Minimal (· ⊆ ·) (Solves host checks appDefinitions search) passed minimalSolutions)
    (ordered : ∀ earlier ∈ passed, subset ⊆ earlier → earlier ⊆ subset) :
    ∃ next, probeSubset host checks prepared recipe appDefinitions search minimalSolutions subset =
        .ok next ∧
      Minimal (· ⊆ ·) (Solves host checks appDefinitions search) (passed ++ [subset]) next := by
  unfold probeSubset
  dsimp only
  by_cases covered : ∃ solution ∈ minimalSolutions, solution ⊆ subset
  · rw [if_pos (covers_iff.mpr covered)]
    exact ⟨minimalSolutions, rfl, minimal.skip ordered (.inl covered)⟩
  · rw [if_neg (mt covers_iff.mp covered), addCapabilities_eq known]
    obtain ⟨result, asked, outcome⟩ := answers
    have probed : planExecutionForRecipeAvailability host checks { search.input with
        runtimeCapabilities := withCapabilities search.input.runtimeCapabilities subset.toFinset }
        appDefinitions = .ok result := asked
    by_cases steps : planningResultHasSteps result = true
    · refine ⟨minimalSolutions ++ [subset], ?_, minimal.keep (List.Subset.refl _)
        (fun _ _ => List.Subset.trans) ordered covered ⟨result, asked, steps⟩⟩
      simp [probed, planned, steps, bind, Except.bind, pure, Except.pure]
    · have empty := outcome.resolve_left steps
      have fails : ¬ Solves host checks appDefinitions search subset := by
        rintro ⟨other, again, works⟩
        obtain rfl := Except.ok.inj (again.symm.trans asked)
        exact steps works
      refine ⟨minimalSolutions, ?_, minimal.skip ordered (.inr fails)⟩
      simp [probed, planned, steps, empty, bind, Except.bind, pure, Except.pure]

theorem search_minimal {passed rest minimalSolutions : List (List String)}
    (split : passed ++ rest = capabilitySubsets search.missingCandidates)
    (distinct : search.missingCandidates.Nodup)
    (known : ∀ name ∈ search.missingCandidates, (RuntimeCapability.fromName name).isSome)
    (answers : ∀ subset : List String, subset.Sublist search.missingCandidates → subset ≠ [] →
      Answers host checks search.input appDefinitions subset.toFinset)
    (minimal : Minimal (· ⊆ ·) (Solves host checks appDefinitions search) passed minimalSolutions) :
    ∃ found, rest.foldlM (probeSubset host checks prepared recipe appDefinitions search)
        minimalSolutions = .ok found ∧
      Minimal (· ⊆ ·) (Solves host checks appDefinitions search)
        (capabilitySubsets search.missingCandidates) found := by
  induction rest generalizing passed minimalSolutions with
  | nil =>
      rw [List.append_nil] at split
      exact ⟨minimalSolutions, rfl, split ▸ minimal⟩
  | cons subset rest ih =>
      have listed : subset ∈ capabilitySubsets search.missingCandidates := by simp [← split]
      obtain ⟨inside, occupied⟩ := mem_capabilitySubsets listed
      have sizes := nonemptyCombinations_sizes search.missingCandidates
      rw [← capabilitySubsets, ← split] at sizes
      have ordered : ∀ earlier ∈ passed, subset ⊆ earlier → earlier ⊆ subset := by
        intro earlier before under
        have short := (List.pairwise_append.mp sizes).2.2 earlier before subset List.mem_cons_self
        exact ((List.subperm_of_subset (distinct.sublist inside) under).perm_of_length_le
          short).symm.subset
      obtain ⟨next, stepped, nextMinimal⟩ := probeSubset_minimal
        (fun name member => known name (inside.subset member)) (answers subset inside occupied) minimal
        ordered
      obtain ⟨found, folded, done⟩ := ih (by rw [List.append_assoc, ← split]; rfl) nextMinimal
      refine ⟨found, ?_, done⟩
      rw [List.foldlM_cons, stepped]
      exact folded

end

section

variable {found : List (List String)}

def listed (candidates : List String) (added : Finset String) : List String :=
  candidates.filter (· ∈ added)

theorem listed_toFinset {candidates : List String} {added : Finset String}
    (inside : ∀ name ∈ added, name ∈ candidates) : (listed candidates added).toFinset = added := by
  ext name
  simp only [listed, List.mem_toFinset, List.mem_filter, decide_eq_true_eq]
  exact ⟨And.right, fun member => ⟨inside name member, member⟩⟩

theorem listed_subset {candidates : List String} {added : Finset String}
    (inside : ∀ name ∈ added, name ∈ candidates) (some : added.Nonempty) :
    listed candidates added ∈ capabilitySubsets candidates := by
  refine mem_nonemptyCombinations.mpr ⟨List.filter_sublist, fun none => ?_⟩
  have empty := listed_toFinset inside
  rw [none, List.toFinset_nil] at empty
  exact some.ne_empty empty.symm

theorem minimalSolution_of_mem (missing : ∀ name ∈ search.missingCandidates,
      MissingCapability search.input name)
    (minimal : Minimal (· ⊆ ·) (Solves host checks appDefinitions search)
      (capabilitySubsets search.missingCandidates) found) {solution : List String}
    (member : solution ∈ found) :
    MinimalSolution host checks search.input appDefinitions solution.toFinset := by
  obtain ⟨tried, solves, least⟩ := minimal.sound solution member
  obtain ⟨inside, occupied⟩ := mem_capabilitySubsets tried
  have candidates : ∀ name ∈ solution.toFinset, name ∈ search.missingCandidates :=
    fun name held => inside.subset (List.mem_toFinset.mp held)
  refine ⟨List.toFinset_nonempty_iff solution |>.mpr occupied,
    fun name held => missing name (candidates name held), solves, fun fewer smaller some works => ?_⟩
  have within : ∀ name ∈ fewer, name ∈ search.missingCandidates :=
    fun name held => candidates name (smaller.subset held)
  have under : listed search.missingCandidates fewer ⊆ solution := by
    intro name held
    rw [← List.mem_toFinset, listed_toFinset within] at held
    exact List.mem_toFinset.mp (smaller.subset held)
  have same := least (listed search.missingCandidates fewer) (listed_subset within some) (by
    rw [Solves, listed_toFinset within]
    exact works) under
  refine smaller.not_subset fun name held => ?_
  rw [← listed_toFinset within, List.mem_toFinset]
  exact same (List.mem_toFinset.mp held)

theorem mem_of_minimalSolution (minimal : Minimal (· ⊆ ·) (Solves host checks appDefinitions search)
      (capabilitySubsets search.missingCandidates) found) {added : Finset String}
    (inside : ∀ name ∈ added, name ∈ search.missingCandidates)
    (smallest : MinimalSolution host checks search.input appDefinitions added) {name : String}
    (member : name ∈ added) : ∃ solution ∈ found, name ∈ solution := by
  obtain ⟨solution, kept, under⟩ := minimal.complete (listed search.missingCandidates added)
    (listed_subset inside smallest.nonempty) (by
      rw [Solves, listed_toFinset inside]
      exact smallest.restores)
  obtain ⟨tried, solves, _⟩ := minimal.sound solution kept
  have within : solution.toFinset ⊆ added := by
    intro other held
    rw [← listed_toFinset inside, List.mem_toFinset]
    exact under (List.mem_toFinset.mp held)
  refine ⟨solution, kept, ?_⟩
  by_contra absent
  refine smallest.least solution.toFinset ?_
    ((List.toFinset_nonempty_iff solution).mpr (mem_capabilitySubsets tried).2) solves
  refine Finset.ssubset_iff_subset_ne.mpr ⟨within, fun same => absent ?_⟩
  rw [← List.mem_toFinset, same]
  exact member

theorem recipeAvailability_of_search
    (reaches : beforeSearch host checks prepared recipe appDefinitions = .ok search)
    (folded : (capabilitySubsets search.missingCandidates).foldlM
      (probeSubset host checks prepared recipe appDefinitions search) [] = .ok found) :
    ∃ diagnostics, recipeAvailability host checks prepared recipe appDefinitions =
      .ok (⟨false, sortedSet found.flatten⟩, diagnostics) := by
  simp only [recipeAvailability, classify, reaches, bind, Except.bind, folded, pure, Except.pure]
  exact ⟨_, rfl⟩

/-- Once the search is reached and every probe answers, the reported capabilities are those of the
smallest sets that restore the Recipe, and these sets hold candidates of the upper bound only. -/
theorem recipeAvailability_blockers
    (reaches : beforeSearch host checks prepared recipe appDefinitions = .ok search)
    (answers : ∀ added : Finset String, (∀ name ∈ added, name ∈ search.missingCandidates) →
      added.Nonempty → Answers host checks search.input appDefinitions added) :
    ∃ availability diagnostics, recipeAvailability host checks prepared recipe appDefinitions =
        .ok (availability, diagnostics) ∧ availability.available = false ∧
      (∀ capability, capability ∈ availability.unavailableCapabilities ↔
        ∃ added, MinimalSolution host checks search.input appDefinitions added ∧
          capability ∈ added) ∧
      ∀ added, MinimalSolution host checks search.input appDefinitions added →
        ∀ capability ∈ added, capability ∈ search.missingCandidates := by
  have reached := reached_of_beforeSearch reaches
  obtain ⟨plan, warnings, _, candidate⟩ := reached.upper
  have missing : ∀ name ∈ search.missingCandidates, MissingCapability search.input name :=
    fun name member => ((candidate name).mp member).1
  have searched : ∃ found, (capabilitySubsets search.missingCandidates).foldlM
      (probeSubset host checks prepared recipe appDefinitions search) [] = .ok found ∧
      Minimal (· ⊆ ·) (Solves host checks appDefinitions search)
        (capabilitySubsets search.missingCandidates) found :=
    search_minimal (List.nil_append _) reached.distinct (fun name member => (missing name member).1)
      (fun subset inside occupied =>
        answers subset.toFinset (fun name member => inside.subset (List.mem_toFinset.mp member))
          ((List.toFinset_nonempty_iff subset).mpr occupied)) minimal_start
  obtain ⟨found, folded, minimal⟩ := searched
  obtain ⟨diagnostics, built⟩ := recipeAvailability_of_search reaches folded
  refine ⟨_, diagnostics, built, rfl, fun capability => ?_,
    fun added smallest => smallest.candidates reached answers⟩
  rw [mem_sortedSet, List.mem_flatten]
  constructor
  · rintro ⟨solution, kept, member⟩
    exact ⟨solution.toFinset, minimalSolution_of_mem missing minimal kept,
      List.mem_toFinset.mpr member⟩
  · rintro ⟨added, smallest, member⟩
    exact mem_of_minimalSolution minimal (smallest.candidates reached answers) smallest member

def needing (id : String) (capabilities : List String) : Authored.Step :=
  { plainStep id "wait" [] [("duration_ms", .literal (.integer 5))] with
    constraints := ⟨capabilities, []⟩ }

def rootRecipe : Authored.Recipe :=
  plainRecipe "games" [] []
    [needing "pause" ["root_shell"], needing "rest" ["root_shell", "app_data_write"]]

def rootlessConfiguration : PreparedConfiguration :=
  { effectiveDevicePlan := "handheld"
    recipes := [rootRecipe]
    selectedRecipeRefs := []
    expandedRecipeRefs := []
    bindings := ⟨.empty, .empty, .empty⟩
    devicePlanParts := some none
    runtimeCapabilities := { fullCapabilities with rootShell := false, appDataWrite := false }
    deviceContext := none
    catalogIdentity := none
    targetDevice := none }

def answersEach (search : Search) : Bool :=
  (capabilitySubsets search.missingCandidates).all fun subset =>
    (planWith Planner.bareHost lenientChecks search.input [] subset.toFinset).toOption.any
      fun result => planningResultHasSteps result || planningResultIsEmptyOnly result

/-- Two capabilities are missing, and one of them is enough. -/
theorem recipeAvailability_blockers_sample : ∃ (search : Search) (availability : RecipeAvailability)
    (diagnostics : List RuntimeConfigurationDiagnostic),
    search.missingCandidates = ["app_data_write", "root_shell"] ∧
      recipeAvailability Planner.bareHost lenientChecks rootlessConfiguration rootRecipe [] =
        .ok (availability, diagnostics) ∧ availability.unavailableCapabilities = ["root_shell"] ∧
      ∀ capability, capability ∈ availability.unavailableCapabilities ↔
        ∃ added, MinimalSolution Planner.bareHost lenientChecks search.input [] added ∧
          capability ∈ added := by
  have searches : (beforeSearch Planner.bareHost lenientChecks rootlessConfiguration rootRecipe
      []).toOption.any (fun search =>
        search.missingCandidates = ["app_data_write", "root_shell"] && answersEach search) = true := by
    decide +kernel
  have blocked : (recipeAvailability Planner.bareHost lenientChecks rootlessConfiguration rootRecipe
      []).toOption.any (fun found => found.1.unavailableCapabilities = ["root_shell"]) = true := by
    decide +kernel
  obtain ⟨search, reaches, found⟩ := Option.any_eq_true _ _ |>.mp searches
  obtain ⟨candidates, each⟩ := (Bool.and_eq_true _ _).mp found
  obtain ⟨availability, diagnostics, built, -, blockers, -⟩ := recipeAvailability_blockers
    (Checks.toOption_eq_some.mp reaches) fun added inside occupied => by
      obtain ⟨result, planned, answered⟩ := Option.any_eq_true _ _ |>.mp
        (List.all_eq_true.mp each _ (listed_subset inside occupied))
      rw [listed_toFinset inside] at planned
      exact ⟨result, Checks.toOption_eq_some.mp planned, Bool.or_eq_true_iff.mp answered⟩
  rw [built] at blocked
  exact ⟨search, availability, diagnostics, of_decide_eq_true candidates, built,
    of_decide_eq_true blocked, blockers⟩

end

end EmuChef.Configuration
