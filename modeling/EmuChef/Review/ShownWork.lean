import EmuChef.Lib.Grouping
import EmuChef.Planner.DependencyOrder
import EmuChef.Planner.Resolution
import EmuChef.Review.CopyChanges

/-! A review shows the work of its plan: every step once, and the changes of every copy. -/

namespace EmuChef.Review

open Planner
open Authored (AppDefinition)
open CopyCommit
open Program (Runs)

section

variable {presentation : String → String → InputPresentation} {host : Host}
  {checks : AuthorityChecks} {input : PlannerInput} {devicePlan : Option ExecutionDevicePlanSnapshot}
  {appDefinitions : List AppDefinition} {mode : PlanningMode} {reviewed : ReviewedPlan}

theorem captured_eq_ok {warnings : List PlannerMessage}
    {result : Except PlannerMessage ExecutionReviewArtifacts} {artifacts : ExecutionReviewArtifacts} :
    captured warnings result = .ok artifacts ↔ result = .ok artifacts := by
  cases result with
  | ok found => simp [captured]
  | error error => simp [captured]

variable (emitted : reviewedPlanning presentation host checks input devicePlan appDefinitions mode =
  .ok reviewed)

include emitted

theorem succeeds_of_reviewed : ∃ prepared selected chosen ordered,
      Succeeds host checks input appDefinitions mode prepared selected chosen ordered
        reviewed.execution ∧
      reviewed.source.expandedRecipeRefs = prepared.expandedRecipeRefs := by
  simp only [reviewedPlanning, Checks.bind_eq_ok, running_eq_ok, captured_eq_ok] at emitted
  obtain ⟨prepared, prepares, chosen, chooses, _, validated, ordered, sorts, artifacts, _, plan, emits,
    built⟩ := emitted
  cases Except.ok.inj built
  obtain ⟨selected, chooses⟩ := chosenBy_of_choose chooses
  exact ⟨prepared, selected, chosen, ordered, ⟨preparedBy_of_prepare prepares, chooses,
    validateChosen_eq_ok.mp validated, orderSteps_eq_ok sorts, emits⟩, rfl⟩

theorem expandedRefs_nodup : reviewed.source.expandedRecipeRefs.Nodup := by
  obtain ⟨prepared, _, _, _, done, same⟩ := succeeds_of_reviewed emitted
  rw [same, done.prepares.expandedRefs]
  exact expandRecipeDependencies_nodup _

theorem recipeRef_expanded {step : ExecutionStep} (member : step ∈ reviewed.execution.steps) :
    step.recipeRef ∈ reviewed.source.expandedRecipeRefs := by
  obtain ⟨prepared, _, _, _, done, same⟩ := succeeds_of_reviewed emitted
  obtain ⟨planned, _, recipe, usage, made⟩ := done.emitted member
  rw [same, made.recipeRef]
  exact made.authored.listed

end

section

variable {wording : ReviewedPlan → ExecutionStep → String → ActionText} {plan : ReviewedPlan}

structure Shows (wording : ReviewedPlan → ExecutionStep → String → ActionText) (plan : ReviewedPlan)
    (shown : ReviewSection) (steps : List ExecutionStep) : Prop where
  actions : shown.actions = steps.map (projectAction wording plan shown.kind)
  kind : ∀ step ∈ steps, actionSection step = some shown.kind

def ShowsEachStep (inOrder : List ExecutionStep → Prop)
    (wording : ReviewedPlan → ExecutionStep → String → ActionText) (plan : ReviewedPlan) : Prop :=
  ∃ shown : List (List (List ExecutionStep)),
    List.Forall₂ (List.Forall₂ (Shows wording plan))
      ((projectReview wording plan).features.map (·.sections)) shown ∧
    shown.flatten.flatten.Perm plan.execution.steps ∧ ∀ steps ∈ shown.flatten, inOrder steps

def InPlanOrder (plan : ReviewedPlan) (steps : List ExecutionStep) : Prop :=
  steps.Sublist plan.execution.steps

def InAuthoredOrder (recipes : OrderedMap String Authored.Recipe) (steps : List ExecutionStep) :
    Prop :=
  ∃ recipeId recipe, recipes.get? recipeId = some recipe ∧ (steps.map ExecutionStep.id).Sublist
    (recipe.steps.map fun step => makeExecutionStepId recipeId step.id)

structure Executable (plan : ReviewedPlan) : Prop where
  snapshots : ∀ recipeId ∈ plan.source.expandedRecipeRefs, (recipeSnapshot plan recipeId).isSome
  sections : ∀ recipeId ∈ plan.source.expandedRecipeRefs, ∀ step ∈ featureSteps plan recipeId,
    (actionSection step).isSome

theorem executable_of_canExecute (executes : (projectReview wording plan).canExecute = true) :
    Executable plan := by
  simp only [projectReview, Bool.and_eq_true, Bool.not_eq_true', missingFeatureMetadata,
    Bool.or_eq_false_iff, List.any_eq_false, unsupportedAction] at executes
  obtain ⟨⟨supported, _, complete⟩, _⟩ := executes
  have snapshots : ∀ recipeId ∈ plan.source.expandedRecipeRefs,
      (recipeSnapshot plan recipeId).isSome := by
    intro recipeId listed
    simpa [Option.isSome_iff_ne_none] using complete recipeId listed
  refine ⟨snapshots, fun recipeId listed step member => ?_⟩
  have sound := supported recipeId listed
  simp only [snapshots recipeId listed, true_and, Bool.not_eq_true, List.any_eq_false] at sound
  have allowed := sound step member
  rw [isUnsupported, Bool.or_eq_false_iff] at allowed
  simpa [Option.isSome_iff_ne_none] using allowed.1

def kindSteps (plan : ReviewedPlan) (recipeId : String) : List (List ExecutionStep) :=
  (sectionLabels.map fun kind => some kind.1).map
    (Grouping.group actionSection (featureSteps plan recipeId))

theorem projectSection_shows {steps : List ExecutionStep} (kinds : List (String × String)) :
    List.Forall₂ (Shows wording plan) (kinds.filterMap (projectSection wording plan steps))
      (((kinds.map fun kind => some kind.1).map (Grouping.group actionSection steps)).filter
        fun shown => !shown.isEmpty) := by
  induction kinds with
  | nil => exact .nil
  | cons kind rest ih =>
      simp only [List.filterMap_cons, List.map_cons, projectSection]
      cases empty : Grouping.group actionSection steps (some kind.1) with
      | nil =>
          have none : steps.filter (fun step => actionSection step = some kind.1) = [] := empty
          simpa [none] using ih
      | cons step others =>
          have some : steps.filter (fun step => actionSection step = some kind.1) = step :: others :=
            empty
          simp only [some, List.map_cons, reduceCtorEq, ↓reduceIte, List.filter_cons,
            List.isEmpty_cons, Bool.not_false]
          refine .cons ⟨rfl, fun shown member => ?_⟩ ih
          rw [← empty] at member
          exact (Grouping.mem_group.mp member).2

theorem kinds_nodup : (sectionLabels.map fun kind => some kind.1).Nodup := by decide

theorem actionSection_listed {step : ExecutionStep} (placed : (actionSection step).isSome) :
    actionSection step ∈ sectionLabels.map fun kind => some kind.1 := by
  unfold actionSection at placed ⊢
  split <;> first | decide | simp_all

theorem showsEachStep (executable : Executable plan)
    (distinct : plan.source.expandedRecipeRefs.Nodup)
    (covers : ∀ step ∈ plan.execution.steps, step.recipeRef ∈ plan.source.expandedRecipeRefs) :
    ShowsEachStep (InPlanOrder plan) wording plan := by
  have all : plan.source.expandedRecipeRefs.filter (fun recipeId =>
      (recipeSnapshot plan recipeId).isSome) = plan.source.expandedRecipeRefs :=
    List.filter_eq_self.mpr executable.snapshots
  let filled (recipeId : String) : List (List ExecutionStep) :=
    (kindSteps plan recipeId).filter fun shown => !shown.isEmpty
  refine ⟨plan.source.expandedRecipeRefs.map filled, ?_, ?_, ?_⟩
  · rw [projectReview, all, List.map_map, List.forall₂_map_left_iff, List.forall₂_map_right_iff,
      List.forall₂_same]
    exact fun recipeId _ => projectSection_shows sectionLabels
  · have flat : (plan.source.expandedRecipeRefs.map filled).flatten.flatten =
        (plan.source.expandedRecipeRefs.map (kindSteps plan)).flatten.flatten := by
      rw [List.flatten_flatten, List.flatten_flatten, List.map_map, List.map_map]
      congr 1
      exact List.map_congr_left fun recipeId _ => List.flatten_filter_not_isEmpty
    rw [flat]
    refine Grouping.nested_groups_perm distinct covers kinds_nodup fun step member => ?_
    refine actionSection_listed (executable.sections step.recipeRef (covers step member) step ?_)
    exact List.mem_filter.mpr ⟨member, by simp⟩
  · intro steps member
    obtain ⟨sections, listed, inside⟩ := List.mem_flatten.mp member
    obtain ⟨recipeId, _, rfl⟩ := List.mem_map.mp listed
    obtain ⟨kind, _, rfl⟩ := List.mem_map.mp (List.mem_filter.mp inside).1
    exact (Grouping.group_sublist _).trans List.filter_sublist

end

section

variable (presentation : String → String → InputPresentation) (host : Host)
  (checks : AuthorityChecks) (wording : ReviewedPlan → ExecutionStep → String → ActionText)
  (sha256 : List UInt8 → List UInt8) (canonicalize : String → Except String String)

/-- The changes that the review of a copy step shows are those of every commit of its snapshot
that reports success. -/
def ShowsCopy (plan : ReviewedPlan) (step : ExecutionStep) : Prop :=
  ∀ snapshot arguments request stageRoot events report before after,
    copySnapshot plan step = some snapshot →
    requestForExecution sha256 canonicalize snapshot arguments = .ok request →
    Runs (commit sha256 stageRoot request) events (.ok report) → report.outcome = .succeeded →
    TreeRun request.destinationIdentity before events after →
    ∃ shown, (projectAction wording plan "copies" step).copyChanges = some shown ∧
      (projectAction wording plan "copies" step).reviewedDeletionSet = some shown.deletions ∧
      ShowsChanges shown (manifestPaths snapshot.sourceManifest) before after

structure ShowsWork (inOrder : List ExecutionStep → Prop) (plan : ReviewedPlan) : Prop where
  steps : (projectReview wording plan).canExecute = true → ShowsEachStep inOrder wording plan
  copies : ∀ step ∈ plan.execution.steps, step.typeName = "copy_files" →
    ShowsCopy wording sha256 canonicalize plan step

variable {sha256 canonicalize wording}

theorem showsCopy (plan : ReviewedPlan) (step : ExecutionStep) :
    ShowsCopy wording sha256 canonicalize plan step := by
  intro snapshot arguments request stageRoot events report before after found accepted ran succeeded
    passes
  refine ⟨projectCopyChanges snapshot, by simp [projectAction, found],
    by simp [projectAction, found, projectCopyChanges], ?_⟩
  have requested := requestedBy_of_accepted accepted
  obtain ⟨binding, checked, ends⟩ := commit_ends ran passes succeeded
  have facts := reviewedFacts_of_checkRequest checked
  have starts := commit_starts ran passes
  have source := facts.source.unique
  have destination := facts.destination.unique
  have deletions := facts.deletions
  rw [requested.source] at source deletions ends
  rw [requested.destination] at destination deletions ends starts
  rw [requested.operation] at deletions ends
  rw [requested.deletions] at deletions
  exact Copied.showsChanges ⟨source, destination, deletions, starts, ends⟩

/-- A review of an emitted plan, with any copy snapshots attached, shows the work of the plan, each
section in the order in which the plan runs its steps. -/
theorem reviewedPlanning_showsWork (input : PlannerInput)
    (devicePlan : Option ExecutionDevicePlanSnapshot) (appDefinitions : List AppDefinition)
    (mode : PlanningMode) (reviewed : ReviewedPlan)
    (snapshots : List CopyCommit.ExecutionCopyCommitSnapshot)
    (emitted : reviewedPlanning presentation host checks input devicePlan appDefinitions mode =
      .ok reviewed) :
    ShowsWork wording sha256 canonicalize
      (InPlanOrder { reviewed with copyCommitSnapshots := snapshots })
      { reviewed with copyCommitSnapshots := snapshots } where
  steps executes :=
    have distinct : reviewed.source.expandedRecipeRefs.Nodup := expandedRefs_nodup emitted
    showsEachStep (executable_of_canExecute executes) distinct
      fun step (member : step ∈ reviewed.execution.steps) => recipeRef_expanded emitted member
  copies step _ _ := showsCopy _ step

def laterFirst : PlannerInput :=
  plainInput (plainRecipe "games"
    [("folder", ⟨"directory", true, false, .null, ⟨false, [], none, []⟩, []⟩)] []
    [plainStep "later" "wait" ["sooner"] [("duration_ms", .literal (.integer 5))],
      plainStep "sooner" "wait" [] [("duration_ms", .literal (.integer 5))],
      plainStep "copy" "copy_files" ["later"] [("source", .ref "inputs.folder"),
        ("dest", .literal (.string "/sdcard/games"))]]) [("games/folder", .string "/games")]

def copiedGames : CopyCommit.ExecutionCopyCommitSnapshot where
  stepId := "games/copy"
  operation := .addUpdate
  destinationKind := .sharedDevicePath
  sourcePath := "/games"
  sourceRoot := "/games"
  sourceManifest := [⟨"one.rom", .file, some "11", none⟩, ⟨"two.rom", .file, some "22", none⟩]
  sourceDigestSha256 := ""
  destinationIdentity := "/sdcard/games"
  fakeDeviceRoot := ""
  selectedRoot := "/sdcard/games"
  destinationBinding := none
  destinationBeforeManifest := [⟨"two.rom", .file, some "20", none⟩]
  destinationBeforeDigestSha256 := ""
  reviewedDeletionSet := []

def noPresentation : String → String → InputPresentation := fun _ _ => ⟨"", none, false, []⟩

def stepTitles : ReviewedPlan → ExecutionStep → String → ActionText := fun _ step _ => ⟨step.id, none⟩

def reviewedPlan : Except PlanningStop ReviewedPlan → Option ReviewedPlan
  | .ok plan => some plan
  | .error _ => none

theorem reviewedPlan_eq_some {result : Except PlanningStop ReviewedPlan} {plan : ReviewedPlan} :
    reviewedPlan result = some plan ↔ result = .ok plan := by
  cases result with
  | ok found => simp [reviewedPlan]
  | error stop => simp [reviewedPlan]

def laterFirstPlanning : Except PlanningStop ReviewedPlan :=
  reviewedPlanning noPresentation bareHost lenientChecks laterFirst (some ⟨"plan", none, none⟩) []
    ⟨false, false, false⟩

theorem exists_reviewedPlan {result : Except PlanningStop ReviewedPlan} {holds : ReviewedPlan → Bool}
    (planned : (reviewedPlan result).any holds = true) :
    ∃ plan, reviewedPlan result = some plan ∧ holds plan = true := by
  cases found : reviewedPlan result with
  | none =>
      rw [found] at planned
      exact nomatch planned
  | some plan =>
      rw [found] at planned
      exact ⟨plan, rfl, planned⟩

theorem reviewedPlanning_showsWork_sample : ∃ plan, reviewedPlan laterFirstPlanning = some plan ∧
    let plan := { plan with copyCommitSnapshots := [copiedGames] }
    (projectReview stepTitles plan).canExecute = true ∧
      (∃ step ∈ plan.execution.steps, step.typeName = "copy_files" ∧
        (projectAction stepTitles plan "copies" step).copyChanges =
          some ⟨"/sdcard/games", ["one.rom"], ["two.rom"], []⟩) ∧
      ShowsWork stepTitles (fun bytes => bytes) .ok (InPlanOrder plan) plan := by
  obtain ⟨plan, found, holds⟩ := @exists_reviewedPlan laterFirstPlanning
    (fun plan =>
      let plan := { plan with copyCommitSnapshots := [copiedGames] }
      (projectReview stepTitles plan).canExecute &&
        plan.execution.steps.any fun step => step.typeName = "copy_files" &&
          (projectAction stepTitles plan "copies" step).copyChanges =
            some ⟨"/sdcard/games", ["one.rom"], ["two.rom"], []⟩)
    (by decide +kernel)
  obtain ⟨executes, copies⟩ := Bool.and_eq_true_iff.mp holds
  obtain ⟨step, member, changes⟩ := List.any_eq_true.mp copies
  refine ⟨plan, found, executes, ⟨step, member, by simpa using changes⟩, ?_⟩
  exact reviewedPlanning_showsWork noPresentation bareHost lenientChecks laterFirst
    (some ⟨"plan", none, none⟩) [] ⟨false, false, false⟩ plan [copiedGames]
    (reviewedPlan_eq_some.mp found)

def shownTitles (plan : ReviewedPlan) : List (List (List String)) :=
  (projectReview stepTitles plan).features.map fun feature =>
    feature.sections.map fun shown => shown.actions.map fun action => action.text.title

theorem shownTitles_eq {plan : ReviewedPlan} {shown : List (List (List ExecutionStep))}
    (shows : List.Forall₂ (List.Forall₂ (Shows stepTitles plan))
      ((projectReview stepTitles plan).features.map (·.sections)) shown) :
    shownTitles plan = shown.map fun sections => sections.map fun steps =>
      steps.map ExecutionStep.id := by
  have inner : ∀ {sections : List ReviewSection} {shown : List (List ExecutionStep)},
      List.Forall₂ (Shows stepTitles plan) sections shown →
      (sections.map fun found => found.actions.map fun action => action.text.title) =
        shown.map fun steps => steps.map ExecutionStep.id := by
    intro sections shown shows
    induction shows with
    | nil => rfl
    | cons first _ ih =>
        rw [List.map_cons, List.map_cons, ih, first.actions, List.map_map]
        rfl
  rw [shownTitles]
  generalize (projectReview stepTitles plan).features = features at shows
  rw [List.forall₂_map_left_iff] at shows
  induction shows with
  | nil => rfl
  | cons first _ ih => rw [List.map_cons, List.map_cons, ih, inner first]

/-- The plan runs the step first that its Recipe lists last. -/
theorem not_showsWork_authoredOrder : ∃ plan, reviewedPlan laterFirstPlanning = some plan ∧
    ¬ ShowsWork stepTitles (fun bytes => bytes) .ok (InAuthoredOrder laterFirst.recipeMap) plan := by
  obtain ⟨plan, found, holds⟩ := @exists_reviewedPlan laterFirstPlanning
    (fun plan => (projectReview stepTitles plan).canExecute &&
      shownTitles plan = [[["games/sooner", "games/later"], ["games/copy"]]]) (by decide +kernel)
  obtain ⟨executes, titles⟩ := Bool.and_eq_true_iff.mp holds
  refine ⟨plan, found, fun shows => ?_⟩
  obtain ⟨shown, features, _, authored⟩ := shows.steps executes
  have ids := (shownTitles_eq features).symm.trans (of_decide_eq_true titles)
  obtain ⟨sections, rfl, sectionIds⟩ := List.map_eq_singleton_iff.mp ids
  obtain ⟨steps, others, rfl, stepIds, _⟩ := List.map_eq_cons_iff.mp sectionIds
  obtain ⟨recipeId, recipe, held, inOrder⟩ := authored steps (by simp)
  obtain ⟨other, listed, same⟩ := List.mem_map.mp (OrderedMap.mem_of_get?_ofList held)
  obtain rfl := List.mem_singleton.mp listed
  obtain ⟨rfl, rfl⟩ := Prod.mk.inj same
  rw [stepIds] at inOrder
  exact absurd inOrder (by decide)

end

end EmuChef.Review
