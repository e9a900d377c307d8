import EmuChef.CopyCommit.Adapter

/-! The mutations that a reviewed request asks for, and the traces that the mutation loops
can leave on a device that answers anything. -/

namespace EmuChef.CopyCommit

open Program

/-! Manifests that pass validation. -/

structure ValidManifest (manifest : List CopyManifestEntry) : Prop where
  unique : UniquePaths manifest
  canonical : ∀ entry ∈ manifest,
    checkedRelative (TextPath.components entry.relativePath) = .ok entry.relativePath
  digest : ∀ entry ∈ manifest, entry.kind = .file → entry.sha256.isSome

theorem validateEntry_ok {kinds next : Std.ExtTreeMap String CopyEntryKind}
    {entry : CopyManifestEntry} (valid : validateEntry kinds entry = .ok next) :
    checkedRelative (TextPath.components entry.relativePath) = .ok entry.relativePath ∧
      kinds[entry.relativePath]? = none ∧ next = kinds.insert entry.relativePath entry.kind ∧
      (entry.kind = .file → entry.sha256.isSome) := by
  obtain ⟨canonical, checked, valid⟩ := Checks.bind_eq_ok.mp valid
  obtain ⟨_, same, valid⟩ := Checks.bind_eq_ok.mp valid
  obtain ⟨_, absent, valid⟩ := Checks.bind_eq_ok.mp valid
  obtain ⟨_, digest, valid⟩ := Checks.bind_eq_ok.mp valid
  rw [Checks.require_eq_ok] at same absent
  refine ⟨same ▸ checked, absent, (Except.ok.inj valid).symm, fun isFile => ?_⟩
  cases found : entry.sha256 with
  | some value => rfl
  | none =>
      simp only [validateDigest, isFile, found] at digest
      exact nomatch digest

theorem validManifest_of_validateManifest {manifest : List CopyManifestEntry}
    (valid : validateManifest manifest = .ok ()) : ValidManifest manifest := by
  obtain ⟨kinds, folded, _⟩ := Checks.bind_eq_ok.mp valid
  let invariant (passed : List CopyManifestEntry)
      (kinds : Std.ExtTreeMap String CopyEntryKind) : Prop :=
    ValidManifest passed ∧ ∀ path ∈ manifestPaths passed, kinds[path]? ≠ none
  have advance : ∀ passed entry rest kinds next, manifest = passed ++ entry :: rest →
      invariant passed kinds → validateEntry kinds entry = .ok next →
      invariant (passed ++ [entry]) next := by
    rintro passed entry rest kinds next - ⟨held, known⟩ checked
    obtain ⟨canonical, fresh, rfl, digest⟩ := validateEntry_ok checked
    have notPassed : entry.relativePath ∉ manifestPaths passed :=
      fun inside => known _ inside fresh
    refine ⟨⟨?_, ?_, ?_⟩, ?_⟩
    · rw [UniquePaths, manifestPaths, List.map_append, List.nodup_append]
      refine ⟨held.unique, by simp, ?_⟩
      rintro left leftMem right rightMem rfl
      obtain rfl : left = entry.relativePath := by simpa using rightMem
      exact notPassed leftMem
    · intro other member
      rcases List.mem_append.mp member with before | here
      · exact held.canonical other before
      · exact List.mem_singleton.mp here ▸ canonical
    · intro other member
      rcases List.mem_append.mp member with before | here
      · exact held.digest other before
      · exact List.mem_singleton.mp here ▸ digest
    · intro path member
      rw [FileTree.getElem?_insert_eq]
      split
      next => simp
      next different =>
        refine known path ?_
        simpa [manifestPaths, different] using member
  have init : invariant [] ∅ := ⟨⟨List.nodup_nil, by simp, by simp⟩, by simp [manifestPaths]⟩
  exact (Checks.foldlM_invariant _ init advance folded).1

/-! The schedule of a reviewed request. -/

def Reviewed (request : CopyCommitRequest) : Prop :=
  (checkRequest request).isOk = true

instance (request : CopyCommitRequest) : Decidable (Reviewed request) :=
  inferInstanceAs (Decidable (_ = _))

structure ReviewedFacts (request : CopyCommitRequest) (binding : String) : Prop where
  bound : request.destinationBinding = some binding
  source : ValidManifest request.sourceManifest
  destination : ValidManifest request.destinationManifest
  deletions : reviewedDeletions request.operation request.sourceManifest
    request.destinationManifest = .ok request.reviewedDeletionSet

variable {request : CopyCommitRequest}

theorem reviewedFacts_of_checkRequest {binding : String}
    (checked : checkRequest request = .ok binding) : ReviewedFacts request binding := by
  obtain ⟨_, _, checked⟩ := Checks.bind_eq_ok.mp checked
  obtain ⟨_, source, checked⟩ := Checks.bind_eq_ok.mp checked
  obtain ⟨_, destination, checked⟩ := Checks.bind_eq_ok.mp checked
  obtain ⟨found, bound, checked⟩ := Checks.bind_eq_ok.mp checked
  obtain ⟨expected, deletions, checked⟩ := Checks.bind_eq_ok.mp checked
  obtain ⟨_, same, checked⟩ := Checks.bind_eq_ok.mp checked
  rw [Checks.require_eq_ok] at same
  obtain rfl := Except.ok.inj checked
  refine ⟨?_, validManifest_of_validateManifest source,
    validManifest_of_validateManifest destination, same ▸ deletions⟩
  unfold reviewedBindingOf at bound
  split at bound
  next binding isBound => rw [isBound, Except.ok.inj bound]
  next => exact nomatch bound

theorem Reviewed.facts (reviewed : Reviewed request) :
    ∃ binding, checkRequest request = .ok binding ∧ ReviewedFacts request binding := by
  cases checked : checkRequest request with
  | error stop => simp [Reviewed, checked, Except.isOk, Except.toBool] at reviewed
  | ok binding => exact ⟨binding, rfl, reviewedFacts_of_checkRequest checked⟩

def removal (entry : CopyManifestEntry) : CopyCommitMutation :=
  match entry.kind with
  | .file => .removeFile entry.relativePath
  | .directory => .removeDirectory entry.relativePath

def scheduledRemoval (request : CopyCommitRequest) (relativePath : String) :
    CopyCommitMutation :=
  ((findEntry request.destinationManifest relativePath).map removal).getD
    (.removeFile relativePath)

def removals (request : CopyCommitRequest) : List CopyCommitMutation :=
  (deletionOrder request).map (scheduledRemoval request)

def ensuring (entry : CopyManifestEntry) : CopyCommitMutation :=
  .ensureDirectory entry.relativePath

def publishing (entry : CopyManifestEntry) : CopyCommitMutation :=
  .publishFile entry.relativePath (entry.sha256.getD "")

def creations (request : CopyCommitRequest) : List CopyCommitMutation :=
  (entriesOfKind .directory request.sourceManifest).map ensuring ++
    (entriesOfKind .file request.sourceManifest).map publishing

def schedule (request : CopyCommitRequest) : List CopyCommitMutation :=
  removals request ++ creations request

def usable (request : CopyCommitRequest) (mutation : CopyCommitMutation) : Bool :=
  (mutationEntryPrecondition request.destinationManifest mutation.relativePath).isOk

def removedPath : CopyCommitMutation → Option String
  | .removeFile path | .removeDirectory path => some path
  | .ensureDirectory _ | .publishFile .. => none

def publishedPath : CopyCommitMutation → Option String
  | .publishFile path _ => some path
  | .removeFile _ | .removeDirectory _ | .ensureDirectory _ => none

def createdPath : CopyCommitMutation → Option String
  | .ensureDirectory path | .publishFile path _ => some path
  | .removeFile _ | .removeDirectory _ => none

def removedPaths (mutations : List CopyCommitMutation) : List String :=
  mutations.filterMap removedPath

def publishedPaths (mutations : List CopyCommitMutation) : List String :=
  mutations.filterMap publishedPath

def createdPaths (mutations : List CopyCommitMutation) : List String :=
  mutations.filterMap createdPath

theorem removedPath_removal (entry : CopyManifestEntry) :
    removedPath (removal entry) = some entry.relativePath := by
  unfold removal
  split <;> rfl

theorem createdPath_removal (entry : CopyManifestEntry) : createdPath (removal entry) = none := by
  unfold removal
  split <;> rfl

theorem removedPath_scheduledRemoval (request : CopyCommitRequest) (path : String) :
    removedPath (scheduledRemoval request path) = some path := by
  unfold scheduledRemoval
  cases found : findEntry request.destinationManifest path with
  | none => rfl
  | some entry => simp [removedPath_removal, findEntry_path found]

theorem createdPath_scheduledRemoval (request : CopyCommitRequest) (path : String) :
    createdPath (scheduledRemoval request path) = none := by
  unfold scheduledRemoval
  cases findEntry request.destinationManifest path with
  | none => rfl
  | some entry => exact createdPath_removal entry

theorem removedPaths_removals (request : CopyCommitRequest) :
    removedPaths (removals request) = deletionOrder request := by
  simp [removedPaths, removals, List.filterMap_map, removedPath_scheduledRemoval]

theorem createdPaths_removals (request : CopyCommitRequest) :
    createdPaths (removals request) = [] := by
  simp [createdPaths, removals, createdPath_scheduledRemoval]

theorem removedPaths_creations (request : CopyCommitRequest) :
    removedPaths (creations request) = [] := by
  simp [removedPaths, creations, removedPath, ensuring, publishing]

theorem createdPaths_creations (request : CopyCommitRequest) :
    createdPaths (creations request) =
      manifestPaths (entriesOfKind .directory request.sourceManifest) ++
        manifestPaths (entriesOfKind .file request.sourceManifest) := by
  simp [createdPaths, creations, createdPath, ensuring, publishing, manifestPaths,
    List.filterMap_map, Function.comp_def]

theorem nodup_schedule {binding : String} (facts : ReviewedFacts request binding) :
    (removedPaths (schedule request)).Nodup ∧ (createdPaths (schedule request)).Nodup := by
  have removed : removedPaths (schedule request) = deletionOrder request := by
    rw [schedule, removedPaths, List.filterMap_append, ← removedPaths, ← removedPaths,
      removedPaths_removals, removedPaths_creations, List.append_nil]
  have created : createdPaths (schedule request) = createdPaths (creations request) := by
    rw [schedule, createdPaths, List.filterMap_append, ← createdPaths, ← createdPaths,
      createdPaths_removals, List.nil_append]
  rw [removed, created, createdPaths_creations, (deletionOrder_perm request).nodup_iff]
  refine ⟨nodup_reviewedDeletions facts.destination.unique facts.deletions, ?_⟩
  have ofKind : ∀ kind, (manifestPaths (entriesOfKind kind request.sourceManifest)).Nodup :=
    fun kind => facts.source.unique.sublist (List.filter_sublist.map _)
  rw [List.nodup_append]
  refine ⟨ofKind .directory, ofKind .file, ?_⟩
  rintro path isDirectory other isFile rfl
  obtain ⟨directory, directoryMem, samePath⟩ := List.mem_map.mp isDirectory
  obtain ⟨file, fileMem, rfl⟩ := List.mem_map.mp isFile
  obtain ⟨directoryMem, directoryKind⟩ := List.mem_filter.mp directoryMem
  obtain ⟨fileMem, fileKind⟩ := List.mem_filter.mp fileMem
  obtain rfl := facts.source.unique.eq_of_path directoryMem fileMem samePath
  simp only [decide_eq_true_eq] at directoryKind fileKind
  simp [directoryKind] at fileKind

variable {passed : List CopyCommitMutation} {mutation : CopyCommitMutation}
  {events : List CommitEvent}

theorem removals_first {rest : List CopyCommitMutation}
    (split : schedule request = passed ++ mutation :: rest)
    (removes : (removedPath mutation).isSome) : createdPaths passed = [] := by
  rw [schedule, List.append_eq_append_iff] at split
  rcases split with ⟨middle, _, isCreations⟩ | ⟨middle, isRemovals, _⟩
  · have none := removedPaths_creations request
    rw [isCreations, removedPaths, List.filterMap_append, List.filterMap_cons] at none
    obtain ⟨path, found⟩ := Option.isSome_iff_exists.mp removes
    simp [found] at none
  · have none := createdPaths_removals request
    rw [isRemovals, createdPaths, List.filterMap_append, List.append_eq_nil_iff] at none
    exact none.1

theorem relativePath_of_removedPath {path : String} (removes : removedPath mutation = some path) :
    mutation.relativePath = path := by
  cases mutation <;> simp_all [removedPath, CopyCommitMutation.relativePath]

theorem removedPath_or_createdPath (mutation : CopyCommitMutation) :
    (removedPath mutation = some mutation.relativePath ∧ createdPath mutation = none) ∨
      (createdPath mutation = some mutation.relativePath ∧ removedPath mutation = none) := by
  cases mutation <;> simp [removedPath, createdPath, CopyCommitMutation.relativePath]

theorem fresh_of_schedule {binding : String}
    (facts : ReviewedFacts request binding) {rest : List CopyCommitMutation}
    (split : schedule request = passed ++ mutation :: rest) :
    mutation.relativePath ∉ createdPaths passed ∧
      ((removedPath mutation).isSome → mutation.relativePath ∉ removedPaths passed) := by
  obtain ⟨removedOnce, createdOnce⟩ := nodup_schedule facts
  rcases removedPath_or_createdPath mutation with ⟨removes, _⟩ | ⟨creates, keeps⟩
  · rw [removals_first split (by simp [removes])]
    refine ⟨by simp, fun _ inside => ?_⟩
    rw [split, removedPaths, List.filterMap_append, List.filterMap_cons_some removes,
      List.nodup_append] at removedOnce
    exact removedOnce.2.2 _ inside _ (by simp) rfl
  · refine ⟨fun inside => ?_, by simp [keeps]⟩
    rw [split, createdPaths, List.filterMap_append, List.filterMap_cons_some creates,
      List.nodup_append] at createdOnce
    exact createdOnce.2.2 _ inside _ (by simp) rfl

/-! Traces of the mutation loops. -/

def issued (events : List CommitEvent) : List (CopyCommitMutation × Bool) :=
  events.filterMap fun
    | ⟨.applySelectedRootMutation _ _ _ _ _ mutation, response⟩ =>
        let answer : Except DeviceOperationError Unit := response
        some (mutation, answer.isOk)
    | _ => none

def applied (events : List CommitEvent) : List CopyCommitMutation :=
  ((issued events).filter Prod.snd).map Prod.fst

theorem issued_append (before after : List CommitEvent) :
    issued (before ++ after) = issued before ++ issued after :=
  List.filterMap_append

theorem applied_of_issued (all : issued events = passed.map fun mutation => (mutation, true)) :
    applied events = passed := by
  simp [applied, all, List.filter_map, Function.comp_def]

theorem applied_of_refused {refused : CopyCommitMutation}
    (all : issued events = (passed.map fun mutation => (mutation, true)) ++ [(refused, false)]) :
    applied events = passed := by
  simp [applied, all, List.filter_map, Function.comp_def]

def record (mutation : CopyCommitMutation) (state : MutationState) : MutationState :=
  { state with
    deletedPaths := state.deletedPaths ++ (removedPath mutation).toList
    copiedPaths := state.copiedPaths ++ (publishedPath mutation).toList }

def isMutation : CommitOp → Prop
  | .applySelectedRootMutation .. => True
  | _ => False

def isObservation : CommitOp → Prop
  | .inspectTree _ | .pathBinding _ => True
  | _ => False

abbrev Quiet {α : Type} (program : CommitProgram α) : Prop :=
  Program.Only (fun operation => ¬isMutation operation) program

theorem issued_eq_nil (quiet : ∀ event ∈ events, ¬isMutation event.operation) :
    issued events = [] := by
  rw [issued, List.filterMap_eq_nil_iff]
  intro event member
  have silent := quiet event member
  split
  next => exact absurd trivial silent
  next => rfl

theorem Quiet.issued {α : Type} {program : CommitProgram α} {result : α} (quiet : Quiet program)
    (ran : Runs program events result) :
    issued events = [] :=
  issued_eq_nil (quiet.events ran)

theorem not_isMutation_of_isObservation (operation : CommitOp)
    (reads : isObservation operation) : ¬isMutation operation := by
  cases operation <;> first | exact id | exact reads.elim

structure FailureReport (deletedPaths copiedPaths : List String) (report : CopyCommitReport) :
    Prop where
  deleted : report.deletedPaths = deletedPaths
  copied : report.copiedPaths = copiedPaths
  failed : report.succeeded = false
  unverified : report.outcome ≠ .succeeded

section

variable {sha256 : List UInt8 → List UInt8} {context : MutationContext}

def applyScheduled (sha256 : List UInt8 → List UInt8) (context : MutationContext)
    (state : MutationState) (mutation : CopyCommitMutation) : MutationAttempt MutationState := do
  let next ← applyMutation sha256 context state mutation
  pure (record mutation next)

variable {state : MutationState} {entry : CopyManifestEntry} {binding : String}
  {result : Except CommitExit MutationState} {rest : List CopyCommitMutation}

theorem deleteReviewed_eq {path : String}
    (found : findEntry context.request.destinationManifest path = some entry) :
    deleteReviewed sha256 context state path =
      applyScheduled sha256 context state (scheduledRemoval context.request path) := by
  obtain rfl := findEntry_path found
  simp only [deleteReviewed, applyScheduled, scheduledRemoval, found, Option.map_some,
    Option.getD_some, removal]
  cases entry.kind <;> simp [record, removedPath, publishedPath]

theorem ensureReviewed_eq :
    ensureReviewed sha256 context state entry =
      applyScheduled sha256 context state (ensuring entry) := by
  simp [ensureReviewed, applyScheduled, ensuring, record, removedPath, publishedPath]

theorem publishReviewed_eq (digest : entry.sha256.isSome) :
    publishReviewed sha256 context state entry =
      applyScheduled sha256 context state (publishing entry) := by
  obtain ⟨value, found⟩ := Option.isSome_iff_exists.mp digest
  simp [publishReviewed, applyScheduled, publishing, found, record, removedPath, publishedPath]

theorem foldlM_congr_mem {m : Type → Type} [Monad m] {α β : Type} {items : List α}
    {first second : β → α → m β} {init : β}
    (same : ∀ item ∈ items, ∀ state, first state item = second state item) :
    items.foldlM first init = items.foldlM second init := by
  induction items generalizing init with
  | nil => rfl
  | cons item rest ih =>
      rw [List.foldlM_cons, List.foldlM_cons, same item (by simp)]
      exact congrArg _ (funext fun _ => ih fun other member => same other (by simp [member]))

theorem mutateSelectedRoot_eq (facts : ReviewedFacts context.request binding) :
    mutateSelectedRoot sha256 context =
      (removals context.request).foldlM (applyScheduled sha256 context)
        ⟨[], [], context.request.destinationManifest⟩ >>= fun removed =>
      (creations context.request).foldlM (applyScheduled sha256 context) (sortPaths removed) >>=
        fun created => pure (sortPaths created) := by
  have listed : ∀ path ∈ deletionOrder context.request,
      ∃ entry, findEntry context.request.destinationManifest path = some entry := by
    intro path member
    rw [(deletionOrder_perm context.request).mem_iff, (reviewedDeletions_eq_ok facts.deletions).1,
      List.mem_insertionSort, List.mem_map] at member
    obtain ⟨entry, kept, rfl⟩ := member
    exact ⟨entry, (findEntry_eq_some facts.destination.unique).mpr
      ⟨(List.mem_filter.mp kept).1, rfl⟩⟩
  have deletions : ∀ init, (deletionOrder context.request).foldlM (deleteReviewed sha256 context)
      init = (removals context.request).foldlM (applyScheduled sha256 context) init := by
    intro init
    rw [removals, List.foldlM_map]
    refine foldlM_congr_mem fun path member state => ?_
    obtain ⟨entry, found⟩ := listed path member
    exact deleteReviewed_eq found
  have directories : ∀ init, (entriesOfKind .directory context.request.sourceManifest).foldlM
      (ensureReviewed sha256 context) init =
      ((entriesOfKind .directory context.request.sourceManifest).map ensuring).foldlM
        (applyScheduled sha256 context) init := by
    intro init
    rw [List.foldlM_map]
    exact foldlM_congr_mem fun _ _ _ => ensureReviewed_eq
  have files : ∀ init, (entriesOfKind .file context.request.sourceManifest).foldlM
      (publishReviewed sha256 context) init =
      ((entriesOfKind .file context.request.sourceManifest).map publishing).foldlM
        (applyScheduled sha256 context) init := by
    intro init
    rw [List.foldlM_map]
    refine foldlM_congr_mem fun entry member state => publishReviewed_eq ?_
    obtain ⟨inSource, isFile⟩ := List.mem_filter.mp member
    exact facts.source.digest entry inSource (by simpa using isFile)
  simp only [mutateSelectedRoot, deletions, directories, files, creations, List.foldlM_append,
    bind_assoc]

theorem only_bindingVerification (request : CopyCommitRequest) :
    Program.Only isObservation (bindingVerification request) := by
  unfold bindingVerification
  split
  next => trivial
  next =>
    refine Program.only_bind (Program.only_request.mpr trivial) fun answer => ?_
    cases answer <;> trivial

theorem only_observeAfter (request : CopyCommitRequest) (copied deleted : List String)
    (verified : Bool) (failure : CopyCommitAttemptFailure) :
    Program.Only isObservation
      (observeAfter sha256 request copied deleted verified failure) := by
  refine Program.only_bind (only_bindingVerification request) fun binding => ?_
  refine Program.only_bind (Program.only_request.mpr trivial) fun inspected => ?_
  cases inspected <;> trivial

theorem quiet_observeAfter (request : CopyCommitRequest) (copied deleted : List String)
    (verified : Bool) (failure : CopyCommitAttemptFailure) :
    Quiet (observeAfter sha256 request copied deleted verified failure) :=
  (only_observeAfter request copied deleted verified failure).mono
    not_isMutation_of_isObservation

theorem observeAfter_report {copied deleted : List String}
    {verified : Bool} {failure : CopyCommitAttemptFailure} {report : CopyCommitReport}
    (ran : Runs (observeAfter sha256 request copied deleted verified failure) events report) :
    FailureReport deleted copied report := by
  obtain ⟨binding, _, _, _, bound, rfl⟩ := runs_bind.mp ran
  obtain ⟨inspected, _, _, _, last, rfl⟩ := runs_bind.mp bound
  cases inspected with
  | error failure =>
      obtain ⟨rfl, rfl⟩ := Program.runs_pure.mp last
      exact ⟨rfl, rfl, rfl, by simp⟩
  | ok manifest =>
      obtain ⟨rfl, rfl⟩ := Program.runs_pure.mp last
      refine ⟨rfl, rfl, rfl, ?_⟩
      change (if binding.1 = true then CopyCommitOutcome.partly else .uncertain) ≠ .succeeded
      split <;> simp

theorem reportFailure_attempts {α : Type} {failure : CopyCommitAttemptFailure}
    {result : Except CommitExit α}
    (ran : Attempts (reportFailure sha256 context state failure) events result) :
    issued events = [] ∧ ∃ report, result = .error (.reported report) ∧
      FailureReport state.deletedPaths state.copiedPaths report := by
  rcases attempts_bind.mp ran with ⟨stop, lifted, rfl⟩ | ⟨report, before, after, lifted, last, rfl⟩
  · obtain ⟨_, _, impossible⟩ := Program.attempts_lift.mp lifted
    exact nomatch impossible
  · obtain ⟨_, observed, same⟩ := Program.attempts_lift.mp lifted
    obtain rfl := Except.ok.inj same
    obtain ⟨rfl, rfl⟩ := Program.attempts_throw.mp last
    rw [List.append_nil]
    exact ⟨Quiet.issued (quiet_observeAfter ..) observed, _, rfl, observeAfter_report observed⟩

theorem orReported_attempts {α : Type} {message : DeviceOperationError → String}
    {answer : CommitProgram (Except DeviceOperationError α)} {result : Except CommitExit α}
    (ran : Attempts (orReported sha256 context state message answer) events result) :
    (∃ value, Runs answer events (.ok value) ∧ result = .ok value) ∨
    ∃ error before after report, Runs answer before (.error error) ∧ issued after = [] ∧
      events = before ++ after ∧ result = .error (.reported report) ∧
      FailureReport state.deletedPaths state.copiedPaths report := by
  rcases attempts_bind.mp ran with ⟨stop, lifted, rfl⟩ | ⟨answered, before, after, lifted, last, rfl⟩
  · obtain ⟨_, _, impossible⟩ := Program.attempts_lift.mp lifted
    exact nomatch impossible
  · obtain ⟨_, answers, same⟩ := Program.attempts_lift.mp lifted
    obtain rfl := Except.ok.inj same
    cases answered with
    | ok value =>
        obtain ⟨rfl, rfl⟩ := Program.attempts_pure.mp last
        exact .inl ⟨value, by simpa using answers, rfl⟩
    | error error =>
        obtain ⟨silent, report, stopped, failed⟩ := reportFailure_attempts last
        exact .inr ⟨error, before, after, report, answers, silent, rfl, stopped, failed⟩

theorem orFailed_bind_attempts {α β : Type} {checked : Except CopyCommitError α}
    {next : α → MutationAttempt β} {result : Except CommitExit β}
    (ran : Attempts (orFailed checked >>= next) events result) :
    (∃ error, checked = .error error ∧ events = [] ∧ result = .error (.failed error)) ∨
    ∃ value, checked = .ok value ∧ Attempts (next value) events result := by
  rcases Program.attempts_check_bind.mp ran with ⟨stop, stopped, rfl, rfl⟩ | ⟨value, passed, rest⟩
  · cases checked with
    | error error =>
        obtain rfl := Except.error.inj stopped
        exact .inl ⟨error, rfl, rfl, rfl⟩
    | ok value => exact nomatch stopped
  · cases checked with
    | error error => exact nomatch passed
    | ok found =>
        obtain rfl := Except.ok.inj passed
        exact .inr ⟨found, rfl, rest⟩

theorem orReported_bind_attempts {α β : Type} {message : DeviceOperationError → String}
    {answer : CommitProgram (Except DeviceOperationError α)} {next : α → MutationAttempt β}
    {result : Except CommitExit β}
    (ran : Attempts (orReported sha256 context state message answer >>= next) events result) :
    (∃ value before after, Runs answer before (.ok value) ∧
      Attempts (next value) after result ∧ events = before ++ after) ∨
    ∃ error before after report, Runs answer before (.error error) ∧ issued after = [] ∧
      events = before ++ after ∧ result = .error (.reported report) ∧
      FailureReport state.deletedPaths state.copiedPaths report := by
  rcases attempts_bind.mp ran with ⟨stop, stopped, rfl⟩ | ⟨value, before, after, first, last, rfl⟩
  · rcases orReported_attempts stopped with ⟨_, _, impossible⟩ |
      ⟨error, before, after, report, answered, silent, split, same, failed⟩
    · exact nomatch impossible
    · exact .inr ⟨error, before, after, report, answered, silent, split,
        congrArg _ (Except.error.inj same), failed⟩
  · rcases orReported_attempts first with ⟨_, answered, same⟩ | ⟨_, _, _, _, _, _, _, impossible, _⟩
    · obtain rfl := Except.ok.inj same
      exact .inl ⟨value, before, after, answered, last, rfl⟩
    · exact nomatch impossible

theorem applyScheduled_attempts {manifest : List CopyManifestEntry}
    (simulated : applyManifestMutation state.currentManifest context.request.sourceManifest
      mutation = .ok manifest)
    (ran : Attempts (applyScheduled sha256 context state mutation) events result) :
    let expected := mutationEntryPrecondition state.currentManifest mutation.relativePath
    (expected.isOk = false ∧ issued events = [] ∧ ∃ error, result = .error (.failed error)) ∨
    (expected.isOk = true ∧ issued events = [(mutation, false)] ∧ ∃ report,
      result = .error (.reported report) ∧
        FailureReport state.deletedPaths state.copiedPaths report) ∨
    (expected.isOk = true ∧ issued events = [(mutation, true)] ∧
      result = .ok (record mutation { state with currentManifest := manifest })) := by
  intro expected
  simp only [applyScheduled, applyMutation, bind_assoc] at ran
  rcases orFailed_bind_attempts ran with ⟨error, found, rfl, rfl⟩ | ⟨entry, found, called⟩
  · exact .inl ⟨by simp [expected, found, Except.isOk, Except.toBool], rfl, error, rfl⟩
  · have good : expected.isOk = true := by simp [expected, found, Except.isOk, Except.toBool]
    rcases orReported_bind_attempts called with ⟨_, before, after, answered, rest, rfl⟩ |
      ⟨error, before, after, report, answered, silent, rfl, stopped, failed⟩
    · obtain rfl := Program.runs_request.mp answered
      rcases orFailed_bind_attempts rest with ⟨error, refused, _⟩ | ⟨next, made, done⟩
      · exact nomatch simulated.symm.trans refused
      · obtain rfl := Except.ok.inj (simulated.symm.trans made)
        obtain ⟨rfl, rfl⟩ := Program.attempts_pure.mp done
        exact .inr (.inr ⟨good, rfl, rfl⟩)
    · obtain rfl := Program.runs_request.mp answered
      refine .inr (.inl ⟨good, ?_, report, stopped, failed⟩)
      rw [issued_append, silent]
      rfl

structure Progress (request : CopyCommitRequest) (passed : List CopyCommitMutation)
    (state : MutationState) (events : List CommitEvent) : Prop where
  issued : issued events = passed.map fun mutation => (mutation, true)
  usable : ∀ mutation ∈ passed, usable request mutation = true
  deleted : state.deletedPaths.Perm (removedPaths passed)
  copied : state.copiedPaths.Perm (publishedPaths passed)
  unique : UniquePaths state.currentManifest
  found : ∀ path, path ∉ createdPaths passed → findEntry state.currentManifest path =
    if path ∈ removedPaths passed then none else findEntry request.destinationManifest path

theorem progress_start (facts : ReviewedFacts request binding) :
    Progress request [] ⟨[], [], request.destinationManifest⟩ [] :=
  ⟨rfl, by simp, .refl _, .refl _, facts.destination.unique, by simp [removedPaths]⟩

theorem Progress.sorted (progress : Progress request passed state events) :
    Progress request passed (sortPaths state) events :=
  { progress with
    deleted := (List.perm_insertionSort _ _).trans progress.deleted
    copied := (List.perm_insertionSort _ _).trans progress.copied }

theorem mutationEntryPrecondition_congr {left right : List CopyManifestEntry} {path : String}
    (same : findEntry left path = findEntry right path) :
    mutationEntryPrecondition left path = mutationEntryPrecondition right path := by
  unfold mutationEntryPrecondition
  rw [same]

theorem Progress.precondition (facts : ReviewedFacts context.request binding)
    (split : schedule context.request = passed ++ mutation :: rest)
    (progress : Progress context.request passed state events) :
    (mutationEntryPrecondition state.currentManifest mutation.relativePath).isOk =
      CopyCommit.usable context.request mutation := by
  have lookup := progress.found mutation.relativePath (fresh_of_schedule facts split).1
  split at lookup
  next removed =>
    obtain ⟨earlier, member, removes⟩ := List.mem_filterMap.mp removed
    have here : mutationEntryPrecondition state.currentManifest mutation.relativePath =
        .ok "absent" := by
      unfold mutationEntryPrecondition
      rw [lookup]
    have before := progress.usable earlier member
    rw [CopyCommit.usable, relativePath_of_removedPath removes] at before
    rw [here, CopyCommit.usable, before]
    rfl
  next => rw [CopyCommit.usable, mutationEntryPrecondition_congr lookup]

theorem simulated_of_schedule (facts : ReviewedFacts context.request binding)
    (split : schedule context.request = passed ++ mutation :: rest)
    (manifest : List CopyManifestEntry) : ∃ next, applyManifestMutation manifest
      context.request.sourceManifest mutation = .ok next := by
  cases mutation with
  | ensureDirectory path =>
      simp only [applyManifestMutation]
      split <;> exact ⟨_, rfl⟩
  | removeFile path => exact ⟨_, rfl⟩
  | removeDirectory path => exact ⟨_, rfl⟩
  | publishFile path digest =>
      have created : path ∈ createdPaths (schedule context.request) := by
        rw [split, createdPaths, List.filterMap_append]
        simp [createdPath]
      rw [schedule, createdPaths, List.filterMap_append, ← createdPaths, ← createdPaths,
        createdPaths_removals, List.nil_append, createdPaths_creations] at created
      obtain ⟨entry, found⟩ : ∃ entry, findEntry context.request.sourceManifest path =
          some entry := by
        have listed : ∀ kind, path ∈
            manifestPaths (entriesOfKind kind context.request.sourceManifest) →
            ∃ entry, findEntry context.request.sourceManifest path = some entry := by
          intro kind member
          obtain ⟨entry, kept, rfl⟩ := List.mem_map.mp member
          exact ⟨entry, (findEntry_eq_some facts.source.unique).mpr
            ⟨(List.mem_filter.mp kept).1, rfl⟩⟩
        exact (List.mem_append.mp created).elim (listed _) (listed _)
      exact ⟨_, by simp only [applyManifestMutation, found]; rfl⟩

/-- One scheduled mutation that succeeds moves the progress on by it. -/
theorem Progress.advance {more : List CommitEvent} {next : MutationState}
    (facts : ReviewedFacts context.request binding)
    (split : schedule context.request = passed ++ mutation :: rest)
    (progress : Progress context.request passed state events)
    (ran : Attempts (applyScheduled sha256 context state mutation) more (.ok next)) :
    Progress context.request (passed ++ [mutation]) next (events ++ more) := by
  obtain ⟨manifest, simulated⟩ :=
    simulated_of_schedule facts split state.currentManifest
  have expected := progress.precondition facts split
  rcases applyScheduled_attempts simulated ran with ⟨_, _, _, impossible⟩ |
    ⟨_, _, _, impossible, _⟩ | ⟨good, one, same⟩
  · exact nomatch impossible
  · exact nomatch impossible
  · obtain rfl := Except.ok.inj same
    have elsewhere := applyManifestMutation_ok progress.unique simulated
    refine ⟨?_, ?_, ?_, ?_, elsewhere.1, ?_⟩
    · rw [issued_append, progress.issued, one, List.map_append]
      rfl
    · intro other member
      rcases List.mem_append.mp member with before | here
      · exact progress.usable other before
      · rw [List.mem_singleton.mp here, ← expected, good]
    · rw [removedPaths, List.filterMap_append]
      refine progress.deleted.append ?_
      cases mutation <;> exact .refl _
    · rw [publishedPaths, List.filterMap_append]
      refine progress.copied.append ?_
      cases mutation <;> exact .refl _
    · intro path untouched
      rw [createdPaths, List.filterMap_append, List.mem_append, not_or] at untouched
      have before := progress.found path untouched.1
      have appended : path ∈ removedPaths (passed ++ [mutation]) ↔
          path ∈ removedPaths passed ∨ removedPath mutation = some path := by
        simp [removedPaths]
      change findEntry manifest path = _
      by_cases here : path = mutation.relativePath
      · rcases removedPath_or_createdPath mutation with ⟨removes, _⟩ | ⟨creates, _⟩
        · rw [if_pos (appended.mpr (.inr (here ▸ removes)))]
          have dropped : manifest = replaceEntry state.currentManifest path none := by
            cases mutation with
            | removeFile _ => exact here ▸ (Except.ok.inj simulated).symm
            | removeDirectory _ => exact here ▸ (Except.ok.inj simulated).symm
            | ensureDirectory _ => simp [removedPath] at removes
            | publishFile _ _ => simp [removedPath] at removes
          rw [dropped, findEntry_replaceEntry progress.unique (by simp), if_pos rfl]
        · exact absurd (by simp [creates, here]) untouched.2
      · have kept : removedPath mutation ≠ some path :=
          fun removes => here (relativePath_of_removedPath removes).symm
        rw [elsewhere.2 path here, before]
        exact if_congr (by simp [appended, kept]) rfl rfl

/-- How the mutation loops end early: at a mutation without a usable reviewed entry, which
is not issued, or at one that the device refused, which is reported. -/
inductive StoppedAt (request : CopyCommitRequest) (events : List CommitEvent)
    (passed : List CopyCommitMutation) (mutation : CopyCommitMutation) : CommitExit → Prop
  | unusable (error : CopyCommitError) :
      usable request mutation = false →
      issued events = (passed.map fun mutation => (mutation, true)) →
      StoppedAt request events passed mutation (.failed error)
  | refused (report : CopyCommitReport) (deletedPaths copiedPaths : List String) :
      usable request mutation = true →
      issued events = (passed.map fun mutation => (mutation, true)) ++ [(mutation, false)] →
      deletedPaths.Perm (removedPaths passed) → copiedPaths.Perm (publishedPaths passed) →
      FailureReport deletedPaths copiedPaths report →
      StoppedAt request events passed mutation (.reported report)

def Stopped (request : CopyCommitRequest) (events : List CommitEvent) (stop : CommitExit) :
    Prop :=
  ∃ passed mutation rest, schedule request = passed ++ mutation :: rest ∧
    (∀ earlier ∈ passed, usable request earlier = true) ∧
    StoppedAt request events passed mutation stop

theorem applyScheduled_loop (facts : ReviewedFacts context.request binding)
    {earlier part later : List CopyCommitMutation}
    (split : schedule context.request = earlier ++ part ++ later) {seen : List CommitEvent}
    (progress : Progress context.request earlier state seen)
    (ran : Attempts (part.foldlM (applyScheduled sha256 context) state) events result) :
    (∃ final, result = .ok final ∧
      Progress context.request (earlier ++ part) final (seen ++ events)) ∨
    ∃ stop, result = .error stop ∧ Stopped context.request (seen ++ events) stop := by
  let invariant (passed : List CopyCommitMutation) (state : MutationState)
      (more : List CommitEvent) : Prop :=
    Progress context.request (earlier ++ passed) state (seen ++ more)
  have start : invariant [] state [] := by simpa [invariant] using progress
  have splitAt : ∀ {passed mutation rest}, part = passed ++ mutation :: rest →
      schedule context.request = (earlier ++ passed) ++ mutation :: (rest ++ later) := by
    rintro passed mutation rest rfl
    simp [split]
  have advance : ∀ passed mutation rest state more, part = passed ++ mutation :: rest →
      invariant passed state more → ∀ last next,
        Attempts (applyScheduled sha256 context state mutation) last (.ok next) →
        invariant (passed ++ [mutation]) next (more ++ last) := by
    intro passed mutation rest state more isPart held last next stepped
    simpa [invariant] using Progress.advance facts (splitAt isPart) held stepped
  rcases Program.attempts_foldlM _ start advance ran with ⟨final, rfl, held⟩ |
    ⟨passed, mutation, rest, state, more, last, stop, isPart, held, stepped, rfl, rfl⟩
  · exact .inl ⟨final, rfl, held⟩
  · refine .inr ⟨stop, rfl, earlier ++ passed, mutation, rest ++ later, splitAt isPart,
      held.usable, ?_⟩
    obtain ⟨manifest, simulated⟩ :=
      simulated_of_schedule facts (splitAt isPart) state.currentManifest
    have expected := held.precondition facts (splitAt isPart)
    rw [← List.append_assoc]
    rcases applyScheduled_attempts simulated stepped with ⟨bad, silent, error, same⟩ |
      ⟨good, one, report, same, failed⟩ | ⟨_, _, impossible⟩
    · rw [Except.error.inj same]
      refine .unusable error (expected ▸ bad) ?_
      rw [issued_append, silent, held.issued, List.append_nil]
    · rw [Except.error.inj same]
      refine .refused report _ _ (expected ▸ good) ?_ held.deleted held.copied failed
      rw [issued_append, one, held.issued]
    · exact nomatch impossible

theorem mutateSelectedRoot_attempts (facts : ReviewedFacts context.request binding)
    (ran : Attempts (mutateSelectedRoot sha256 context) events result) :
    (∃ final, result = .ok final ∧
      Progress context.request (schedule context.request) final events) ∨
    ∃ stop, result = .error stop ∧ Stopped context.request events stop := by
  rw [mutateSelectedRoot_eq facts] at ran
  have whole : schedule context.request =
      [] ++ removals context.request ++ creations context.request := rfl
  rcases attempts_bind.mp ran with ⟨stop, stopped, rfl⟩ | ⟨removed, first, _, removing, more, rfl⟩
  · rcases applyScheduled_loop facts whole (progress_start facts) stopped with
      ⟨_, impossible, _⟩ | ⟨stop, same, held⟩
    · exact nomatch impossible
    · exact .inr ⟨stop, congrArg _ (Except.error.inj same), by simpa using held⟩
  rcases applyScheduled_loop facts whole (progress_start facts) removing with
    ⟨_, same, progress⟩ | ⟨_, impossible, _⟩
  case inr => exact nomatch impossible
  obtain rfl := Except.ok.inj same
  have rest : schedule context.request =
      ([] ++ removals context.request) ++ creations context.request ++ [] := by
    simp [schedule]
  rcases attempts_bind.mp more with ⟨stop, stopped, rfl⟩ | ⟨created, _, _, creating, done, rfl⟩
  · rcases applyScheduled_loop facts rest progress.sorted stopped with
      ⟨_, impossible, _⟩ | ⟨stop, same, held⟩
    · exact nomatch impossible
    · exact .inr ⟨stop, congrArg _ (Except.error.inj same), by simpa using held⟩
  · rcases applyScheduled_loop facts rest progress.sorted creating with
      ⟨_, same, progress⟩ | ⟨_, impossible, _⟩
    case inr => exact nomatch impossible
    obtain rfl := Except.ok.inj same
    obtain ⟨rfl, rfl⟩ := Program.attempts_pure.mp done
    exact .inl ⟨_, rfl, by simpa [schedule] using progress.sorted⟩

end

end EmuChef.CopyCommit
