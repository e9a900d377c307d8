import EmuChef.CopyCommit.Schedule

/-! What a commit issues and reports on a device that may answer anything. -/

namespace EmuChef.CopyCommit

open Program

def isStaging : CommitOp → Prop
  | .createDirectory _ | .mkdirP _ | .pushFile _ _ | .stageReviewedSourceFile .. => True
  | _ => False

def isCleanup : CommitOp → Prop
  | .inspectTree _ | .pathBinding _ | .removeFile _ | .removeEmptyDirectory _
  | .cleanupMutationHelper _ => True
  | _ => False

def isMutationOrObservation (operation : CommitOp) : Prop :=
  isMutation operation ∨ isObservation operation

theorem not_isMutation_of_isCleanup (operation : CommitOp) (cleans : isCleanup operation) :
    ¬isMutation operation := by
  cases operation <;> first | exact id | exact cleans.elim

theorem not_isStaging_of_isCleanup (operation : CommitOp) (cleans : isCleanup operation) :
    ¬isStaging operation := by
  cases operation <;> first | exact id | exact cleans.elim

theorem not_isStaging_of_mutation (operation : CommitOp)
    (mutates : isMutationOrObservation operation) : ¬isStaging operation := by
  cases operation <;> first | exact id | exact (mutates.elim id id).elim

theorem isCleanup_of_isObservation (operation : CommitOp) (reads : isObservation operation) :
    isCleanup operation := by
  cases operation <;> first | exact trivial | exact reads.elim

/-! Device and host calls. -/

section

variable {α : Type} {allowed : CommitOp → Prop}
  {answer : CommitProgram (Except DeviceOperationError α)}

theorem only_deviceCall (only : Only allowed answer) : Only allowed (deviceCall answer).run := by
  refine only_bind only fun response => ?_
  cases response <;> trivial

variable {events : List CommitEvent}

theorem deviceCall_ok {value : α}
    (ran : Attempts (deviceCall answer) events (.ok value)) : Runs answer events (.ok value) := by
  obtain ⟨response, before, after, answered, last, rfl⟩ := runs_bind.mp ran
  cases response with
  | error error => exact nomatch (Program.runs_pure.mp last).2
  | ok found =>
      obtain ⟨rfl, same⟩ := Program.runs_pure.mp last
      rw [Except.ok.inj same, List.append_nil]
      exact answered

theorem deviceCall_attempts {value : α} (answered : Runs answer events (.ok value)) :
    Attempts (deviceCall answer) events (.ok value) := by
  refine runs_bind.mpr ⟨.ok value, events, [], answered, Program.runs_pure.mpr ⟨rfl, rfl⟩, ?_⟩
  rw [List.append_nil]

theorem reaches_deviceCall (value : α) (answered : Runs answer events (.ok value)) :
    Program.Reaches (deviceCall answer) value :=
  ⟨events, deviceCall_attempts answered⟩

theorem reaches_hostCall {answer : CommitProgram (Except CopyCommitError α)} (value : α)
    (answered : Runs answer events (.ok value)) :
    Program.Reaches (hostCall answer) value :=
  ⟨events, answered⟩

end

variable {events : List CommitEvent}

theorem runs_issue {operation : CommitOp} {response : operation.Response} :
    Runs (issue operation) events response ↔ events = [⟨operation, response⟩] :=
  Program.runs_request

/-! The parts of a commit outside the mutation loops. -/

theorem quiet_prepareStage (stageRoot : String) (request : CopyCommitRequest) :
    Quiet (prepareStage stageRoot request).run := by
  refine only_attempt_bind trivial fun binding => ?_
  refine only_attempt_bind (only_deviceCall (Program.only_request.mpr id)) fun _ => ?_
  refine only_attempt_bind trivial fun _ => ?_
  refine only_attempt_bind (only_deviceCall (Program.only_request.mpr id)) fun _ => ?_
  refine only_attempt_bind trivial fun _ => ?_
  refine only_attempt_bind (Program.only_request.mpr id) fun _ => ?_
  refine only_attempt_bind (Program.only_request.mpr id) fun _ => ?_
  refine only_attempt_bind trivial fun _ => ?_
  refine only_attempt_bind (only_deviceCall (Program.only_request.mpr id)) fun _ => ?_
  refine only_attempt_bind trivial fun actions => ?_
  refine only_attempt_bind trivial fun _ => ?_
  exact only_attempt_bind (only_deviceCall (Program.only_request.mpr id)) fun _ => trivial

theorem quiet_runStageAction (action : AndroidStageAction) : Quiet (runStageAction action).run := by
  cases action with
  | createDirectory path => exact only_deviceCall (Program.only_request.mpr id)
  | pushFile relativePath digest destination =>
      exact only_attempt_bind (Program.only_request.mpr id)
        fun _ => only_deviceCall (Program.only_request.mpr id)

theorem quiet_recheckReviewed (reviewedBinding : String) (request : CopyCommitRequest) :
    Quiet (recheckReviewed reviewedBinding request).run := by
  refine only_attempt_bind (Program.only_request.mpr id) fun _ => ?_
  refine only_attempt_bind trivial fun _ => ?_
  refine only_attempt_bind (only_deviceCall (Program.only_request.mpr id)) fun _ => ?_
  refine only_attempt_bind trivial fun _ => ?_
  exact only_attempt_bind (only_deviceCall (Program.only_request.mpr id)) fun _ => trivial

theorem quiet_stageReviewedTree (stageRoot reviewedBinding : String)
    (actions : List AndroidStageAction) (request : CopyCommitRequest) :
    Quiet (stageReviewedTree stageRoot reviewedBinding actions request).run := by
  refine only_attempt_bind
    (Program.only_attempt_forM fun action _ => quiet_runStageAction action) fun _ => ?_
  refine only_attempt_bind (only_deviceCall (Program.only_request.mpr id)) fun _ => ?_
  refine only_attempt_bind trivial fun _ => ?_
  exact only_attempt_bind (quiet_recheckReviewed reviewedBinding request) fun _ => trivial

def recheckEvents (stageRoot binding : String) (request : CopyCommitRequest)
    (stagedManifest : List CopyManifestEntry) : List CommitEvent :=
  [⟨.inspectTree stageRoot, .ok stagedManifest⟩,
    ⟨.scanSourceTree request.sourceRoot, .ok request.sourceManifest⟩,
    ⟨.pathBinding request.destinationIdentity, .ok binding⟩,
    ⟨.inspectTree request.destinationIdentity, .ok request.destinationManifest⟩]

variable {request : CopyCommitRequest}

theorem prepareStage_ok {stageRoot binding : String} {actions : List AndroidStageAction}
    (ran : Attempts (prepareStage stageRoot request) events (.ok (binding, actions))) :
    checkRequest request = .ok binding := by
  obtain ⟨found, _, _, checked, rest, _⟩ := attempts_bind_finished.mp ran
  obtain ⟨_, passed⟩ := Program.attempts_check.mp checked
  iterate 11 obtain ⟨_, _, _, _, rest, _⟩ := attempts_bind_finished.mp rest
  obtain ⟨_, same⟩ := Program.attempts_pure.mp rest
  rw [← passed, (Prod.mk.inj (Except.ok.inj same)).1]

theorem attempts_require {holds : Prop} [Decidable holds] {stop : CopyCommitError}
    (ran : Attempts (Program.check (Checks.require holds stop)) events (.ok ())) :
    holds ∧ events = [] := by
  obtain ⟨none, passed⟩ := Program.attempts_check.mp ran
  exact ⟨Checks.require_eq_ok.mp passed.symm, none⟩

theorem recheckReviewed_ok {binding : String}
    (ran : Attempts (recheckReviewed binding request) events (.ok ())) :
    events = [⟨.scanSourceTree request.sourceRoot, .ok request.sourceManifest⟩,
      ⟨.pathBinding request.destinationIdentity, .ok binding⟩,
      ⟨.inspectTree request.destinationIdentity, .ok request.destinationManifest⟩] := by
  obtain ⟨scanned, _, _, scans, scanChecked, rfl⟩ := attempts_bind_finished.mp ran
  obtain ⟨_, _, _, sameSource, bindingRead, rfl⟩ := attempts_bind_finished.mp scanChecked
  obtain ⟨bound, _, _, binds, bindingChecked, rfl⟩ := attempts_bind_finished.mp bindingRead
  obtain ⟨_, _, _, sameBinding, manifestRead, rfl⟩ := attempts_bind_finished.mp bindingChecked
  obtain ⟨manifest, _, _, inspects, sameManifest, rfl⟩ := attempts_bind_finished.mp manifestRead
  obtain ⟨rfl, rfl⟩ := attempts_require sameSource
  obtain ⟨rfl, rfl⟩ := attempts_require sameBinding
  obtain ⟨rfl, rfl⟩ := attempts_require sameManifest
  rw [runs_issue.mp scans, runs_issue.mp (deviceCall_ok binds),
    runs_issue.mp (deviceCall_ok inspects)]
  rfl

theorem stageReviewedTree_ok {stageRoot binding : String} {actions : List AndroidStageAction}
    {stagedManifest : List CopyManifestEntry}
    (ran : Attempts (stageReviewedTree stageRoot binding actions request) events
      (.ok stagedManifest)) :
    manifestContentMatches stagedManifest request.sourceManifest = true ∧
      ∃ staging, issued staging = [] ∧
        events = staging ++ recheckEvents stageRoot binding request stagedManifest := by
  obtain ⟨_, staging, _, staged, stageRead, rfl⟩ := attempts_bind_finished.mp ran
  obtain ⟨manifest, _, _, inspects, stageChecked, rfl⟩ := attempts_bind_finished.mp stageRead
  obtain ⟨_, _, _, sameContent, recheck, rfl⟩ := attempts_bind_finished.mp stageChecked
  obtain ⟨_, _, _, rechecked, done, rfl⟩ := attempts_bind_finished.mp recheck
  obtain ⟨rfl, same⟩ := Program.attempts_pure.mp done
  obtain rfl := Except.ok.inj same
  obtain ⟨matched, rfl⟩ := attempts_require sameContent
  have quiet : Quiet ((actions.drop 1).forM runStageAction).run :=
    Program.only_attempt_forM fun action _ => quiet_runStageAction action
  refine ⟨matched, staging, quiet.issued staged, ?_⟩
  rw [runs_issue.mp (deviceCall_ok inspects), recheckReviewed_ok rechecked]
  rfl

section

variable {sha256 : List UInt8 → List UInt8} {context : MutationContext}

theorem only_cleanupErrors (stageRoot : String) (helperPath : Option String)
    (reviewedManifest : List CopyManifestEntry) :
    Only isCleanup (cleanupErrors stageRoot helperPath reviewedManifest) := by
  have removing : ∀ (remove : String → CommitProgram (Except DeviceOperationError Unit)),
      (∀ path, Only isCleanup (remove path)) → ∀ entries : List CopyManifestEntry,
      Only isCleanup (entries.forM (removeStaged remove stageRoot)).run := by
    intro remove only entries
    refine Program.only_attempt_forM fun entry _ => ?_
    exact only_attempt_bind trivial fun path => only_deviceCall (only path)
  have files : ∀ path, Only isCleanup (removeFile path) :=
    fun path => Program.only_request.mpr trivial
  have directories : ∀ path, Only isCleanup (removeEmptyDirectory path) :=
    fun path => Program.only_request.mpr trivial
  have staged : Only isCleanup (cleanupStagedTree stageRoot reviewedManifest).run := by
    refine only_attempt_bind (only_deviceCall (Program.only_request.mpr trivial)) fun _ => ?_
    refine only_attempt_bind trivial fun _ => ?_
    refine only_attempt_bind (only_deviceCall (Program.only_request.mpr trivial)) fun _ => ?_
    refine only_attempt_bind trivial fun _ => ?_
    refine only_attempt_bind (removing removeFile files _) fun _ => ?_
    refine only_attempt_bind (removing removeEmptyDirectory directories _) fun _ => ?_
    exact only_deviceCall (directories stageRoot)
  have helper : Only isCleanup (cleanupHelper helperPath) := by
    unfold cleanupHelper
    split
    next => trivial
    next =>
      refine only_bind (Program.only_request.mpr trivial) fun answer => ?_
      cases answer <;> trivial
  refine only_bind helper fun helperErrors => only_bind staged fun outcome => ?_
  cases outcome <;> trivial

theorem only_finishStagedResult (request : CopyCommitRequest) (stageRoot : String)
    (helperPath : Option String) (result : Except CopyCommitError CopyCommitReport) :
    Only isCleanup (finishStagedResult sha256 request stageRoot helperPath result) := by
  refine only_bind (only_cleanupErrors ..) fun errors => ?_
  split
  next => trivial
  next =>
    refine only_bind ?_ fun _ => trivial
    cases result with
    | ok report =>
        simp only [pendingCleanup]
        split <;> trivial
    | error error =>
        refine only_bind ?_ fun _ => trivial
        exact (only_observeAfter ..).mono isCleanup_of_isObservation

structure Kept (report finished : CopyCommitReport) : Prop where
  deleted : finished.deletedPaths = report.deletedPaths
  copied : finished.copiedPaths = report.copiedPaths
  succeeded : finished.succeeded = report.succeeded
  verified : finished.succeeded = true → finished.outcome = report.outcome
  failed : finished.succeeded = false → report.outcome ≠ .succeeded →
    finished.outcome ≠ .succeeded
  after : finished.afterManifest = report.afterManifest

theorem Kept.refl (report : CopyCommitReport) : Kept report report :=
  ⟨rfl, rfl, rfl, fun _ => rfl, fun _ => id, rfl⟩

variable {stageRoot : String} {final result : Except CopyCommitError CopyCommitReport}
  {state : MutationState}

theorem finishStagedResult_runs {helperPath : Option String}
    (ran : Runs (finishStagedResult sha256 request stageRoot helperPath result) events final) :
    (∃ report finished, result = .ok report ∧ final = .ok finished ∧ Kept report finished) ∨
    ∃ error, result = .error error ∧ (final = .error error ∨
      ∃ finished, final = .ok finished ∧ FailureReport [] [] finished) := by
  obtain ⟨errors, _, _, _, rest, _⟩ := runs_bind.mp ran
  split at rest
  next =>
    obtain ⟨_, rfl⟩ := Program.runs_pure.mp rest
    cases final with
    | ok report => exact .inl ⟨report, report, rfl, rfl, .refl report⟩
    | error error => exact .inr ⟨error, rfl, .inl rfl⟩
  next =>
    obtain ⟨finished, _, _, pending, done, _⟩ := runs_bind.mp rest
    obtain ⟨_, rfl⟩ := Program.runs_pure.mp done
    cases result with
    | ok report =>
        refine .inl ⟨report, finished, rfl, rfl, ?_⟩
        simp only [pendingCleanup] at pending
        split at pending
        next succeeded =>
          obtain ⟨_, rfl⟩ := Program.runs_pure.mp pending
          exact ⟨rfl, rfl, rfl, fun _ => rfl, fun _ => id, rfl⟩
        next failed =>
          obtain ⟨_, rfl⟩ := Program.runs_pure.mp pending
          have same : report.succeeded = false := by simpa using failed
          exact ⟨rfl, rfl, same.symm, by simp, by simp, rfl⟩
    | error error =>
        refine .inr ⟨error, rfl, .inr ⟨finished, rfl, ?_⟩⟩
        obtain ⟨report, _, _, observed, done, _⟩ := runs_bind.mp pending
        obtain ⟨_, rfl⟩ := Program.runs_pure.mp done
        have failure := observeAfter_report observed
        exact ⟨failure.deleted, failure.copied, failure.failed, by simp⟩

theorem orDiffers_bind_attempts {α : Type} {holds : Bool} {message : String}
    {next : Unit → MutationAttempt α} {result : Except CommitExit α}
    (ran : Attempts (orDiffers sha256 context state holds message >>= next) events result) :
    (holds = true ∧ Attempts (next ()) events result) ∨
    (issued events = [] ∧ ∃ report, result = .error (.reported report) ∧
      FailureReport state.deletedPaths state.copiedPaths report) := by
  unfold orDiffers at ran
  split at ran
  next isTrue =>
    rw [pure_bind] at ran
    exact .inl ⟨isTrue, ran⟩
  next =>
    rcases attempts_bind.mp ran with ⟨stop, stopped, rfl⟩ | ⟨_, _, _, first, _, _⟩
    · obtain ⟨silent, report, same, failed⟩ := reportFailure_attempts stopped
      exact .inr ⟨silent, report, congrArg _ (Except.error.inj same), failed⟩
    · obtain ⟨_, _, impossible, _⟩ := reportFailure_attempts first
      exact nomatch impossible

def verifiedEvents (binding : String) (request : CopyCommitRequest)
    (manifest : List CopyManifestEntry) : List CommitEvent :=
  [⟨.pathBinding request.destinationIdentity, .ok binding⟩,
    ⟨.inspectTree request.destinationIdentity, .ok manifest⟩]

structure VerifiedReport (request : CopyCommitRequest) (deletedPaths copiedPaths : List String)
    (manifest : List CopyManifestEntry) (report : CopyCommitReport) : Prop where
  deleted : report.deletedPaths = deletedPaths
  copied : report.copiedPaths = copiedPaths
  succeeded : report.succeeded = true
  verified : report.outcome = .succeeded
  after : report.afterManifest = some manifest
  expected : manifestContentMatches manifest (expectedManifest request.operation
    request.sourceManifest request.destinationManifest) = true

variable {stagedManifest : List CopyManifestEntry}

theorem verifySelectedRoot_attempts {result : Except CommitExit CopyCommitReport}
    (ran : Attempts (verifySelectedRoot sha256 context stagedManifest state) events result) :
    (issued events = [] ∧ ∃ report, result = .error (.reported report) ∧
      FailureReport state.deletedPaths state.copiedPaths report) ∨
    ∃ manifest report, result = .ok report ∧
      events = verifiedEvents context.reviewedBinding context.request manifest ∧
      VerifiedReport context.request state.deletedPaths state.copiedPaths manifest report := by
  rcases orReported_bind_attempts ran with ⟨binding, _, _, binds, bindingRead, rfl⟩ |
    ⟨_, _, _, report, binds, silent, rfl, same, failed⟩
  case inr =>
    refine .inl ⟨?_, report, same, failed⟩
    rw [issued_append, silent, runs_issue.mp binds]
    rfl
  rcases orReported_bind_attempts bindingRead with ⟨manifest, _, _, inspects, compared, rfl⟩ |
    ⟨_, _, _, report, inspects, silent, rfl, same, failed⟩
  case inr =>
    refine .inl ⟨?_, report, same, failed⟩
    rw [issued_append, issued_append, silent, runs_issue.mp binds, runs_issue.mp inspects]
    rfl
  have reads : ∀ after, issued after = [] → issued
      ((⟨.pathBinding context.request.destinationIdentity, .ok binding⟩ : CommitEvent) ::
        ⟨.inspectTree context.request.destinationIdentity, .ok manifest⟩ :: after) = [] :=
    fun after silent => silent
  rw [runs_issue.mp binds, runs_issue.mp inspects]
  rcases orDiffers_bind_attempts compared with ⟨sameBinding, contents⟩ |
    ⟨silent, report, same, failed⟩
  case inr => exact .inl ⟨reads _ silent, report, same, failed⟩
  rcases orDiffers_bind_attempts contents with ⟨sameContent, done⟩ | ⟨silent, report, same, failed⟩
  case inr => exact .inl ⟨reads _ silent, report, same, failed⟩
  obtain ⟨rfl, rfl⟩ := Program.attempts_pure.mp done
  have isReviewed : binding = context.reviewedBinding := by simpa using sameBinding
  refine .inr ⟨manifest, _, rfl, ?_, rfl, rfl, rfl, rfl, rfl, sameContent⟩
  rw [isReviewed]
  rfl

variable {binding : String}

theorem publishReviewedTree_attempts
    (facts : ReviewedFacts context.request binding) {result : Except CommitExit CopyCommitReport}
    (ran : Attempts (publishReviewedTree sha256 context stagedManifest) events result) :
    (∃ stop, result = .error stop ∧ Stopped context.request events stop) ∨
    ∃ state before after, events = before ++ after ∧ issued after = [] ∧
      Progress context.request (schedule context.request) state before ∧
      ((∃ report, result = .error (.reported report) ∧
          FailureReport state.deletedPaths state.copiedPaths report) ∨
        ∃ manifest report, result = .ok report ∧
          after = verifiedEvents context.reviewedBinding context.request manifest ∧
          VerifiedReport context.request state.deletedPaths state.copiedPaths manifest report) := by
  rcases attempts_bind.mp ran with ⟨stop, stopped, rfl⟩ | ⟨state, before, after, done, last, rfl⟩
  · rcases mutateSelectedRoot_attempts facts stopped with ⟨_, impossible, _⟩ | ⟨stop, same, held⟩
    · exact nomatch impossible
    · exact .inl ⟨stop, congrArg _ (Except.error.inj same), held⟩
  · rcases mutateSelectedRoot_attempts facts done with ⟨_, same, progress⟩ | ⟨_, impossible, _⟩
    · obtain rfl := Except.ok.inj same
      refine .inr ⟨state, before, after, rfl, ?_, progress, ?_⟩
      · rcases verifySelectedRoot_attempts last with ⟨silent, _⟩ | ⟨_, _, _, rfl, _⟩
        · exact silent
        · rfl
      · rcases verifySelectedRoot_attempts last with ⟨_, failed⟩ | verified
        · exact .inl failed
        · exact .inr verified
    · exact nomatch impossible

theorem only_orReported {α : Type} {message : DeviceOperationError → String}
    {answer : CommitProgram (Except DeviceOperationError α)}
    (only : Only isMutationOrObservation answer) :
    Only isMutationOrObservation (orReported sha256 context state message answer).run := by
  refine only_attempt_bind (Program.only_attempt_lift only) fun answered => ?_
  cases answered with
  | ok value => trivial
  | error error =>
      exact only_attempt_bind (Program.only_attempt_lift
        ((only_observeAfter ..).mono fun _ => .inr)) fun _ => trivial

theorem only_orDiffers {holds : Bool} {message : String} :
    Only isMutationOrObservation (orDiffers sha256 context state holds message).run := by
  unfold orDiffers
  split
  next => trivial
  next =>
    exact only_attempt_bind (Program.only_attempt_lift
      ((only_observeAfter ..).mono fun _ => .inr)) fun _ => trivial

theorem only_applyMutation {mutation : CopyCommitMutation} :
    Only isMutationOrObservation (applyMutation sha256 context state mutation).run := by
  refine only_attempt_bind trivial fun expected => ?_
  refine only_attempt_bind (only_orReported (Program.only_request.mpr (.inl trivial))) fun _ => ?_
  exact only_attempt_bind trivial fun _ => trivial

theorem only_publishReviewedTree :
    Only isMutationOrObservation (publishReviewedTree sha256 context stagedManifest).run := by
  refine only_attempt_bind ?_ fun state => ?_
  · refine only_attempt_bind (Program.only_attempt_foldlM fun path _ state => ?_) fun _ => ?_
    · unfold deleteReviewed
      split
      next => trivial
      next => exact only_attempt_bind only_applyMutation fun _ => trivial
    refine only_attempt_bind (Program.only_attempt_foldlM fun entry _ state =>
      only_applyMutation) fun _ => ?_
    refine only_attempt_bind (Program.only_attempt_foldlM fun entry _ state => ?_) fun _ => trivial
    unfold publishReviewed
    split
    next => trivial
    next => exact only_attempt_bind only_applyMutation fun _ => trivial
  · refine only_attempt_bind (only_orReported (Program.only_request.mpr (.inr trivial))) fun _ => ?_
    refine only_attempt_bind (only_orReported (Program.only_request.mpr (.inr trivial))) fun _ => ?_
    exact only_attempt_bind only_orDiffers fun _ => only_attempt_bind only_orDiffers fun _ => trivial

/-! Whole commits. -/

def ReportsNothing (result : Except CopyCommitError CopyCommitReport) : Prop :=
  ∀ report, result = .ok report → FailureReport [] [] report

theorem reportsNothing_of_finish {helperPath : Option String} {error : CopyCommitError}
    (ran : Runs (finishStagedResult sha256 request stageRoot helperPath (.error error)) events
      final) :
    ReportsNothing final := by
  rintro report rfl
  rcases finishStagedResult_runs ran with ⟨_, _, impossible, _⟩ | ⟨_, _, impossible | empty⟩
  · exact nomatch impossible
  · exact nomatch impossible
  · obtain ⟨_, same, failure⟩ := empty
    exact Except.ok.inj same ▸ failure

structure PublishedTrace (sha256 : List UInt8 → List UInt8) (stageRoot : String)
    (request : CopyCommitRequest) (events : List CommitEvent)
    (result : Except CopyCommitError CopyCommitReport) where
  binding : String
  checked : checkRequest request = .ok binding
  stagedManifest : List CopyManifestEntry
  staged : manifestContentMatches stagedManifest request.sourceManifest = true
  helperPath : String
  staging : List CommitEvent
  prepared : String
  published : List CommitEvent
  finish : List CommitEvent
  silent : issued staging = []
  split : events = staging ++ recheckEvents stageRoot binding request stagedManifest ++
    ⟨.prepareMutationHelper stageRoot, .ok prepared⟩ :: (published ++ finish)
  outcome : Except CommitExit CopyCommitReport
  publish : Attempts (publishReviewedTree sha256 ⟨request, binding, stageRoot, helperPath⟩
    stagedManifest) published outcome
  finished : Runs (finishStagedResult sha256 request stageRoot (some helperPath)
    (CommitExit.toResult outcome)) finish result

theorem commit_runs (ran : Runs (commit sha256 stageRoot request) events result) :
    (issued events = [] ∧ ReportsNothing result) ∨
      Nonempty (PublishedTrace sha256 stageRoot request events result) := by
  have quietFinish : ∀ helperPath outcome finish final,
      Runs (finishStagedResult sha256 request stageRoot helperPath outcome) finish final →
      issued finish = [] := fun helperPath outcome finish final finished =>
    Quiet.issued ((only_finishStagedResult ..).mono not_isMutation_of_isCleanup) finished
  obtain ⟨prepared, prepare, _, preparing, staged, rfl⟩ := runs_bind.mp ran
  have prepareSilent := (quiet_prepareStage stageRoot request).issued preparing
  cases prepared with
  | error error =>
      obtain ⟨rfl, rfl⟩ := Program.runs_pure.mp staged
      exact .inl ⟨by simpa using prepareSilent, fun _ impossible => nomatch impossible⟩
  | ok prepared =>
      obtain ⟨binding, actions⟩ := prepared
      have checked := prepareStage_ok preparing
      obtain ⟨outcome, stage, after, staging, published, rfl⟩ := runs_bind.mp staged
      have stageSilent := (quiet_stageReviewedTree stageRoot binding actions request).issued staging
      cases outcome with
      | error error =>
          refine .inl ⟨?_, reportsNothing_of_finish published⟩
          rw [issued_append, issued_append, prepareSilent, stageSilent, quietFinish _ _ _ _ published]
          rfl
      | ok stagedManifest =>
          obtain ⟨matched, before, silent, rfl⟩ := stageReviewedTree_ok staging
          obtain ⟨answer, helper, rest, helped, last, rfl⟩ := runs_bind.mp published
          obtain rfl := runs_issue.mp helped
          cases answer with
          | error error =>
              refine .inl ⟨?_, reportsNothing_of_finish last⟩
              rw [issued_append, prepareSilent, issued_append, stageSilent]
              change issued rest = []
              exact quietFinish _ _ _ _ last
          | ok helperPath =>
              obtain ⟨outcome, mutations, finish, publish, finished, rfl⟩ := runs_bind.mp last
              refine .inr ⟨⟨binding, checked, stagedManifest, matched, _, prepare ++ before,
                helperPath, mutations, finish, ?_, ?_, outcome, publish, finished⟩⟩
              · rw [issued_append, prepareSilent, silent]
                rfl
              · simp

namespace PublishedTrace

variable (trace : PublishedTrace sha256 stageRoot request events result)

include trace

theorem facts : ReviewedFacts request trace.binding :=
  reviewedFacts_of_checkRequest trace.checked

theorem finish_silent : issued trace.finish = [] :=
  Quiet.issued ((only_finishStagedResult ..).mono not_isMutation_of_isCleanup) trace.finished

theorem issued_eq : issued events = issued trace.published := by
  have whole := congrArg issued trace.split
  rw [issued_append, issued_append, trace.silent] at whole
  have tail : issued events = issued (trace.published ++ trace.finish) := whole
  rw [tail, issued_append, trace.finish_silent, List.append_nil]

theorem applied_eq : applied events = applied trace.published := by
  rw [applied, applied, trace.issued_eq]

theorem issued_initial : ((issued events).map Prod.fst).IsPrefix (schedule request) := by
  rw [trace.issued_eq]
  rcases publishReviewedTree_attempts trace.facts trace.publish with
    ⟨stop, _, passed, mutation, rest, split, _, stopped⟩ |
    ⟨state, before, after, same, silent, progress, _⟩
  · cases stopped with
    | unusable error bad all =>
        rw [all, split]
        simp [Function.comp_def]
    | refused report deleted copied good all deletedSame copiedSame failed =>
        refine ⟨rest, ?_⟩
        rw [all, split]
        simp [Function.comp_def]
  · rw [same, issued_append, silent, progress.issued]
    simp [Function.comp_def]

end PublishedTrace

/-! Reports of published traces. -/

def ready (request : CopyCommitRequest) : List CopyCommitMutation :=
  (schedule request).takeWhile (usable request)

theorem ready_eq {passed rest : List CopyCommitMutation}
    {mutation : CopyCommitMutation} (split : schedule request = passed ++ mutation :: rest)
    (before : ∀ earlier ∈ passed, usable request earlier = true)
    (bad : usable request mutation = false) : ready request = passed := by
  rw [ready, split, List.takeWhile_append_of_pos before, List.takeWhile_cons_of_neg (by simp [bad]),
    List.append_nil]

theorem ready_split (stops : ready request ≠ schedule request) :
    ∃ mutation rest, schedule request = ready request ++ mutation :: rest ∧
      (∀ earlier ∈ ready request, usable request earlier = true) ∧
      usable request mutation = false := by
  have whole : (schedule request).takeWhile (usable request) ++
      (schedule request).dropWhile (usable request) = schedule request :=
    List.takeWhile_append_dropWhile
  cases left : (schedule request).dropWhile (usable request) with
  | nil =>
      rw [left, List.append_nil] at whole
      exact absurd whole stops
  | cons mutation rest =>
      rw [left] at whole
      refine ⟨mutation, rest, whole.symm, List.all_eq_true.mp List.all_takeWhile, ?_⟩
      simpa [left] using List.head?_dropWhile_not (usable request) (schedule request)

/-- A report tells exactly what succeeded, and claims success only after an observation. -/
structure TruthfulReport (request : CopyCommitRequest) (events : List CommitEvent)
    (report : CopyCommitReport) : Prop where
  deleted : report.deletedPaths.Perm (removedPaths (applied events))
  copied : report.copiedPaths.Perm (publishedPaths (applied events))
  succeeded : report.succeeded = true ↔ report.outcome = .succeeded
  verified : report.outcome = .succeeded → ∃ binding before manifest after,
    request.destinationBinding = some binding ∧
    events = before ++ verifiedEvents binding request manifest ++ after ∧ issued after = [] ∧
    report.afterManifest = some manifest ∧
    manifestContentMatches manifest (expectedManifest request.operation request.sourceManifest
      request.destinationManifest) = true

theorem FailureReport.truthful {deletedPaths copiedPaths : List String} {report : CopyCommitReport}
    (failure : FailureReport deletedPaths copiedPaths report)
    (deleted : deletedPaths.Perm (removedPaths (applied events)))
    (copied : copiedPaths.Perm (publishedPaths (applied events))) :
    TruthfulReport request events report := by
  refine ⟨failure.deleted ▸ deleted, failure.copied ▸ copied, ?_, ?_⟩
  · simp [failure.failed, failure.unverified]
  · exact fun verified => absurd verified failure.unverified

theorem TruthfulReport.kept {report finished : CopyCommitReport}
    (truthful : TruthfulReport request events report) (kept : Kept report finished) :
    TruthfulReport request events finished := by
  have same : finished.succeeded = true → finished.outcome = report.outcome := kept.verified
  have failed : finished.succeeded = false → finished.outcome ≠ .succeeded := fun isFalse =>
    kept.failed isFalse fun verified => by
      have isTrue := truthful.succeeded.mpr verified
      rw [← kept.succeeded, isFalse] at isTrue
      exact nomatch isTrue
  have succeeded : finished.succeeded = true ↔ finished.outcome = .succeeded := by
    cases isSucceeded : finished.succeeded with
    | false => simpa using failed isSucceeded
    | true =>
        have verified := truthful.succeeded.mp (kept.succeeded ▸ isSucceeded)
        simp [same isSucceeded, verified]
  refine ⟨kept.deleted ▸ truthful.deleted, kept.copied ▸ truthful.copied, succeeded, ?_⟩
  intro verified
  have outcome := same (succeeded.mpr verified)
  rw [kept.after]
  exact truthful.verified (outcome ▸ verified)

theorem PublishedTrace.report (trace : PublishedTrace sha256 stageRoot request events result) :
    (∃ report, result = .ok report ∧ TruthfulReport request events report) ∨
    (ready request ≠ schedule request ∧ applied events = ready request ∧
      ReportsNothing result) := by
  have finished := finishStagedResult_runs trace.finished
  have bound := trace.facts.bound
  have keeps : ∀ report, CommitExit.toResult trace.outcome = .ok report →
      TruthfulReport request events report →
      ∃ report, result = .ok report ∧ TruthfulReport request events report := by
    intro report isReport truthful
    rcases finished with ⟨_, last, same, rfl, kept⟩ | ⟨_, impossible, _⟩
    · rw [isReport] at same
      obtain rfl := Except.ok.inj same
      exact ⟨last, rfl, truthful.kept kept⟩
    · rw [isReport] at impossible
      exact nomatch impossible
  rcases publishReviewedTree_attempts trace.facts trace.publish with
    ⟨stop, isStop, passed, mutation, rest, split, before, stopped⟩ |
    ⟨state, before, after, same, silent, progress, ended⟩
  · cases stopped with
    | unusable error bad all =>
        have isReady := ready_eq split before bad
        refine .inr ⟨?_, ?_, ?_⟩
        · rw [isReady, split]
          simp
        · rw [trace.applied_eq, applied_of_issued all, isReady]
        · have outcome := trace.finished
          rw [isStop] at outcome
          exact reportsNothing_of_finish outcome
    | refused report deleted copied good all deletedSame copiedSame failed =>
        refine .inl (keeps report (by rw [isStop]; rfl) (failed.truthful ?_ ?_))
        · rwa [trace.applied_eq, applied_of_refused all]
        · rwa [trace.applied_eq, applied_of_refused all]
  · have isApplied : applied events = schedule request := by
      rw [trace.applied_eq]
      apply applied_of_issued
      rw [same, issued_append, silent, progress.issued, List.append_nil]
    rcases ended with ⟨report, isReport, failed⟩ | ⟨manifest, report, isReport, isAfter, verified⟩
    · refine .inl (keeps report (by rw [isReport]; rfl) (failed.truthful ?_ ?_))
      · rw [isApplied]
        exact progress.deleted
      · rw [isApplied]
        exact progress.copied
    · refine .inl (keeps report (by rw [isReport]; rfl) ⟨?_, ?_, ?_, fun _ => ?_⟩)
      · rw [isApplied, verified.deleted]
        exact progress.deleted
      · rw [isApplied, verified.copied]
        exact progress.copied
      · simp [verified.succeeded, verified.verified]
      · have split := trace.split
        rw [same, isAfter] at split
        exact ⟨trace.binding, trace.staging ++ recheckEvents stageRoot trace.binding request
            trace.stagedManifest ++ ⟨.prepareMutationHelper stageRoot, .ok trace.prepared⟩ :: before,
          manifest, trace.finish, bound, split.trans (by simp), trace.finish_silent, verified.after,
          verified.expected⟩

/-! Traces that a device can lead a reviewed commit through. -/

theorem checkedComponents_names {path : List TextPath.Component} {names : List String}
    (checked : List.Forall₂ (fun component name => checkedComponent component = .ok name) path
      names) : path = names.map .normal := by
  induction checked with
  | nil => rfl
  | cons first _ ih =>
      rw [List.map_cons, ← ih]
      congr 1
      unfold checkedComponent at first
      split at first
      next name =>
        split at first
        next => exact nomatch first
        next => rw [Except.ok.inj first]
      next => exact nomatch first

theorem checkedRelative_names {path : List TextPath.Component} {text : String}
    (checked : checkedRelative path = .ok text) :
    ∃ names : List String, names ≠ [] ∧ path = names.map .normal := by
  obtain ⟨names, mapped, rest⟩ := Checks.bind_eq_ok.mp checked
  obtain ⟨_, nonempty, _⟩ := Checks.bind_eq_ok.mp rest
  refine ⟨names, Checks.require_eq_ok.mp nonempty, checkedComponents_names ?_⟩
  exact Checks.mapM_eq_ok.mp mapped

theorem checkedChild_ok {manifest : List CopyManifestEntry} (valid : ValidManifest manifest)
    {entry : CopyManifestEntry} (member : entry ∈ manifest) (root : String) :
    ∃ path, checkedChild root entry.relativePath = .ok path := by
  obtain ⟨names, nonempty, split⟩ := checkedRelative_names (valid.canonical entry member)
  unfold checkedChild
  rw [split]
  refine ⟨root ++ "/" ++ TextPath.join names, Checks.bind_eq_ok.mpr ⟨names, ?_,
    Checks.bind_eq_ok.mpr ⟨(), Checks.require_eq_ok.mpr nonempty, rfl⟩⟩⟩
  rw [Checks.mapM_eq_ok, List.forall₂_map_left_iff, List.forall₂_same]
  exact fun _ _ => rfl

theorem not_mem_repr (number : Nat) : '/' ∉ (toString number).toList := by
  intro member
  have text : (toString number).toList = Nat.toDigits 10 number := by
    simp [toString, Nat.repr]
  rw [text] at member
  have digit := Nat.isDigit_of_mem_toDigits (by omega) (by omega) member
  exact absurd digit (by decide)

theorem stageRoot_base : "/data/local/tmp/emuchef/t03-copy-".toList =
    "/data/local/tmp/emuchef".toList ++ '/' :: "t03-copy-".toList := by
  decide

theorem stageRoot_dash : "-".toList = ['-'] := by
  decide

theorem uniqueStageRoot_toList (process sequence : Nat) :
    (uniqueStageRoot process sequence).toList = "/data/local/tmp/emuchef".toList ++
      '/' :: ("t03-copy-".toList ++ (toString process).toList ++
        '-' :: (toString sequence).toList) := by
  unfold uniqueStageRoot
  rw [String.toList_append, String.toList_append, String.toList_append, stageRoot_base,
    stageRoot_dash]
  generalize "/data/local/tmp/emuchef".toList = upper
  generalize "t03-copy-".toList = lead
  generalize (toString process).toList = first
  generalize (toString sequence).toList = second
  simp only [List.append_assoc, List.cons_append, List.nil_append]

theorem uniqueStageRoot_components (process sequence : Nat) :
    (TextPath.components (uniqueStageRoot process sequence)).head? = some .rootDir ∧
      .curDir ∉ TextPath.components (uniqueStageRoot process sequence) ∧
      .parentDir ∉ TextPath.components (uniqueStageRoot process sequence) := by
  have text := uniqueStageRoot_toList process sequence
  have absolute : (uniqueStageRoot process sequence).toList.head? = some '/' := by
    rw [text]
    rfl
  obtain ⟨root, current, up⟩ := TextPath.components_of_absolute absolute
  refine ⟨root, current, fun inside => ?_⟩
  have parted := up inside
  have clean : '/' ∉ "t03-copy-".toList ++ (toString process).toList ++
      '-' :: (toString sequence).toList := by
    have first := not_mem_repr process
    have second := not_mem_repr sequence
    simp only [List.mem_append, List.mem_cons, first, second, or_false]
    decide
  rw [TextPath.parts, text, SlashPath.splitOn_append_cons, SlashPath.splitOn_eq_singleton '/' clean,
    List.mem_append, List.mem_singleton] at parted
  rcases parted with before | last
  · exact absurd before (by decide)
  · exact absurd (congrArg List.head? last) (by simp)

theorem androidStageActions_ok (facts : ReviewedFacts request binding) (process sequence : Nat) :
    ∃ actions, androidStageActions request (uniqueStageRoot process sequence) = .ok actions ∧
      actions.head? = some (.createDirectory (uniqueStageRoot process sequence)) := by
  generalize isRoot : uniqueStageRoot process sequence = stageRoot
  have rooted := uniqueStageRoot_components process sequence
  rw [isRoot] at rooted
  have inSource : ∀ kind, ∀ entry ∈ entriesOfKind kind request.sourceManifest,
      entry ∈ request.sourceManifest := fun _ _ member => (List.mem_filter.mp member).1
  obtain ⟨created, createdOk⟩ : ∃ created, ((entriesOfKind .directory
      request.sourceManifest).insertionSort fun left right =>
        shallowFirst left.relativePath right.relativePath).mapM
      (directoryStageAction stageRoot) = .ok created := by
    refine Checks.exists_mapM_eq_ok fun entry member => ?_
    obtain ⟨path, found⟩ := checkedChild_ok facts.source
      (inSource _ entry ((List.mem_insertionSort _).mp member)) stageRoot
    exact ⟨.createDirectory path, Checks.bind_eq_ok.mpr ⟨path, found, rfl⟩⟩
  obtain ⟨pushed, pushedOk⟩ : ∃ pushed, (sortByPath (entriesOfKind .file
      request.sourceManifest)).mapM (fileStageAction stageRoot) = .ok pushed := by
    refine Checks.exists_mapM_eq_ok fun entry member => ?_
    have listed := mem_sortByPath.mp member
    obtain ⟨path, found⟩ := checkedChild_ok facts.source (inSource _ entry listed) stageRoot
    obtain ⟨digest, hasDigest⟩ := Option.isSome_iff_exists.mp (facts.source.digest entry
      (inSource _ entry listed) (by simpa using (List.mem_filter.mp listed).2))
    refine ⟨.pushFile entry.relativePath digest path, Checks.bind_eq_ok.mpr ⟨path, found, ?_⟩⟩
    rw [hasDigest]
    rfl
  exact ⟨.createDirectory stageRoot :: created ++ pushed, Checks.bind_eq_ok.mpr ⟨(),
    Checks.require_eq_ok.mpr rooted, Checks.bind_eq_ok.mpr ⟨created, createdOk,
      Checks.bind_eq_ok.mpr ⟨pushed, pushedOk, rfl⟩⟩⟩, rfl⟩

theorem reaches_require {holds : Prop} [Decidable holds] {stop : CopyCommitError}
    (isTrue : holds) :
    Program.Reaches (Program.check (Checks.require holds stop) : CommitAttempt _ _) () :=
  Program.reaches_check (Checks.require_eq_ok.mpr isTrue)

open Program

theorem reaches_prepareStage
    (checked : checkRequest request = .ok binding) (process sequence : Nat) :
    ∃ actions, Program.Reaches (prepareStage (uniqueStageRoot process sequence) request)
      (binding, actions) := by
  obtain ⟨actions, planned, starts⟩ :=
    androidStageActions_ok (reviewedFacts_of_checkRequest checked) process sequence
  refine ⟨actions, reaches_bind (reaches_check checked) ?_⟩
  refine reaches_bind (reaches_deviceCall binding (runs_issue.mpr rfl)) ?_
  refine reaches_bind (reaches_require rfl) ?_
  refine reaches_bind
    (reaches_deviceCall request.destinationManifest (runs_issue.mpr rfl)) ?_
  refine reaches_bind (reaches_require rfl) ?_
  refine reaches_bind (reaches_hostCall () (runs_issue.mpr rfl)) ?_
  refine reaches_bind (reaches_hostCall request.sourceManifest (runs_issue.mpr rfl)) ?_
  refine reaches_bind (reaches_require rfl) ?_
  refine reaches_bind (reaches_deviceCall () (runs_issue.mpr rfl)) ?_
  refine reaches_bind (reaches_check planned) ?_
  refine reaches_bind (reaches_require starts) ?_
  exact reaches_bind (reaches_deviceCall () (runs_issue.mpr rfl)) (reaches_pure _)

theorem reaches_stageReviewedTree (stageRoot binding : String)
    (actions : List AndroidStageAction) (request : CopyCommitRequest) :
    Program.Reaches (stageReviewedTree stageRoot binding actions request)
      request.sourceManifest := by
  have recheck : Program.Reaches (recheckReviewed binding request) () := by
    refine reaches_bind (reaches_hostCall request.sourceManifest (runs_issue.mpr rfl)) ?_
    refine reaches_bind (reaches_require rfl) ?_
    refine reaches_bind (reaches_deviceCall binding (runs_issue.mpr rfl)) ?_
    refine reaches_bind (reaches_require rfl) ?_
    exact reaches_bind (reaches_deviceCall request.destinationManifest (runs_issue.mpr rfl)) (reaches_require rfl)
  refine reaches_bind (Program.reaches_forM fun action _ => ?_) ?_
  · cases action with
    | createDirectory path => exact reaches_deviceCall () (runs_issue.mpr rfl)
    | pushFile relativePath digest destination =>
        exact reaches_bind (reaches_hostCall "" (runs_issue.mpr rfl))
          (reaches_deviceCall () (runs_issue.mpr rfl))
  refine reaches_bind (reaches_deviceCall request.sourceManifest (runs_issue.mpr rfl)) ?_
  refine reaches_bind (reaches_require (manifestContentMatches_iff.mpr rfl)) ?_
  exact reaches_bind recheck (reaches_pure _)

def willing : (operation : CommitOp) → operation.Response
  | .inspectTree _ => .ok []
  | .pathBinding _ => .ok ""
  | .createDirectory _ => .ok ()
  | .mkdirP _ => .ok ()
  | .pushFile _ _ => .ok ()
  | .removeFile _ => .ok ()
  | .removeEmptyDirectory _ => .ok ()
  | .prepareMutationHelper _ => .ok ""
  | .applySelectedRootMutation .. => .ok ()
  | .cleanupMutationHelper _ => .ok ()
  | .openSourceTree _ => .ok ()
  | .scanSourceTree _ => .ok []
  | .stageReviewedSourceFile .. => .ok ""

theorem issued_willing (answered : ∀ event ∈ events, event.response = willing event.operation) :
    ∀ mutation ok, (mutation, ok) ∈ issued events → ok = true := by
  intro mutation ok member
  obtain ⟨event, inside, found⟩ := List.mem_filterMap.mp member
  have answer := answered event inside
  obtain ⟨operation, response⟩ := event
  cases operation <;> simp at found
  have isOk : response = (.ok () : Except DeviceOperationError Unit) := answer
  rw [← found.2, isOk]
  rfl

theorem exists_unusable_publish (facts : ReviewedFacts context.request binding)
    (stops : ready context.request ≠ schedule context.request)
    (stagedManifest : List CopyManifestEntry) : ∃ events error,
    Attempts (publishReviewedTree sha256 context stagedManifest) events
      (.error (.failed error)) ∧ applied events = ready context.request := by
  obtain ⟨events, result, ran, answered⟩ := Program.exists_runs_answers willing
    (publishReviewedTree sha256 context stagedManifest).run
  have succeeds := issued_willing answered
  rcases publishReviewedTree_attempts facts ran with
    ⟨stop, rfl, passed, mutation, rest, split, before, stopped⟩ |
    ⟨state, before, after, same, silent, progress, _⟩
  · cases stopped with
    | unusable error bad all =>
        exact ⟨events, error, ran, by rw [applied_of_issued all, ready_eq split before bad]⟩
    | refused report deleted copied good all deletedSame copiedSame failed =>
        have refused := succeeds mutation false (by rw [all]; simp)
        exact nomatch refused
  · obtain ⟨mutation, rest, split, _, bad⟩ := ready_split stops
    have good := progress.usable mutation (by rw [split]; simp)
    rw [bad] at good
    exact nomatch good

theorem exists_clean_finish (request : CopyCommitRequest) (stageRoot : String)
    (helperPath : Option String) (result : Except CopyCommitError CopyCommitReport) :
    ∃ events, Runs (finishStagedResult sha256 request stageRoot helperPath result) events
      result := by
  have helper : ∃ events, Runs (cleanupHelper helperPath) events [] := by
    unfold cleanupHelper
    split
    next => exact ⟨[], Program.runs_pure.mpr ⟨rfl, rfl⟩⟩
    next => exact ⟨_, runs_bind.mpr ⟨.ok (), _, [], runs_issue.mpr rfl,
        Program.runs_pure.mpr ⟨rfl, rfl⟩, rfl⟩⟩
  have staged : Program.Reaches (cleanupStagedTree stageRoot request.sourceManifest) () := by
    refine reaches_bind (reaches_deviceCall [] (runs_issue.mpr rfl)) ?_
    have empty : checkStagedManifest [] request.sourceManifest = .ok () :=
      Checks.bind_eq_ok.mpr ⟨(), rfl, Checks.require_eq_ok.mpr (by simp)⟩
    refine reaches_bind (reaches_check empty) ?_
    refine reaches_bind (reaches_deviceCall [] (runs_issue.mpr rfl)) ?_
    refine reaches_bind (reaches_require rfl) ?_
    refine reaches_bind (reaches_pure ()) ?_
    refine reaches_bind (reaches_pure ()) ?_
    exact reaches_deviceCall () (runs_issue.mpr rfl)
  obtain ⟨first, helperRan⟩ := helper
  obtain ⟨second, stagedRan⟩ := staged
  refine ⟨_, runs_bind.mpr ⟨[], first ++ (second ++ []), [], ?_, ?_, rfl⟩⟩
  · refine runs_bind.mpr ⟨[], first, second ++ [], helperRan, ?_, rfl⟩
    exact runs_bind.mpr ⟨.ok (), second, [], stagedRan, Program.runs_pure.mpr ⟨rfl, rfl⟩, rfl⟩
  · exact Program.runs_pure.mpr ⟨rfl, rfl⟩

theorem exists_pending_finish (request : CopyCommitRequest) (stageRoot : String)
    (helperPath : Option String) (error : CopyCommitError) :
    ∃ events report, Runs (finishStagedResult sha256 request stageRoot helperPath (.error error))
      events (.ok report) ∧ FailureReport [] [] report := by
  obtain ⟨first, helperErrors, helperRan, _⟩ :=
    Program.exists_runs_answers willing (cleanupHelper helperPath)
  have refused : Attempts (cleanupStagedTree stageRoot request.sourceManifest)
      [⟨.inspectTree stageRoot, .error ⟨.other, ""⟩⟩] (.error (.deviceOperation ⟨.other, ""⟩)) := by
    refine Program.attempts_bind_error (runs_bind.mpr ⟨.error ⟨.other, ""⟩, _, [],
      runs_issue.mpr rfl, Program.runs_pure.mpr ⟨rfl, rfl⟩, rfl⟩)
  obtain ⟨second, errors, nonempty, cleaned⟩ : ∃ events errors, errors.isEmpty = false ∧
      Runs (cleanupErrors stageRoot helperPath request.sourceManifest) events errors := by
    refine ⟨_, _, ?_, runs_bind.mpr ⟨helperErrors, first, _, helperRan, runs_bind.mpr
      ⟨_, _, [], refused, Program.runs_pure.mpr ⟨rfl, rfl⟩, rfl⟩, rfl⟩⟩
    cases helperErrors <;> rfl
  obtain ⟨third, report, pending, _⟩ := Program.exists_runs_answers willing
    (pendingCleanup sha256 request stageRoot errors (.error error))
  have ran : Runs (finishStagedResult sha256 request stageRoot helperPath (.error error))
      (second ++ (third ++ [])) (.ok report) := by
    refine runs_bind.mpr ⟨errors, second, third ++ [], cleaned, ?_, rfl⟩
    rw [nonempty]
    exact runs_bind.mpr ⟨report, third, [], pending, Program.runs_pure.mpr ⟨rfl, rfl⟩, rfl⟩
  rcases finishStagedResult_runs ran with ⟨_, _, impossible, _⟩ | ⟨_, _, impossible | found⟩
  · exact nomatch impossible
  · exact nomatch impossible
  · obtain ⟨_, same, failure⟩ := found
    exact ⟨_, report, ran, Except.ok.inj same ▸ failure⟩

theorem exists_unusable_commit (sha256 : List UInt8 → List UInt8) (reviewed : Reviewed request)
    (stops : ready request ≠ schedule request) (process sequence : Nat) :
    (∃ events error, Runs (commit sha256 (uniqueStageRoot process sequence) request) events
      (.error error) ∧ applied events = ready request) ∧
    ∃ events report, Runs (commit sha256 (uniqueStageRoot process sequence) request) events
      (.ok report) ∧ FailureReport [] [] report ∧ applied events = ready request := by
  obtain ⟨binding, checked, facts⟩ := reviewed.facts
  generalize isRoot : uniqueStageRoot process sequence = stageRoot
  obtain ⟨actions, prepare, prepared⟩ := reaches_prepareStage checked process sequence
  rw [isRoot] at prepared
  obtain ⟨stage, staged⟩ := reaches_stageReviewedTree stageRoot binding actions request
  let context : MutationContext := ⟨request, binding, stageRoot, expectedHelperPath stageRoot⟩
  obtain ⟨publish, error, published, isReady⟩ : ∃ events error,
      Attempts (publishReviewedTree sha256 context request.sourceManifest) events
        (.error (.failed error)) ∧ applied events = ready request :=
    exists_unusable_publish facts stops request.sourceManifest
  have through : ∀ {finish result}, Runs (finishStagedResult sha256 request stageRoot
      (some (expectedHelperPath stageRoot)) (.error error)) finish result →
      ∃ events, Runs (commit sha256 stageRoot request) events result ∧
        applied events = ready request := by
    intro finish result finished
    refine ⟨_, runs_bind.mpr ⟨_, prepare, _, prepared, runs_bind.mpr ⟨_, stage, _, staged,
      runs_bind.mpr ⟨.ok "", _, _, runs_issue.mpr rfl, runs_bind.mpr ⟨_, publish, finish,
        published, finished, rfl⟩, rfl⟩, rfl⟩, rfl⟩, ?_⟩
    have prepareSilent := (quiet_prepareStage stageRoot request).issued prepared
    have stageSilent := (quiet_stageReviewedTree stageRoot binding actions request).issued staged
    have finishSilent : issued finish = [] :=
      Quiet.issued ((only_finishStagedResult ..).mono not_isMutation_of_isCleanup) finished
    rw [← isReady, applied, applied, issued_append, prepareSilent, issued_append, stageSilent]
    change ((issued (publish ++ finish)).filter Prod.snd).map Prod.fst = _
    rw [issued_append, finishSilent, List.append_nil]
  constructor
  · obtain ⟨finish, finished⟩ := exists_clean_finish request stageRoot
      (some (expectedHelperPath stageRoot)) (.error error)
    obtain ⟨events, ran, same⟩ := through finished
    exact ⟨events, error, ran, same⟩
  · obtain ⟨finish, report, finished, failure⟩ := exists_pending_finish request stageRoot
      (some (expectedHelperPath stageRoot)) error
    obtain ⟨events, ran, same⟩ := through finished
    exact ⟨events, report, ran, failure, same⟩

/-! What callers may rely on. -/

def ReportsMutations (sha256 : List UInt8 → List UInt8) (stageRoot : String)
    (request : CopyCommitRequest) : Prop :=
  ∀ events result, Runs (commit sha256 stageRoot request) events result →
    (∀ error, result = .error error → applied events = []) ∧
    (applied events ≠ [] → ∃ report, result = .ok report ∧
      report.deletedPaths.Perm (removedPaths (applied events)) ∧
      report.copiedPaths.Perm (publishedPaths (applied events)))

theorem applied_of_silent (silent : issued events = []) :
    applied events = [] := by
  rw [applied, silent]
  rfl

theorem not_reviewed_silent (refused : ¬Reviewed request)
    (ran : Runs (commit sha256 stageRoot request) events result) :
    issued events = [] ∧ ReportsNothing result := by
  rcases commit_runs ran with silent | ⟨⟨trace⟩⟩
  · exact silent
  · exact absurd (by rw [Reviewed, trace.checked]; rfl) refused

/-- A commit reports every mutation it applied exactly when its request is refused by the
checks, or no mutation lacks a usable reviewed entry, or the first one already does. -/
theorem reportsMutations_iff (sha256 : List UInt8 → List UInt8) (process sequence : Nat)
    (request : CopyCommitRequest) :
    ReportsMutations sha256 (uniqueStageRoot process sequence) request ↔
      ¬Reviewed request ∨ ready request = schedule request ∨ ready request = [] := by
  constructor
  · intro reports
    by_contra fails
    rw [not_or, not_or, not_not] at fails
    obtain ⟨reviewed, stops, nonempty⟩ := fails
    obtain ⟨events, error, ran, isReady⟩ :=
      (exists_unusable_commit sha256 reviewed stops process sequence).1
    exact nonempty (isReady ▸ (reports events _ ran).1 error rfl)
  · intro condition events result ran
    have nothing : applied events = [] →
        (∀ error, result = .error error → applied events = []) ∧
        (applied events ≠ [] → ∃ report, result = .ok report ∧
          report.deletedPaths.Perm (removedPaths (applied events)) ∧
          report.copiedPaths.Perm (publishedPaths (applied events))) :=
      fun none => ⟨fun _ _ => none, fun some => absurd none some⟩
    rcases commit_runs ran with ⟨silent, _⟩ | ⟨⟨trace⟩⟩
    · exact nothing (applied_of_silent silent)
    rcases trace.report with ⟨report, rfl, truthful⟩ | ⟨stops, isReady, _⟩
    · exact ⟨fun _ impossible => (nomatch impossible),
        fun _ => ⟨report, rfl, truthful.deleted, truthful.copied⟩⟩
    · rcases condition with refused | whole | none
      · exact nothing (applied_of_silent (not_reviewed_silent refused ran).1)
      · exact absurd whole stops
      · exact nothing (isReady.trans none)

def unidentifiedRequest : CopyCommitRequest where
  operation := .mirror
  sourceRoot := "/host/empty"
  destinationIdentity := "/sdcard/Games"
  sourceManifest := []
  destinationManifest :=
    [⟨"a", .file, some "aaaaaaaaaaaaaaaaaaaaaaaaaaaaaaaaaaaaaaaaaaaaaaaaaaaaaaaaaaaaaaaa", some "1"⟩,
      ⟨"b", .file, some "bbbbbbbbbbbbbbbbbbbbbbbbbbbbbbbbbbbbbbbbbbbbbbbbbbbbbbbbbbbbbbbb", none⟩]
  reviewedDeletionSet := ["a", "b"]
  destinationBinding := some "8:1"

theorem not_reportsMutations_unidentified :
    ¬ReportsMutations (fun bytes => bytes) (uniqueStageRoot 1 0) unidentifiedRequest := by
  intro reports
  have reviewed : Reviewed unidentifiedRequest := by decide
  obtain ⟨events, error, ran, isReady⟩ :=
    (exists_unusable_commit (fun bytes => bytes) reviewed (by decide) 1 0).1
  have nothing := (reports events _ ran).1 error rfl
  rw [isReady] at nothing
  exact absurd nothing (by decide)

def Authorised (request : CopyCommitRequest) : CopyCommitMutation → Prop
  | .removeFile path => path ∈ request.reviewedDeletionSet ∧
      ∃ entry ∈ request.destinationManifest, entry.relativePath = path ∧ entry.kind = .file
  | .removeDirectory path => path ∈ request.reviewedDeletionSet ∧
      ∃ entry ∈ request.destinationManifest, entry.relativePath = path ∧ entry.kind = .directory
  | .ensureDirectory path =>
      ∃ entry ∈ request.sourceManifest, entry.relativePath = path ∧ entry.kind = .directory
  | .publishFile path digest => ∃ entry ∈ request.sourceManifest, entry.relativePath = path ∧
      entry.kind = .file ∧ entry.sha256 = some digest

structure AuthorisedMutations (request : CopyCommitRequest)
    (mutations : List CopyCommitMutation) : Prop where
  each : ∀ mutation ∈ mutations, Authorised request mutation
  removedOnce : (removedPaths mutations).Nodup
  createdOnce : (createdPaths mutations).Nodup

/-- Mutations follow a recheck of source, binding and destination, and nothing is staged
after it. -/
def Rechecked (stageRoot : String) (request : CopyCommitRequest) (events : List CommitEvent) :
    Prop :=
  issued events ≠ [] → ∃ binding stagedManifest before after,
    request.destinationBinding = some binding ∧
    manifestContentMatches stagedManifest request.sourceManifest = true ∧
    events = before ++ recheckEvents stageRoot binding request stagedManifest ++ after ∧
    issued before = [] ∧ ∀ event ∈ after, ¬isStaging event.operation

def KeepsAuthority (sha256 : List UInt8 → List UInt8) (stageRoot : String)
    (request : CopyCommitRequest) : Prop :=
  ∀ events result, Runs (commit sha256 stageRoot request) events result →
    AuthorisedMutations request ((issued events).map Prod.fst) ∧
    Rechecked stageRoot request events ∧
    ∀ report, result = .ok report → TruthfulReport request events report

theorem authorised_schedule (facts : ReviewedFacts request binding) :
    ∀ mutation ∈ schedule request, Authorised request mutation := by
  intro mutation member
  rcases List.mem_append.mp member with removes | creates
  · obtain ⟨path, listed, rfl⟩ := List.mem_map.mp removes
    rw [(deletionOrder_perm request).mem_iff] at listed
    have inDestination := listed
    rw [(reviewedDeletions_eq_ok facts.deletions).1, List.mem_insertionSort,
      List.mem_map] at inDestination
    obtain ⟨entry, kept, rfl⟩ := inDestination
    have isEntry := (List.mem_filter.mp kept).1
    have found := (findEntry_eq_some facts.destination.unique).mpr ⟨isEntry, rfl⟩
    simp only [scheduledRemoval, found, Option.map_some, Option.getD_some, removal]
    cases kind : entry.kind <;> exact ⟨listed, entry, isEntry, rfl, kind⟩
  · rcases List.mem_append.mp creates with ensures | publishes
    · obtain ⟨entry, kept, rfl⟩ := List.mem_map.mp ensures
      obtain ⟨isEntry, kind⟩ := List.mem_filter.mp kept
      exact ⟨entry, isEntry, rfl, by simpa using kind⟩
    · obtain ⟨entry, kept, rfl⟩ := List.mem_map.mp publishes
      obtain ⟨isEntry, kind⟩ := List.mem_filter.mp kept
      have isFile : entry.kind = .file := by simpa using kind
      obtain ⟨digest, found⟩ :=
        Option.isSome_iff_exists.mp (facts.source.digest entry isEntry isFile)
      exact ⟨entry, isEntry, rfl, isFile, by simp [found]⟩

theorem AuthorisedMutations.initial
    (facts : ReviewedFacts request binding) {mutations : List CopyCommitMutation}
    (initial : mutations.IsPrefix (schedule request)) :
    AuthorisedMutations request mutations := by
  obtain ⟨removedOnce, createdOnce⟩ := nodup_schedule facts
  exact ⟨fun mutation member => authorised_schedule facts mutation (initial.subset member),
    removedOnce.sublist (initial.sublist.filterMap _),
    createdOnce.sublist (initial.sublist.filterMap _)⟩

theorem PublishedTrace.rechecked (trace : PublishedTrace sha256 stageRoot request events result) :
    Rechecked stageRoot request events := by
  intro _
  refine ⟨trace.binding, trace.stagedManifest, trace.staging, _, trace.facts.bound, trace.staged,
    trace.split, trace.silent, ?_⟩
  intro event member
  rcases List.mem_cons.mp member with rfl | later
  · exact id
  · rcases List.mem_append.mp later with published | finished
    · exact not_isStaging_of_mutation _
        (only_publishReviewedTree.events trace.publish event published)
    · exact not_isStaging_of_isCleanup _
        ((only_finishStagedResult ..).events trace.finished event finished)

/-- A commit keeps its authority and reports truthfully exactly when its request is refused
by the checks, or no mutation lacks a usable reviewed entry, or only directories are made
before the first that does. -/
theorem keepsAuthority_iff (sha256 : List UInt8 → List UInt8) (process sequence : Nat)
    (request : CopyCommitRequest) :
    KeepsAuthority sha256 (uniqueStageRoot process sequence) request ↔
      ¬Reviewed request ∨ ready request = schedule request ∨
        (removedPaths (ready request) = [] ∧ publishedPaths (ready request) = []) := by
  constructor
  · intro keeps
    by_contra fails
    rw [not_or, not_or, not_not] at fails
    obtain ⟨reviewed, stops, nonempty⟩ := fails
    obtain ⟨events, report, ran, failure, isReady⟩ :=
      (exists_unusable_commit sha256 reviewed stops process sequence).2
    have truthful := (keeps events _ ran).2.2 report rfl
    refine nonempty ⟨?_, ?_⟩
    · have deleted := truthful.deleted
      rw [failure.deleted, isReady] at deleted
      exact List.nil_perm.mp deleted
    · have copied := truthful.copied
      rw [failure.copied, isReady] at copied
      exact List.nil_perm.mp copied
  · intro condition events result ran
    rcases commit_runs ran with ⟨silent, nothing⟩ | ⟨⟨trace⟩⟩
    · have none := applied_of_silent silent
      refine ⟨⟨by simp [silent], by simp [silent, removedPaths], by simp [silent, createdPaths]⟩,
        fun some => absurd silent some, fun report isReport => ?_⟩
      exact (nothing report isReport).truthful (by rw [none]; exact .refl _)
        (by rw [none]; exact .refl _)
    refine ⟨.initial trace.facts trace.issued_initial, trace.rechecked, fun report isReport => ?_⟩
    rcases trace.report with ⟨found, same, truthful⟩ | ⟨stops, isReady, nothing⟩
    · rw [isReport] at same
      exact Except.ok.inj same ▸ truthful
    · have failure := nothing report isReport
      rcases condition with refused | whole | ⟨noRemoval, noPublication⟩
      · exact absurd (by rw [Reviewed, trace.checked]; rfl) refused
      · exact absurd whole stops
      · exact failure.truthful (by rw [isReady, noRemoval]) (by rw [isReady, noPublication])

theorem not_keepsAuthority_unidentified :
    ¬KeepsAuthority (fun bytes => bytes) (uniqueStageRoot 1 0) unidentifiedRequest := by
  intro keeps
  have reviewed : Reviewed unidentifiedRequest := by decide
  obtain ⟨events, report, ran, failure, isReady⟩ :=
    (exists_unusable_commit (fun bytes => bytes) reviewed (by decide) 1 0).2
  have deleted := ((keeps events _ ran).2.2 report rfl).deleted
  rw [failure.deleted, isReady] at deleted
  exact absurd (List.nil_perm.mp deleted) (by decide)

end

end EmuChef.CopyCommit
