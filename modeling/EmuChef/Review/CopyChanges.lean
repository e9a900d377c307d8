import EmuChef.CopyCommit.Reporting
import EmuChef.CopyCommit.TreeLaw
import EmuChef.Review.Projection

/-! The changes that a review shows of a copy are those that its commit makes. -/

namespace EmuChef.Review

open CopyCommit
open Program

section

def Lists (destination : String) (tree : DirectoryTree) : CommitEvent → Prop
  | ⟨.inspectTree root, response⟩ =>
      let answer : Except DeviceOperationError (List CopyManifestEntry) := response
      root = destination → ∀ manifest, answer = .ok manifest → manifest = scan tree
  | _ => True

/-- The destination trees along the events of a commit: reads and the cleanup of the stage leave
the tree as it is, and any other operation may make anything of it. -/
inductive TreeRun (destination : String) : DirectoryTree → List CommitEvent → DirectoryTree → Prop
  | done (tree : DirectoryTree) : TreeRun destination tree [] tree
  | step {before middle after : DirectoryTree} {event : CommitEvent} {events : List CommitEvent} :
      Lists destination before event → (isCleanup event.operation → middle = before) →
      TreeRun destination middle events after → TreeRun destination before (event :: events) after

variable {destination : String} {before after : DirectoryTree} {events : List CommitEvent}

theorem TreeRun.append {first last : List CommitEvent}
    (passes : TreeRun destination before (first ++ last) after) :
    ∃ middle, TreeRun destination before first middle ∧ TreeRun destination middle last after := by
  induction first generalizing before with
  | nil => exact ⟨before, .done before, passes⟩
  | cons event rest ih =>
      cases passes with
      | step lists keeps passes =>
          obtain ⟨middle, begins, ends⟩ := ih passes
          exact ⟨middle, .step lists keeps begins, ends⟩

theorem TreeRun.kept (passes : TreeRun destination before events after)
    (cleans : ∀ event ∈ events, isCleanup event.operation) : after = before := by
  induction passes with
  | done => rfl
  | step _ keeps _ ih =>
      rw [ih fun event member => cleans event (by simp [member]), keeps (cleans _ (by simp))]

theorem TreeRun.inspected {manifest : List CopyManifestEntry}
    (passes : TreeRun destination before (⟨.inspectTree destination, .ok manifest⟩ :: events) after) :
    manifest = scan before ∧ TreeRun destination before events after := by
  cases passes with
  | step lists keeps passes => exact ⟨lists rfl manifest rfl, keeps trivial ▸ passes⟩

theorem TreeRun.bound {path : String} {answer : Except DeviceOperationError String}
    (passes : TreeRun destination before (⟨.pathBinding path, answer⟩ :: events) after) :
    TreeRun destination before events after := by
  cases passes with
  | step _ keeps passes => exact keeps trivial ▸ passes

end

section

variable {sha256 : List UInt8 → List UInt8} {stageRoot : String} {request : CopyCommitRequest}
  {events : List CommitEvent} {report : CopyCommitReport} {before after : DirectoryTree}

theorem prepareStage_reads {prepared : String × List AndroidStageAction}
    (ran : Attempts (prepareStage stageRoot request) events (.ok prepared)) :
    ∃ binding rest, events = ⟨.pathBinding request.destinationIdentity, .ok binding⟩ ::
      ⟨.inspectTree request.destinationIdentity, .ok request.destinationManifest⟩ :: rest := by
  obtain ⟨_, _, _, checked, bindingRead, rfl⟩ := attempts_bind_finished.mp ran
  obtain ⟨rfl, _⟩ := Program.attempts_check.mp checked
  obtain ⟨binding, _, _, binds, bindingChecked, rfl⟩ := attempts_bind_finished.mp bindingRead
  obtain ⟨_, _, _, sameBinding, manifestRead, rfl⟩ := attempts_bind_finished.mp bindingChecked
  obtain ⟨manifest, _, _, inspects, manifestChecked, rfl⟩ := attempts_bind_finished.mp manifestRead
  obtain ⟨_, _, _, sameManifest, _, rfl⟩ := attempts_bind_finished.mp manifestChecked
  obtain ⟨_, rfl⟩ := attempts_require sameBinding
  obtain ⟨rfl, rfl⟩ := attempts_require sameManifest
  rw [runs_issue.mp (deviceCall_ok binds), runs_issue.mp (deviceCall_ok inspects)]
  exact ⟨binding, _, rfl⟩

theorem commit_starts (ran : Runs (commit sha256 stageRoot request) events (.ok report))
    (passes : TreeRun request.destinationIdentity before events after) :
    request.destinationManifest = scan before := by
  obtain ⟨prepared, prepare, rest, preparing, staged, rfl⟩ := runs_bind.mp ran
  cases prepared with
  | error error => exact nomatch (Program.runs_pure.mp staged).2
  | ok prepared =>
      obtain ⟨binding, later, rfl⟩ := prepareStage_reads preparing
      obtain ⟨_, begins, _⟩ := passes.append
      exact begins.bound.inspected.1

theorem published_ends (trace : PublishedTrace sha256 stageRoot request events (.ok report))
    (succeeded : report.outcome = .succeeded) : ∃ first binding manifest last,
      events = first ++ verifiedEvents binding request manifest ++ last ∧
      (∀ event ∈ last, isCleanup event.operation) ∧
      manifestContentMatches manifest (expectedManifest request.operation request.sourceManifest
        request.destinationManifest) = true := by
  obtain ⟨made, finished, isMade, isFinished, kept⟩ | ⟨_, _, impossible | ⟨finished, same, failure⟩⟩ :=
    finishStagedResult_runs trace.finished
  case inr.inl => exact nomatch impossible
  case inr.inr =>
    cases Except.ok.inj same
    exact absurd succeeded failure.unverified
  cases Except.ok.inj isFinished
  have failed : ∀ {deleted copied : List String}, ¬FailureReport deleted copied made := by
    intro deleted copied failure
    have isFalse : report.succeeded = false := kept.succeeded.trans failure.failed
    exact kept.failed isFalse failure.unverified succeeded
  rcases publishReviewedTree_attempts trace.facts trace.publish with
    ⟨stop, isStop, passed, mutation, rest, split, first, stopped⟩ |
    ⟨state, first, last, same, silent, progress, ended⟩
  · rw [isStop] at isMade
    cases stopped with
    | unusable error bad all => exact nomatch isMade
    | refused other deleted copied good all deletedSame copiedSame failure =>
        cases Except.ok.inj isMade
        exact absurd failure failed
  · rcases ended with ⟨other, isReport, failure⟩ | ⟨manifest, other, isReport, isLast, verified⟩
    · rw [isReport] at isMade
      cases Except.ok.inj isMade
      exact absurd failure failed
    · refine ⟨trace.staging ++ recheckEvents stageRoot trace.binding request trace.stagedManifest ++
        ⟨.prepareMutationHelper stageRoot, .ok trace.prepared⟩ :: first, trace.binding, manifest,
        trace.finish, ?_, (only_finishStagedResult ..).events trace.finished, verified.expected⟩
      have split := trace.split
      rw [same, isLast] at split
      exact split.trans (by simp)

theorem commit_ends (ran : Runs (commit sha256 stageRoot request) events (.ok report))
    (passes : TreeRun request.destinationIdentity before events after)
    (succeeded : report.outcome = .succeeded) :
    ∃ binding, checkRequest request = .ok binding ∧
      manifestContentMatches (scan after) (expectedManifest request.operation
        request.sourceManifest request.destinationManifest) = true := by
  rcases commit_runs ran with ⟨_, nothing⟩ | ⟨⟨trace⟩⟩
  · exact absurd succeeded (nothing report rfl).unverified
  obtain ⟨first, binding, manifest, last, rfl, cleans, expected⟩ := published_ends trace succeeded
  obtain ⟨middle, begins, ends⟩ := passes.append
  obtain ⟨_, _, inspects⟩ := begins.append
  obtain ⟨isScan, rest⟩ := inspects.bound.inspected
  cases rest
  rw [ends.kept cleans]
  exact ⟨trace.binding, trace.checked, isScan ▸ expected⟩

end

section

def digestAt (tree : DirectoryTree) (path : String) : Option String :=
  match tree.node path with
  | some (.file _ digest) => some digest
  | _ => none

theorem kindAt_of_digest {tree : DirectoryTree} {path digest : String}
    (isFile : digestAt tree path = some digest) : tree.kindAt path = some .file := by
  rw [digestAt] at isFile
  split at isFile
  next found => simp [FileTree.kindAt, found, TreeNode.kind]
  next => cases isFile

/-- The changes shown of a copy are those between the trees before and after it. -/
structure ShowsChanges (shown : ReviewCopyChanges) (sourcePaths : List String)
    (before after : DirectoryTree) : Prop where
  removed : ∀ path, before.kindAt path ≠ none → after.kindAt path ≠ before.kindAt path →
    path ∈ shown.deletions ∨ path ∈ shown.replacements
  added : ∀ path, before.kindAt path = none → after.kindAt path ≠ none → path ∈ shown.additions
  rewritten : ∀ path old new, digestAt before path = some old → digestAt after path = some new →
    old ≠ new → path ∈ shown.replacements
  additionsAppear : ∀ path ∈ shown.additions,
    after.kindAt path ≠ none ∧ before.kindAt path = none
  deletionsVanish : ∀ path ∈ shown.deletions, path ∉ sourcePaths → after.kindAt path = none

theorem findEntry_content (manifest : List CopyManifestEntry) (path : String) :
    (findEntry manifest path).map (·.content) =
      (manifest.map (·.content)).find? fun content => content.1 = path := by
  rw [List.find?_map]
  rfl

structure Holds (tree : DirectoryTree) (path : String) (entry : Option CopyManifestEntry) :
    Prop where
  kind : (tree.kindAt path).map entryKind = entry.map (·.kind)
  digest : digestAt tree path = entry.bind (·.sha256)

theorem Holds.of_content {tree : DirectoryTree} {path : String} {entry : Option CopyManifestEntry}
    (same : contentAt tree path = entry.map (·.content)) : Holds tree path entry := by
  rw [contentAt] at same
  cases found : tree.node path with
  | none =>
      rw [found] at same
      cases entry with
      | none => exact ⟨by simp [FileTree.kindAt, found], by simp [digestAt, found]⟩
      | some entry => cases same
  | some node =>
      rw [found] at same
      cases entry with
      | none => cases same
      | some entry =>
          have equal : (manifestEntry path node).content = entry.content := Option.some.inj same
          obtain ⟨_, kind, digest⟩ : (manifestEntry path node).relativePath = entry.relativePath ∧
              (manifestEntry path node).kind = entry.kind ∧
              (manifestEntry path node).sha256 = entry.sha256 := by
            simpa [CopyManifestEntry.content] using equal
          refine ⟨?_, ?_⟩
          · rw [FileTree.kindAt, found]
            simpa using kind
          · rw [digestAt, found]
            cases node with
            | directory => exact digest
            | file => exact digest

variable {tree : DirectoryTree} {path : String} {entry : Option CopyManifestEntry}

theorem Holds.absent (holds : Holds tree path entry) : tree.kindAt path = none ↔ entry = none := by
  rw [← Option.map_eq_none_iff (f := entryKind), holds.kind, Option.map_eq_none_iff]

theorem Holds.sameKind {other : DirectoryTree} {otherEntry : Option CopyManifestEntry}
    (holds : Holds tree path entry) (otherHolds : Holds other path otherEntry)
    (same : entry.map (·.kind) = otherEntry.map (·.kind)) :
    tree.kindAt path = other.kindAt path := by
  have equal := holds.kind.trans (same.trans otherHolds.kind.symm)
  exact Option.map_injective (fun _ _ equal => entryKind_injective.mp equal) equal

variable {snapshot : CopyCommit.ExecutionCopyCommitSnapshot}

theorem mem_additions (path : String) : path ∈ (projectCopyChanges snapshot).additions ↔
    findEntry snapshot.sourceManifest path ≠ none ∧
      findEntry snapshot.destinationBeforeManifest path = none := by
  simp only [projectCopyChanges, isAdded, List.mem_map, List.mem_filter, Bool.not_eq_true',
    List.any_eq_false, decide_eq_true_eq, ne_eq, findEntry_eq_none, not_forall, not_not]
  constructor
  · rintro ⟨entry, ⟨member, absent⟩, rfl⟩
    exact ⟨⟨entry, member, rfl⟩, absent⟩
  · rintro ⟨⟨entry, member, rfl⟩, absent⟩
    exact ⟨entry, ⟨member, absent⟩, rfl⟩

theorem mem_replacements {source destination : CopyManifestEntry}
    (inSource : findEntry snapshot.sourceManifest path = some source)
    (inDestination : findEntry snapshot.destinationBeforeManifest path = some destination)
    (differs : copyEntriesHaveSameContent source destination = false) :
    path ∈ (projectCopyChanges snapshot).replacements := by
  refine List.mem_map.mpr ⟨source, List.mem_filter.mpr
    ⟨List.mem_of_find?_eq_some inSource, List.any_eq_true.mpr
      ⟨destination, List.mem_of_find?_eq_some inDestination, ?_⟩⟩, findEntry_path inSource⟩
  simp [findEntry_path inSource, findEntry_path inDestination, differs]

theorem mem_deletions {deletions : List String} {operation : CopyCommitOperation}
    {source destination : List CopyManifestEntry}
    (reviewed : reviewedDeletions operation source destination = .ok deletions)
    {entry : CopyManifestEntry} (found : findEntry destination path = some entry)
    (removes : shouldDelete operation (kindByPath source) entry = true) : path ∈ deletions := by
  rw [(reviewedDeletions_eq_ok reviewed).1, List.mem_insertionSort]
  exact List.mem_map.mpr ⟨entry, List.mem_filter.mpr ⟨List.mem_of_find?_eq_some found, removes⟩,
    findEntry_path found⟩

theorem addUpdate_sameKind {source destination : List CopyManifestEntry}
    (valid : validateAddUpdateTypes source destination = .ok ()) (unique : UniquePaths destination)
    {wanted kept : CopyManifestEntry} (inSource : findEntry source path = some wanted)
    (inDestination : findEntry destination path = some kept) : kept.kind = wanted.kind := by
  have checked := Checks.forM_eq_ok.mp valid wanted (List.mem_of_find?_eq_some inSource)
  obtain ⟨_, sameKind, _⟩ := Checks.bind_eq_ok.mp checked
  have all := Checks.require_eq_ok.mp sameKind
  rw [kindByPath_get unique, findEntry_path inSource, inDestination] at all
  simpa using all

/-- What the trees before and after a copy hold at a path, and what its review derives from. -/
structure Copied (snapshot : CopyCommit.ExecutionCopyCommitSnapshot) (before after : DirectoryTree) :
    Prop where
  sourceUnique : UniquePaths snapshot.sourceManifest
  destinationUnique : UniquePaths snapshot.destinationBeforeManifest
  deletions : reviewedDeletions snapshot.operation snapshot.sourceManifest
    snapshot.destinationBeforeManifest = .ok snapshot.reviewedDeletionSet
  starts : snapshot.destinationBeforeManifest = scan before
  ends : manifestContentMatches (scan after) (expectedManifest snapshot.operation
    snapshot.sourceManifest snapshot.destinationBeforeManifest) = true

variable {before after : DirectoryTree}

variable (copied : Copied snapshot before after)

include copied

theorem Copied.holdsBefore (path : String) :
    Holds before path (findEntry snapshot.destinationBeforeManifest path) := by
  apply Holds.of_content
  rw [copied.starts, contentAt_scan]

theorem Copied.holdsAfter (path : String) :
    Holds after path (findEntry (expectedManifest snapshot.operation snapshot.sourceManifest
      snapshot.destinationBeforeManifest) path) := by
  apply Holds.of_content
  rw [← contentAt_scan, findEntry_content, findEntry_content,
    manifestContentMatches_iff.mp copied.ends]

theorem Copied.expected_source {entry : CopyManifestEntry}
    (inSource : findEntry snapshot.sourceManifest path = some entry) :
    findEntry (expectedManifest snapshot.operation snapshot.sourceManifest
      snapshot.destinationBeforeManifest) path = some entry := by
  cases snapshot.operation with
  | replace => exact inSource
  | mirror => exact inSource
  | addUpdate =>
      rw [findEntry_overlay copied.sourceUnique copied.destinationUnique, inSource, Option.some_or]

theorem Copied.expected_other (notInSource : findEntry snapshot.sourceManifest path = none) :
    findEntry (expectedManifest snapshot.operation snapshot.sourceManifest
      snapshot.destinationBeforeManifest) path =
        if snapshot.operation = .addUpdate then findEntry snapshot.destinationBeforeManifest path
        else none := by
  cases snapshot.operation with
  | replace => exact notInSource
  | mirror => exact notInSource
  | addUpdate =>
      rw [findEntry_overlay copied.sourceUnique copied.destinationUnique, notInSource,
        Option.none_or, if_pos rfl]

theorem Copied.removed (present : before.kindAt path ≠ none)
    (changed : after.kindAt path ≠ before.kindAt path) :
    path ∈ snapshot.reviewedDeletionSet := by
  rw [ne_eq, (copied.holdsBefore path).absent] at present
  obtain ⟨kept, inDestination⟩ := Option.ne_none_iff_exists'.mp present
  refine mem_deletions copied.deletions inDestination ?_
  have differs : ∀ entry, findEntry (expectedManifest snapshot.operation snapshot.sourceManifest
      snapshot.destinationBeforeManifest) path = some entry → entry.kind ≠ kept.kind := by
    intro entry expected sameKind
    refine changed ((copied.holdsAfter path).sameKind (copied.holdsBefore path) ?_)
    rw [expected, inDestination, Option.map_some, Option.map_some, sameKind]
  cases operation : snapshot.operation with
  | replace => rfl
  | mirror =>
      have compatible : (kindByPath snapshot.sourceManifest)[kept.relativePath]? ≠
          some kept.kind := by
        rw [kindByPath_get copied.sourceUnique, findEntry_path inDestination]
        cases inSource : findEntry snapshot.sourceManifest path with
        | none => simp
        | some wanted => simpa using differs wanted (copied.expected_source inSource)
      simp [shouldDelete, compatible]
  | addUpdate =>
      have valid := (reviewedDeletions_eq_ok copied.deletions).2 operation
      cases inSource : findEntry snapshot.sourceManifest path with
      | none =>
          have expected := copied.expected_other inSource
          rw [if_pos operation, inDestination] at expected
          exact absurd rfl (differs kept expected)
      | some wanted =>
          have same := addUpdate_sameKind valid copied.destinationUnique inSource inDestination
          exact absurd same.symm (differs wanted (copied.expected_source inSource))

theorem Copied.inAdditions
    (absent : before.kindAt path = none) (present : after.kindAt path ≠ none) :
    path ∈ (projectCopyChanges snapshot).additions := by
  rw [(copied.holdsBefore path).absent] at absent
  rw [ne_eq, (copied.holdsAfter path).absent] at present
  refine (mem_additions path).mpr ⟨fun notInSource => present ?_, absent⟩
  rw [copied.expected_other notInSource, absent, ite_self]

theorem Copied.addition (shown : path ∈ (projectCopyChanges snapshot).additions) :
    after.kindAt path ≠ none ∧ before.kindAt path = none := by
  obtain ⟨inSource, absent⟩ := (mem_additions path).mp shown
  obtain ⟨entry, found⟩ := Option.ne_none_iff_exists'.mp inSource
  rw [ne_eq, (copied.holdsAfter path).absent, (copied.holdsBefore path).absent,
    copied.expected_source found]
  exact ⟨nofun, absent⟩

theorem Copied.inReplacements {old new : String}
    (wasFile : digestAt before path = some old) (isFile : digestAt after path = some new)
    (differs : old ≠ new) : path ∈ (projectCopyChanges snapshot).replacements := by
  have held := (copied.holdsBefore path).digest
  have holds := (copied.holdsAfter path).digest
  rw [wasFile] at held
  rw [isFile] at holds
  obtain ⟨kept, inDestination, oldDigest⟩ := Option.bind_eq_some_iff.mp held.symm
  have keptKind : kept.kind = .file := by
    have kind := (copied.holdsBefore path).kind
    rw [kindAt_of_digest wasFile, inDestination] at kind
    exact (Option.some.inj kind).symm
  cases inSource : findEntry snapshot.sourceManifest path with
  | none =>
      rw [copied.expected_other inSource] at holds
      split at holds
      next => exact absurd (Option.some.inj (held.trans holds.symm)) differs
      next => exact nomatch holds
  | some wanted =>
      rw [copied.expected_source inSource] at holds
      have newDigest : some new = wanted.sha256 := holds
      refine mem_replacements inSource inDestination ?_
      by_cases sameKind : wanted.kind = kept.kind
      · simp [copyEntriesHaveSameContent, sameKind, keptKind, ← newDigest, oldDigest, differs.symm]
      · simp [copyEntriesHaveSameContent, sameKind]

theorem Copied.deletion (shown : path ∈ snapshot.reviewedDeletionSet)
    (notSource : path ∉ manifestPaths snapshot.sourceManifest) : after.kindAt path = none := by
  have notInSource : findEntry snapshot.sourceManifest path = none := by
    rw [findEntry_eq_none]
    intro entry member same
    exact notSource (List.mem_map.mpr ⟨entry, member, same⟩)
  rw [(copied.holdsAfter path).absent, copied.expected_other notInSource, if_neg]
  intro operation
  rw [(reviewedDeletions_eq_ok copied.deletions).1, operation, List.mem_insertionSort] at shown
  simp [shouldDelete] at shown

/-- What the projection of a reviewed copy lists is what a commit of it changes. -/
theorem Copied.showsChanges :
    ShowsChanges (projectCopyChanges snapshot) (manifestPaths snapshot.sourceManifest) before
      after where
  removed _ present changed := .inl (copied.removed present changed)
  added _ absent present := copied.inAdditions absent present
  rewritten _ _ _ wasFile isFile differs := copied.inReplacements wasFile isFile differs
  additionsAppear _ shown := copied.addition shown
  deletionsVanish _ shown notSource := copied.deletion shown notSource

end

end EmuChef.Review
