import EmuChef.Helper.Program

/-! What the read-only parts of the helper find, and what its calls do to the tree. -/

namespace EmuChef.Helper

open FaultyWorld
open Program
open Split (stripLead)

abbrev HelperCall := FaultyCall HelperOp HelperOp.Response

variable {sha256Hex : List UInt8 → String} {before after : HelperState} {calls : List HelperCall}

section

variable {operation : HelperOp} {action : String}

theorem runs_issue {response : operation.Response} :
    (deviceFiles sha256Hex).Runs (issue operation) before calls after response ↔
      ∃ failed, calls = [⟨operation, response, failed⟩] ∧
        (deviceFiles sha256Hex).Answers before ⟨operation, response, failed⟩ after :=
  FaultyWorld.runs_request

theorem answers_ok {value : operation.Value} {failed : Bool}
    (answers : (deviceFiles sha256Hex).Answers before ⟨operation, .ok value, failed⟩ after) :
    failed = false ∧ ∃ identity amount,
      answer sha256Hex identity amount operation before = (.ok value, after) := by
  cases answers with
  | works worked => exact ⟨rfl, worked⟩
  | fails broken =>
      obtain ⟨_, impossible, _⟩ := broken
      exact nomatch impossible

inductive OrFail (sha256Hex : List UInt8 → String) (operation : HelperOp) (action : String)
    (before : HelperState) :
    List HelperCall → HelperState → Except HelperExit operation.Value → Prop
  | succeeded {value : operation.Value} {after : HelperState} (identity : Identity) (amount : Nat) :
      answer sha256Hex identity amount operation before = (.ok value, after) →
      OrFail sha256Hex operation action before [⟨operation, .ok value, false⟩] after (.ok value)
  | refused {error : Errno} {after : HelperState} (identity : Identity) (amount : Nat) :
      answer sha256Hex identity amount operation before = (.error error, after) →
      OrFail sha256Hex operation action before [⟨operation, .error error, false⟩] after
        (.error (.failed action))
  | failed {error : Errno} :
      OrFail sha256Hex operation action before [⟨operation, .error error, true⟩] before
        (.error (.failed action))

theorem attempts_orFail {result : Except HelperExit operation.Value}
    (ran : (deviceFiles sha256Hex).Attempts (orFail operation action) before calls after result) :
    OrFail sha256Hex operation action before calls after result := by
  obtain ⟨response, middle, first, last, asked, done, rfl⟩ := FaultyWorld.runs_bind.mp ran
  obtain ⟨failed, rfl, answers⟩ := runs_issue.mp asked
  cases response with
  | ok value =>
      obtain ⟨rfl, rfl, rfl⟩ := FaultyWorld.runs_pure.mp done
      obtain ⟨rfl, identity, amount, answered⟩ := answers_ok answers
      exact .succeeded identity amount answered
  | error error =>
      obtain ⟨rfl, rfl, rfl⟩ := FaultyWorld.runs_pure.mp done
      cases answers with
      | works worked =>
          obtain ⟨identity, amount, answered⟩ := worked
          exact .refused identity amount answered
      | fails => exact .failed

theorem orFail_ok {value : operation.Value}
    (ran : (deviceFiles sha256Hex).Attempts (orFail operation action) before calls after
      (.ok value)) :
    calls = [⟨operation, .ok value, false⟩] ∧ ∃ identity amount,
      answer sha256Hex identity amount operation before = (.ok value, after) := by
  cases attempts_orFail ran with
  | succeeded identity amount answered => exact ⟨rfl, identity, amount, answered⟩

def Unfailed (calls : List HelperCall) : Prop := ∀ call ∈ calls, call.failed = false

theorem demand_attempts {holds : Prop} [Decidable holds] {result : Except HelperExit Unit}
    (ran : (deviceFiles sha256Hex).Attempts (demand holds action) before calls after result) :
    calls = [] ∧ after = before ∧ (result = .ok () ↔ holds) := by
  obtain ⟨rfl, rfl, rfl⟩ := attempts_check.mp ran
  refine ⟨rfl, rfl, ?_⟩
  by_cases held : holds
  · simp [held]
  · simp [held]

theorem demand_ok {holds : Prop} [Decidable holds]
    (ran : (deviceFiles sha256Hex).Attempts (demand holds action) before calls after (.ok ())) :
    calls = [] ∧ after = before ∧ holds := by
  obtain ⟨none, same, passes⟩ := demand_attempts ran
  exact ⟨none, same, passes.mp rfl⟩

end

def Quiet {α : Type} (attempt : HelperAttempt α) : Prop :=
  Program.Only (fun operation => ¬operation.changes) attempt.run

theorem Quiet.tree {α : Type} {attempt : HelperAttempt α} {result : Except HelperExit α}
    (quiet : Quiet attempt)
    (ran : (deviceFiles sha256Hex).Attempts attempt before calls after result) :
    after.tree = before.tree :=
  FaultyWorld.keeps_of_only (fun _ _ _ _ allowed worked => tree_of_quiet allowed worked) quiet ran

theorem Quiet.operations {α : Type} {attempt : HelperAttempt α} {result : Except HelperExit α}
    (quiet : Quiet attempt)
    (ran : (deviceFiles sha256Hex).Attempts attempt before calls after result) :
    ∀ call ∈ calls, ¬call.operation.changes :=
  FaultyWorld.allowed_of_only quiet ran

theorem quiet_bind {α β : Type} {attempt : HelperAttempt α} {next : α → HelperAttempt β}
    (first : Quiet attempt) (last : ∀ value, Quiet (next value)) : Quiet (attempt >>= next) :=
  only_attempt_bind first last

theorem quiet_pure {α : Type} (value : α) : Quiet (pure value : HelperAttempt α) := trivial

theorem quiet_throw {α : Type} (stop : HelperExit) : Quiet (throw stop : HelperAttempt α) := trivial

theorem quiet_check {α : Type} (found : Except HelperExit α) :
    Quiet (check found : HelperAttempt α) := trivial

theorem quiet_demand (holds : Prop) [Decidable holds] (action : String) :
    Quiet (demand holds action) := trivial

theorem quiet_orFail {operation : HelperOp} {action : String} (quiet : ¬operation.changes) :
    Quiet (orFail operation action) := by
  refine only_bind (Program.only_request.mpr quiet) fun response => ?_
  cases response <;> trivial

theorem quiet_foldlM {α β : Type} {items : List α} {step : β → α → HelperAttempt β} {state : β}
    (each : ∀ item ∈ items, ∀ state, Quiet (step state item)) : Quiet (items.foldlM step state) :=
  Program.only_attempt_foldlM each

theorem quiet_openAbsoluteDirectory (path : String) : Quiet (openAbsoluteDirectory path) :=
  quiet_bind (quiet_demand _ _) fun _ => quiet_bind (quiet_orFail id) fun _ =>
    quiet_foldlM fun _ _ _ => quiet_bind (quiet_demand _ _) fun _ => quiet_orFail id

theorem quiet_openRelativeDirectory (root : Handle) (names : List String) :
    Quiet (openRelativeDirectory root names) :=
  quiet_bind (quiet_orFail id) fun _ => quiet_foldlM fun _ _ _ => quiet_orFail id

theorem quiet_openRelativeParent (root : Handle) (names : List String) :
    Quiet (openRelativeParent root names) := by
  unfold openRelativeParent
  split
  · exact quiet_orFail id
  · exact quiet_openRelativeDirectory root _

theorem quiet_requireLinkTarget (parent : Handle) (name expected : String) :
    Quiet (requireLinkTarget parent name expected) :=
  quiet_bind (quiet_orFail id) fun _ => quiet_bind (quiet_demand _ _) fun _ => quiet_demand _ _

theorem quiet_verifySharedStorageAliasChain : Quiet verifySharedStorageAliasChain :=
  quiet_bind (quiet_orFail id) fun _ => quiet_bind (quiet_requireLinkTarget ..) fun _ =>
    quiet_bind (quiet_openAbsoluteDirectory _) fun _ => quiet_bind (quiet_requireLinkTarget ..)
      fun _ => quiet_bind (quiet_openAbsoluteDirectory _) fun _ => quiet_pure _

theorem quiet_verifyBindingCanonicalPath (binding expected : String) :
    Quiet (verifyBindingCanonicalPath binding expected) :=
  quiet_bind (quiet_demand _ _) fun _ => quiet_demand _ _

theorem quiet_openSharedRoot (suffix : String) : Quiet (openSharedRoot suffix) := by
  refine quiet_bind (quiet_openAbsoluteDirectory _) fun _ => ?_
  split
  · exact quiet_pure _
  · exact quiet_bind (quiet_check _) fun _ => quiet_openRelativeDirectory _ _

theorem quiet_openReviewedSelectedRoot (path binding : String) :
    Quiet (openReviewedSelectedRoot path binding) := by
  unfold openReviewedSelectedRoot
  split
  · exact quiet_bind quiet_verifySharedStorageAliasChain fun _ => quiet_bind (quiet_demand _ _)
      fun _ => quiet_bind (quiet_verifyBindingCanonicalPath _ _) fun _ => quiet_openSharedRoot _
  · refine quiet_bind (quiet_verifyBindingCanonicalPath _ _) fun _ => ?_
    split
    · exact quiet_bind quiet_verifySharedStorageAliasChain fun _ => quiet_openAbsoluteDirectory path
    · exact quiet_openAbsoluteDirectory path

theorem quiet_verifySelectedIdentity (root : Handle) (binding : String) :
    Quiet (verifySelectedIdentity root binding) :=
  quiet_bind (quiet_check _) fun _ => quiet_bind (quiet_orFail id) fun _ => quiet_demand _ _

theorem quiet_verifyEntryIdentity (status : Stat) (text : List Char) :
    Quiet (verifyEntryIdentity status text) :=
  quiet_bind (quiet_check _) fun _ => quiet_demand _ _

theorem quiet_verifyAbsent (parent : Handle) (name : String) : Quiet (verifyAbsent parent name) := by
  refine only_bind (Program.only_request.mpr id) fun response => ?_
  split <;> trivial

theorem quiet_verifyFile (parent : Handle) (name : String) (status : Stat) (text : List Char) :
    Quiet (verifyFile parent name status text) := by
  refine quiet_bind (quiet_check _) fun parts => ?_
  refine quiet_bind (quiet_demand _ _) fun _ => quiet_bind (quiet_demand _ _) fun _ => ?_
  refine quiet_bind (quiet_verifyEntryIdentity _ _) fun _ => quiet_bind (quiet_demand _ _) fun _ => ?_
  exact quiet_bind (quiet_orFail id) fun _ => quiet_bind (quiet_orFail id) fun _ =>
    quiet_bind (quiet_demand _ _) fun _ => quiet_bind (quiet_orFail id) fun _ => quiet_demand _ _

theorem quiet_verifyEntryPrecondition (parent : Handle) (name expected : String) :
    Quiet (verifyEntryPrecondition parent name expected) := by
  unfold verifyEntryPrecondition
  split
  · exact quiet_verifyAbsent parent name
  · refine quiet_bind (quiet_orFail id) fun status => ?_
    split
    · exact quiet_bind (quiet_demand _ _) fun _ => quiet_verifyEntryIdentity _ _
    · split
      · exact quiet_verifyFile parent name status _
      · exact quiet_throw _

theorem quiet_openStaged (stageRoot : String) (names : List String) (sourceSha256 : String) :
    Quiet (openStaged stageRoot names sourceSha256) := by
  refine quiet_bind (quiet_openAbsoluteDirectory _) fun _ => ?_
  refine quiet_bind (quiet_openRelativeParent _ _) fun _ => quiet_bind (quiet_orFail id) fun _ => ?_
  refine quiet_bind (quiet_orFail id) fun _ => quiet_bind (quiet_demand _ _) fun _ => ?_
  refine quiet_bind (quiet_orFail id) fun _ => quiet_bind (quiet_orFail id) fun _ => ?_
  exact quiet_bind (quiet_demand _ _) fun _ => quiet_bind (quiet_orFail id) fun _ => quiet_pure _

def IsDirectory (state : HelperState) (path : Handle) : Prop :=
  state.tree.kindAt path = some .directory

theorem openDirectoryAt_ok {directory found : Handle} {name action : String}
    (ran : (deviceFiles sha256Hex).Attempts (openDirectoryAt directory name action) before calls
      after (.ok found)) :
    after = before ∧ found = directory ++ [name] ∧ IsDirectory before (directory ++ [name]) := by
  obtain ⟨_, _, _, answered⟩ := orFail_ok ran
  obtain ⟨opened, rfl⟩ := Prod.mk.inj answered
  simp only [openDirectory] at opened
  split at opened
  next => cases opened
  next identity held =>
    obtain rfl := Except.ok.inj opened
    exact ⟨rfl, rfl, by simp [IsDirectory, FileTree.kindAt, held, TreeNode.kind]⟩
  next => cases opened

theorem duplicate_ok {directory found : Handle}
    (ran : (deviceFiles sha256Hex).Attempts (duplicate directory) before calls after (.ok found)) :
    after = before ∧ found = directory := by
  obtain ⟨_, _, _, answered⟩ := orFail_ok ran
  obtain ⟨same, rfl⟩ := Prod.mk.inj answered
  exact ⟨rfl, (Except.ok.inj same).symm⟩

theorem descend_ok {open' : Handle → String → HelperAttempt Handle}
    (opens : ∀ directory name found calls after, (deviceFiles sha256Hex).Attempts
      (open' directory name) before calls after (.ok found) →
        after = before ∧ found = directory ++ [name] ∧ IsDirectory before (directory ++ [name]))
    {names : List String} {start found : Handle}
    (ran : (deviceFiles sha256Hex).Attempts (names.foldlM open' start) before calls after
      (.ok found)) :
    after = before ∧ found = start ++ names ∧
      ∀ count, 0 < count → count ≤ names.length → IsDirectory before (start ++ names.take count) := by
  induction names generalizing start calls with
  | nil =>
      obtain ⟨_, rfl, same⟩ := attempts_pure.mp ran
      refine ⟨rfl, by simpa using Except.ok.inj same, fun count positive bounded => ?_⟩
      rw [List.length_nil] at bounded
      omega
  | cons name rest ih =>
      rw [List.foldlM_cons] at ran
      obtain ⟨next, middle, _, _, first, last, rfl⟩ := attempts_bind_finished.mp ran
      obtain ⟨rfl, rfl, isDirectory⟩ := opens _ _ _ _ _ first
      obtain ⟨rfl, rfl, directories⟩ := ih last
      refine ⟨rfl, by simp, fun count positive bounded => ?_⟩
      cases count with
      | zero => omega
      | succ count =>
          rw [List.length_cons] at bounded
          by_cases start : count = 0
          · subst start
            simpa using isDirectory
          · simpa using directories count (by omega) (by omega)

theorem openRelativeParent_ok {root found : Handle} {names : List String}
    (ran : (deviceFiles sha256Hex).Attempts (openRelativeParent root names) before calls after
      (.ok found)) (filled : names ≠ []) :
    after = before ∧ found = root ++ names.dropLast ∧
      ∀ count, 0 < count → count < names.length → IsDirectory before (root ++ names.take count) := by
  have length : 0 < names.length := List.length_pos_iff.mpr filled
  unfold openRelativeParent at ran
  split at ran
  next single =>
    obtain ⟨rfl, rfl⟩ := duplicate_ok ran
    obtain ⟨name, rfl⟩ := List.length_eq_one_iff.mp single
    refine ⟨rfl, by simp, fun count positive bounded => ?_⟩
    rw [List.length_singleton] at bounded
    omega
  next =>
    obtain ⟨current, middle, _, _, first, last, rfl⟩ := attempts_bind_finished.mp ran
    obtain ⟨rfl, rfl⟩ := duplicate_ok first
    obtain ⟨rfl, rfl, directories⟩ := descend_ok (fun _ _ _ _ _ => openDirectoryAt_ok) last
    refine ⟨rfl, rfl, fun count positive bounded => ?_⟩
    have inside := directories count positive (by rw [List.length_dropLast]; omega)
    rwa [List.dropLast_eq_take, List.take_take, min_eq_left (by omega)] at inside

theorem openAbsoluteDirectory_ok {path : String} {found : Handle}
    (ran : (deviceFiles sha256Hex).Attempts (openAbsoluteDirectory path) before calls after
      (.ok found)) :
    after = before ∧ found = absoluteNames path ∧
      (absoluteNames path ≠ [] → IsDirectory before (absoluteNames path)) := by
  obtain ⟨_, middle, _, _, valid, rest, rfl⟩ := attempts_bind_finished.mp ran
  obtain ⟨_, rfl, _⟩ := demand_ok valid
  obtain ⟨root, middle, _, _, opens, walk, rfl⟩ := attempts_bind_finished.mp rest
  obtain ⟨_, _, _, answered⟩ := orFail_ok opens
  obtain ⟨isRoot, rfl⟩ := Prod.mk.inj answered
  obtain rfl := Except.ok.inj isRoot
  obtain ⟨rfl, rfl, directories⟩ := descend_ok (fun directory name found calls after named => by
    obtain ⟨_, middle, _, _, safe, opened, rfl⟩ := attempts_bind_finished.mp named
    obtain ⟨_, rfl, _⟩ := demand_ok safe
    exact openDirectoryAt_ok opened) walk
  refine ⟨rfl, rfl, fun filled => ?_⟩
  simpa using directories (absoluteNames path).length (List.length_pos_iff.mpr filled) le_rfl

theorem splitRelative_ok {path : String} {names : List String}
    (split : splitRelative path = .ok names) : names = pathNames path ∧ names ≠ [] := by
  rw [splitRelative] at split
  split at split
  next => exact nomatch split
  next =>
    obtain rfl := Except.ok.inj split
    exact ⟨rfl, by simp [pathNames, TextPath.parts, List.splitOn_ne_nil]⟩

def reviewedRoot (path : String) : Handle :=
  match aliasSuffix path with
  | some suffix =>
      absoluteNames canonicalBase ++ if suffix = "" then [] else pathNames suffix
  | none => absoluteNames path

theorem openSharedRoot_ok {suffix : String} {found : Handle}
    (ran : (deviceFiles sha256Hex).Attempts (openSharedRoot suffix) before calls after
      (.ok found)) :
    after = before ∧ found =
        absoluteNames canonicalBase ++ (if suffix = "" then [] else pathNames suffix) ∧
      IsDirectory before found := by
  obtain ⟨base, middle, _, _, opens, rest, rfl⟩ := attempts_bind_finished.mp ran
  obtain ⟨rfl, rfl, isDirectory⟩ := openAbsoluteDirectory_ok opens
  split at rest
  next empty =>
    obtain ⟨_, rfl, same⟩ := attempts_pure.mp rest
    obtain rfl := Except.ok.inj same
    exact ⟨rfl, by simp [empty], isDirectory (by decide)⟩
  next nonempty =>
    obtain ⟨names, middle, _, _, checked, descent, rfl⟩ := attempts_bind_finished.mp rest
    obtain ⟨_, rfl, valid⟩ := attempts_check.mp checked
    obtain ⟨rfl, filled⟩ := splitRelative_ok valid.symm
    obtain ⟨current, middle, _, _, copied, walk, rfl⟩ := attempts_bind_finished.mp descent
    obtain ⟨rfl, rfl⟩ := duplicate_ok copied
    obtain ⟨rfl, rfl, directories⟩ := descend_ok (fun _ _ _ _ _ => openDirectoryAt_ok) walk
    refine ⟨rfl, by rw [if_neg nonempty], ?_⟩
    simpa using directories _ (List.length_pos_iff.mpr filled) le_rfl

theorem openReviewedSelectedRoot_ok {path binding : String} {found : Handle}
    (ran : (deviceFiles sha256Hex).Attempts (openReviewedSelectedRoot path binding) before calls
      after (.ok found)) :
    found = reviewedRoot path ∧ (found ≠ [] → IsDirectory before found) := by
  have quiet := (quiet_openReviewedSelectedRoot path binding).tree ran
  unfold openReviewedSelectedRoot at ran
  unfold reviewedRoot
  cases suffix : aliasSuffix path with
  | some suffix =>
      simp only [suffix] at ran
      obtain ⟨_, _, _, _, _, bounded, rfl⟩ := attempts_bind_finished.mp ran
      obtain ⟨_, _, _, _, _, bound, rfl⟩ := attempts_bind_finished.mp bounded
      obtain ⟨_, _, _, _, _, opens, rfl⟩ := attempts_bind_finished.mp bound
      obtain ⟨rfl, same, isDirectory⟩ := openSharedRoot_ok opens
      refine ⟨same, fun _ => ?_⟩
      rwa [IsDirectory, quiet] at isDirectory
  | none =>
      simp only [suffix] at ran
      obtain ⟨_, _, _, _, _, bound, rfl⟩ := attempts_bind_finished.mp ran
      have opened : ∃ start calls, (deviceFiles sha256Hex).Attempts (openAbsoluteDirectory path)
          start calls after (.ok found) := by
        split at bound
        next =>
          obtain ⟨_, middle, _, last, _, opens, _⟩ := attempts_bind_finished.mp bound
          exact ⟨middle, last, opens⟩
        next => exact ⟨_, _, bound⟩
      obtain ⟨start, _, opens⟩ := opened
      obtain ⟨rfl, rfl, isDirectory⟩ := openAbsoluteDirectory_ok opens
      refine ⟨rfl, fun filled => ?_⟩
      have held := isDirectory filled
      rwa [IsDirectory, quiet] at held

end EmuChef.Helper
