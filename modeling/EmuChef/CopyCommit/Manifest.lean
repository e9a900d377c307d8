import EmuChef.Device
import EmuChef.Lib.Checks
import EmuChef.Lib.TextPath

/-! Manifests of copied trees: the checks, the reviewed deletion set, the expected result
and the simulated manifest of `copy_commit.rs`. -/

namespace EmuChef.CopyCommit

open Checks (require)

inductive CopyCommitOperation where
  | addUpdate
  | replace
  | mirror
  deriving DecidableEq

inductive CopyEntryKind where
  | directory
  | file
  deriving DecidableEq

structure CopyManifestEntry where
  relativePath : String
  kind : CopyEntryKind
  sha256 : Option String
  entryIdentity : Option String
  deriving DecidableEq

inductive CopyCommitError where
  | rejected (message : String)
  | stale (message : String)
  | io (message : String)
  | deviceOperation (error : DeviceOperationError)
  deriving DecidableEq

def CopyCommitError.toText : CopyCommitError → String
  | rejected message => "copy commit rejected: " ++ message
  | stale message => "copy commit stale: " ++ message
  | io message => "copy commit I/O failure: " ++ message
  | deviceOperation error => "copy commit device operation failed: " ++ error.message

inductive CopyCommitMutation where
  | ensureDirectory (relativePath : String)
  | removeFile (relativePath : String)
  | removeDirectory (relativePath : String)
  | publishFile (relativePath : String) (expectedSourceSha256 : String)
  deriving DecidableEq

def CopyCommitMutation.relativePath : CopyCommitMutation → String
  | ensureDirectory path | removeFile path | removeDirectory path | publishFile path _ => path

/-- The controls, formats, blanks, combining marks and private characters that a Debug text
escapes. -/
def escapedRanges : List (Nat × Nat) :=
  [(0, 0x1F), (0x7F, 0xA0), (0xAD, 0xAD), (0x300, 0x36F), (0x600, 0x605), (0x61C, 0x61C),
    (0x6DD, 0x6DD), (0x70F, 0x70F), (0x890, 0x891), (0x8E2, 0x8E2), (0x1680, 0x1680),
    (0x180B, 0x180F), (0x2000, 0x200F), (0x2028, 0x202F), (0x205F, 0x206F), (0x20D0, 0x20F0),
    (0x3000, 0x3000), (0xE000, 0xF8FF), (0xFE00, 0xFE0F), (0xFE20, 0xFE2F), (0xFEFF, 0xFEFF),
    (0xFFF0, 0xFFFB), (0xFFFE, 0xFFFF), (0x1BCA0, 0x1BCA3), (0x1D173, 0x1D17A), (0xE0000, 0x10FFFF)]

def escapeDebug : Char → List Char
  | '"' => ['\\', '"']
  | '\\' => ['\\', '\\']
  | '\n' => ['\\', 'n']
  | '\r' => ['\\', 'r']
  | '\t' => ['\\', 't']
  | '\x00' => ['\\', '0']
  | other =>
      if escapedRanges.any fun range => range.1 ≤ other.toNat && other.toNat ≤ range.2 then
        "\\u\x7b".toList ++ Nat.toDigits 16 other.toNat ++ ['\x7d']
      else [other]

def quoted (text : String) : String :=
  String.ofList (['"'] ++ text.toList.flatMap escapeDebug ++ ['"'])

example : quoted "a\x7f\u200b" = "\"a\\u\x7b7f\x7d\\u\x7b200b\x7d\"" := by decide

def checkedComponent : TextPath.Component → Except CopyCommitError String
  | .normal name =>
      if name = "" ∨ name = "." ∨ name = ".." ∨ '/' ∈ name.toList ∨ '\\' ∈ name.toList then
        .error (.rejected ("manifest path contains an unsafe component " ++ quoted name))
      else .ok name
  | _ => .error (.rejected "manifest path contains traversal or root components")

def checkedRelative (path : List TextPath.Component) : Except CopyCommitError String := do
  let names ← path.mapM checkedComponent
  require (names ≠ []) (.rejected "manifest path is empty")
  pure (TextPath.join names)

def kindByPath (manifest : List CopyManifestEntry) : Std.ExtTreeMap String CopyEntryKind :=
  Std.ExtTreeMap.ofList (manifest.map fun entry => (entry.relativePath, entry.kind))

def hasSourceFileAncestor (sourceByPath : Std.ExtTreeMap String CopyEntryKind)
    (relativePath : String) : Bool :=
  ((SlashPath.scanPrefixes '/' (TextPath.parts relativePath) []).map String.ofList).takeWhile
      (fun read => read ≠ relativePath)
    |>.any fun read => sourceByPath[read]? = some .file

def shouldDelete (operation : CopyCommitOperation)
    (sourceByPath : Std.ExtTreeMap String CopyEntryKind) (entry : CopyManifestEntry) : Bool :=
  let compatible := sourceByPath[entry.relativePath]? = some entry.kind
  match operation with
  | .addUpdate => false
  | .replace => true
  | .mirror => !compatible || hasSourceFileAncestor sourceByPath entry.relativePath

def parentComponents (path : String) : List (List TextPath.Component) :=
  let whole := TextPath.components path
  (List.range (whole.length - 1)).reverse.map fun above => whole.take (above + 1)

def checkAddUpdateParent (destinationByPath : Std.ExtTreeMap String CopyEntryKind)
    (parent : List TextPath.Component) : Except CopyCommitError Unit := do
  let parentRelative ← checkedRelative parent
  require (destinationByPath[parentRelative]? ≠ some .file)
    (.rejected ("Add/Update destination parent is a file: " ++ quoted parentRelative))

def checkAddUpdateEntry (destinationByPath : Std.ExtTreeMap String CopyEntryKind)
    (entry : CopyManifestEntry) : Except CopyCommitError Unit := do
  require ((destinationByPath[entry.relativePath]?).all (· = entry.kind))
    (.rejected ("Add/Update cannot change the object kind at " ++ quoted entry.relativePath))
  (parentComponents entry.relativePath).forM (checkAddUpdateParent destinationByPath)

def validateAddUpdateTypes (source destination : List CopyManifestEntry) :
    Except CopyCommitError Unit :=
  source.forM (checkAddUpdateEntry (kindByPath destination))

def validateTypes (operation : CopyCommitOperation) (source destination : List CopyManifestEntry) :
    Except CopyCommitError Unit :=
  match operation with
  | .addUpdate => validateAddUpdateTypes source destination
  | .replace | .mirror => .ok ()

def reviewedDeletions (operation : CopyCommitOperation)
    (source destination : List CopyManifestEntry) : Except CopyCommitError (List String) := do
  let sourceByPath := kindByPath source
  let deletions := (destination.filter (shouldDelete operation sourceByPath)).map (·.relativePath)
  validateTypes operation source destination
  pure (deletions.insertionSort (· ≤ ·))

def sortByPath (manifest : List CopyManifestEntry) : List CopyManifestEntry :=
  manifest.insertionSort fun left right => left.relativePath ≤ right.relativePath

def overlay (source destination : List CopyManifestEntry) :
    Std.ExtTreeMap String CopyManifestEntry :=
  let before : Std.ExtTreeMap String CopyManifestEntry :=
    Std.ExtTreeMap.ofList (destination.map fun entry => (entry.relativePath, entry))
  before.insertMany (source.map fun entry => (entry.relativePath, entry))

def expectedManifest (operation : CopyCommitOperation)
    (source destination : List CopyManifestEntry) : List CopyManifestEntry :=
  match operation with
  | .replace | .mirror => source
  | .addUpdate => (overlay source destination).toList.map Prod.snd

def findEntry (manifest : List CopyManifestEntry) (relativePath : String) :
    Option CopyManifestEntry :=
  manifest.find? fun entry => entry.relativePath = relativePath

def mutationEntryPrecondition (manifest : List CopyManifestEntry) (relativePath : String) :
    Except CopyCommitError String :=
  match findEntry manifest relativePath with
  | none => .ok "absent"
  | some entry =>
      match entry.entryIdentity with
      | none => .error (.rejected
          ("reviewed destination entry lacks a mutation identity: " ++ relativePath))
      | some identity =>
          match entry.kind with
          | .directory => .ok ("directory|" ++ identity)
          | .file =>
              match entry.sha256 with
              | none => .error (.rejected
                  ("reviewed destination file lacks a digest: " ++ relativePath))
              | some digest => .ok ("file|" ++ identity ++ "|" ++ digest)

def replaceEntry (manifest : List CopyManifestEntry) (relativePath : String)
    (replacement : Option CopyManifestEntry) : List CopyManifestEntry :=
  sortByPath (manifest.filter (·.relativePath ≠ relativePath) ++ replacement.toList)

def applyManifestMutation (manifest source : List CopyManifestEntry) :
    CopyCommitMutation → Except CopyCommitError (List CopyManifestEntry)
  | .removeFile path | .removeDirectory path => .ok (replaceEntry manifest path none)
  | .ensureDirectory path =>
      if manifest.any (·.relativePath = path) then .ok manifest
      else .ok (replaceEntry manifest path (some ⟨path, .directory, none, none⟩))
  | .publishFile path _ =>
      match findEntry source path with
      | none => .error (.rejected
          ("published path is absent from the reviewed source manifest: " ++ path))
      | some replacement => .ok (replaceEntry manifest path (some replacement))

def manifestPaths (manifest : List CopyManifestEntry) : List String :=
  manifest.map (·.relativePath)

def isHexDigit (char : Char) : Bool :=
  ('0' ≤ char && char ≤ '9') || ('a' ≤ char && char ≤ 'f') || ('A' ≤ char && char ≤ 'F')

def validDigest (digest : String) : Bool :=
  digest.utf8ByteSize = 64 && digest.toList.all isHexDigit

def validateDigest (entry : CopyManifestEntry) : Except CopyCommitError Unit :=
  match entry.kind, entry.sha256 with
  | .directory, none => pure ()
  | .directory, some _ => throw
      (.rejected ("directory manifest entry has a file digest: " ++ quoted entry.relativePath))
  | .file, none => throw
      (.rejected ("file manifest entry lacks a digest: " ++ quoted entry.relativePath))
  | .file, some digest => require (validDigest digest = true)
      (.rejected ("file manifest entry has an invalid digest: " ++ quoted entry.relativePath))

def validateEntry (kinds : Std.ExtTreeMap String CopyEntryKind) (entry : CopyManifestEntry) :
    Except CopyCommitError (Std.ExtTreeMap String CopyEntryKind) := do
  let canonical ← checkedRelative (TextPath.components entry.relativePath)
  require (canonical = entry.relativePath)
    (.rejected ("manifest path is not canonical: " ++ quoted entry.relativePath))
  require (kinds[entry.relativePath]? = none)
    (.rejected ("manifest contains duplicate path " ++ quoted entry.relativePath))
  validateDigest entry
  pure (kinds.insert entry.relativePath entry.kind)

def checkNotBeneathFile (kinds : Std.ExtTreeMap String CopyEntryKind)
    (entry : CopyManifestEntry) : Except CopyCommitError Unit :=
  let components := TextPath.parts entry.relativePath
  (List.range (components.length - 1)).forM fun above =>
    let parent := String.ofList (['/'].intercalate (components.take (above + 1)))
    require (kinds[parent]? ≠ some .file)
      (.rejected ("manifest path " ++ quoted entry.relativePath ++ " is beneath a file entry"))

def validateManifest (manifest : List CopyManifestEntry) : Except CopyCommitError Unit := do
  let kinds ← manifest.foldlM validateEntry ∅
  manifest.forM (checkNotBeneathFile kinds)

def kindName : CopyEntryKind → String
  | .directory => "Directory"
  | .file => "File"

def manifestPreimage (manifest : List CopyManifestEntry) : List UInt8 :=
  let bytes (text : String) : List UInt8 := text.toByteArray.toList
  manifest.flatMap fun entry =>
    bytes entry.relativePath ++ [0] ++ bytes (kindName entry.kind) ++ [0] ++
      (entry.sha256.elim [] bytes) ++ [0] ++ (entry.entryIdentity.elim [] bytes) ++ bytes "\n"

def CopyManifestEntry.content (entry : CopyManifestEntry) :
    String × CopyEntryKind × Option String :=
  (entry.relativePath, entry.kind, entry.sha256)

def manifestContentMatches (observed expected : List CopyManifestEntry) : Bool :=
  observed.length = expected.length &&
    (observed.zip expected).all fun pair =>
      pair.1.relativePath = pair.2.relativePath && pair.1.kind = pair.2.kind &&
        pair.1.sha256 = pair.2.sha256

/-! Lookups in a manifest whose paths are all different. -/

def UniquePaths (manifest : List CopyManifestEntry) : Prop :=
  (manifestPaths manifest).Nodup

variable {destination manifest source : List CopyManifestEntry} {path : String}
  {entry : CopyManifestEntry}

theorem UniquePaths.eq_of_path (unique : UniquePaths manifest) {left right : CopyManifestEntry}
    (leftMem : left ∈ manifest) (rightMem : right ∈ manifest)
    (same : left.relativePath = right.relativePath) : left = right :=
  List.inj_on_of_nodup_map unique leftMem rightMem same

theorem findEntry_eq_some (unique : UniquePaths manifest) :
    findEntry manifest path = some entry ↔ entry ∈ manifest ∧ entry.relativePath = path := by
  constructor
  · intro found
    exact ⟨List.mem_of_find?_eq_some found, by simpa using List.find?_some found⟩
  · rintro ⟨member, rfl⟩
    cases found : findEntry manifest entry.relativePath with
    | none =>
        have absent := List.find?_eq_none.mp found entry member
        simp at absent
    | some other =>
        have otherMem := List.mem_of_find?_eq_some found
        have otherPath : other.relativePath = entry.relativePath := by
          simpa using List.find?_some found
        rw [unique.eq_of_path otherMem member otherPath]

theorem findEntry_eq_none :
    findEntry manifest path = none ↔ ∀ entry ∈ manifest, entry.relativePath ≠ path := by
  simp [findEntry]

theorem findEntry_path (found : findEntry manifest path = some entry) :
    entry.relativePath = path := by
  simpa using List.find?_some found

theorem findEntry_congr {left right : List CopyManifestEntry} (leftUnique : UniquePaths left)
    (rightUnique : UniquePaths right)
    (same : ∀ entry, entry.relativePath = path → (entry ∈ left ↔ entry ∈ right)) :
    findEntry left path = findEntry right path := by
  apply Option.ext
  intro entry
  rw [findEntry_eq_some leftUnique, findEntry_eq_some rightUnique]
  exact and_congr_left (same entry)

theorem getElem?_insertMany_paths {β : Type} (unique : UniquePaths manifest)
    (value : CopyManifestEntry → β) (before : Std.ExtTreeMap String β) (path : String) :
    (before.insertMany (manifest.map fun entry => (entry.relativePath, value entry)))[path]? =
      ((findEntry manifest path).map value).or before[path]? := by
  have distinct : (manifest.map fun entry => (entry.relativePath, value entry)).Pairwise
      fun left right => ¬compare left.1 right.1 = .eq := by
    rw [List.pairwise_map]
    refine (List.pairwise_map.mp unique).imp fun different => ?_
    simpa using different
  cases found : findEntry manifest path with
  | none =>
      rw [Std.ExtTreeMap.getElem?_insertMany_list_of_contains_eq_false]
      · rfl
      · have absent := findEntry_eq_none.mp found
        simpa [Function.comp_def] using absent
  | some entry =>
      obtain ⟨member, rfl⟩ := (findEntry_eq_some unique).mp found
      exact Std.ExtTreeMap.getElem?_insertMany_list_of_mem (by simp) distinct
        (List.mem_map.mpr ⟨entry, member, rfl⟩)

theorem getElem?_ofList_paths {β : Type} (unique : UniquePaths manifest)
    (value : CopyManifestEntry → β) (path : String) :
    (Std.ExtTreeMap.ofList (manifest.map fun entry => (entry.relativePath, value entry)))[path]? =
      (findEntry manifest path).map value := by
  rw [Std.ExtTreeMap.ofList_eq_insertMany_empty, getElem?_insertMany_paths unique]
  simp

theorem kindByPath_get (unique : UniquePaths manifest) (path : String) :
    (kindByPath manifest)[path]? = (findEntry manifest path).map (·.kind) :=
  getElem?_ofList_paths unique _ path

@[simp] theorem mem_sortByPath :
    entry ∈ sortByPath manifest ↔ entry ∈ manifest :=
  List.mem_insertionSort _

theorem uniquePaths_sortByPath :
    UniquePaths (sortByPath manifest) ↔ UniquePaths manifest :=
  ((List.perm_insertionSort _ manifest).map _).nodup_iff

variable {replacement : Option CopyManifestEntry}

theorem mem_replaceEntry : entry ∈ replaceEntry manifest path replacement ↔
      (entry ∈ manifest ∧ entry.relativePath ≠ path) ∨ replacement = some entry := by
  simp [replaceEntry]

theorem uniquePaths_replaceEntry (unique : UniquePaths manifest)
    (placed : ∀ entry, replacement = some entry → entry.relativePath = path) :
    UniquePaths (replaceEntry manifest path replacement) := by
  rw [replaceEntry, uniquePaths_sortByPath, UniquePaths, manifestPaths, List.map_append,
    List.nodup_append]
  refine ⟨unique.sublist (List.filter_sublist.map _), ?_, ?_⟩
  · cases replacement <;> simp
  · intro left leftMem right rightMem
    obtain ⟨entry, found, rfl⟩ := List.mem_map.mp rightMem
    rw [placed entry (by simpa using found)]
    obtain ⟨kept, keptMem, rfl⟩ := List.mem_map.mp leftMem
    simpa using (List.mem_filter.mp keptMem).2

theorem findEntry_replaceEntry {query : String} (unique : UniquePaths manifest)
    (placed : ∀ entry, replacement = some entry → entry.relativePath = path) :
    findEntry (replaceEntry manifest path replacement) query =
      if query = path then replacement else findEntry manifest query := by
  have replacedUnique := uniquePaths_replaceEntry unique placed
  split
  next same =>
    subst same
    apply Option.ext
    intro entry
    rw [findEntry_eq_some replacedUnique, mem_replaceEntry]
    constructor
    · rintro ⟨⟨_, different⟩ | found, here⟩
      · exact absurd here different
      · exact found
    · exact fun found => ⟨.inr found, placed entry found⟩
  next different =>
    apply findEntry_congr replacedUnique unique
    intro entry here
    rw [mem_replaceEntry]
    constructor
    · rintro (⟨member, _⟩ | found)
      · exact member
      · exact absurd (here.symm.trans (placed entry found)) different
    · exact fun member => .inl ⟨member, here ▸ different⟩

theorem applyManifestMutation_ok {next : List CopyManifestEntry} {mutation : CopyCommitMutation}
    (unique : UniquePaths manifest)
    (simulated : applyManifestMutation manifest source mutation = .ok next) :
    UniquePaths next ∧ ∀ query, query ≠ mutation.relativePath →
      findEntry next query = findEntry manifest query := by
  have replaced : ∀ (path : String) (replacement : Option CopyManifestEntry),
      (∀ entry, replacement = some entry → entry.relativePath = path) →
      UniquePaths (replaceEntry manifest path replacement) ∧ ∀ query, query ≠ path →
        findEntry (replaceEntry manifest path replacement) query = findEntry manifest query := by
    intro path replacement placed
    refine ⟨uniquePaths_replaceEntry unique placed, fun query different => ?_⟩
    rw [findEntry_replaceEntry unique placed, if_neg different]
  cases mutation with
  | ensureDirectory path =>
      simp only [applyManifestMutation] at simulated
      split at simulated
      next =>
        obtain rfl := Except.ok.inj simulated
        exact ⟨unique, fun _ _ => rfl⟩
      next =>
        obtain rfl := Except.ok.inj simulated
        exact replaced path _ (by simp)
  | removeFile path =>
      obtain rfl := Except.ok.inj simulated
      exact replaced path none (by simp)
  | removeDirectory path =>
      obtain rfl := Except.ok.inj simulated
      exact replaced path none (by simp)
  | publishFile path digest =>
      simp only [applyManifestMutation] at simulated
      split at simulated
      next => simp at simulated
      next replacement found =>
        obtain rfl := Except.ok.inj simulated
        refine replaced path (some replacement) fun entry same => ?_
        rw [← Option.some.inj same]
        exact findEntry_path found

def SortedPaths (manifest : List CopyManifestEntry) : Prop :=
  manifest.Pairwise fun left right => left.relativePath < right.relativePath

theorem SortedPaths.unique (sorted : SortedPaths manifest) :
    UniquePaths manifest :=
  List.pairwise_map.mpr (sorted.imp fun before => before.ne)

theorem content_eq_of_findEntry {left right : List CopyManifestEntry}
    (leftSorted : SortedPaths left) (rightSorted : SortedPaths right)
    (same : ∀ path, (findEntry left path).map (·.content) =
      (findEntry right path).map (·.content)) :
    left.map (·.content) = right.map (·.content) := by
  let before (first second : String × CopyEntryKind × Option String) : Prop :=
    first.1 < second.1
  have irreflexive : Std.Irrefl before := ⟨fun content => lt_irrefl content.1⟩
  have antisymmetric : Std.Antisymm before :=
    ⟨fun first second upper lower => absurd lower (lt_asymm upper)⟩
  have found : ∀ {manifest : List CopyManifestEntry}, SortedPaths manifest → ∀ content,
      content ∈ manifest.map (·.content) ↔
        (findEntry manifest content.1).map (·.content) = some content := by
    intro manifest sorted content
    rw [List.mem_map, Option.map_eq_some_iff]
    constructor
    · rintro ⟨entry, member, rfl⟩
      exact ⟨entry, (findEntry_eq_some sorted.unique).mpr ⟨member, rfl⟩, rfl⟩
    · rintro ⟨entry, isFound, made⟩
      exact ⟨entry, ((findEntry_eq_some sorted.unique).mp isFound).1, made⟩
  have leftBefore : (left.map (·.content)).Pairwise before := List.pairwise_map.mpr leftSorted
  have rightBefore : (right.map (·.content)).Pairwise before := List.pairwise_map.mpr rightSorted
  refine leftBefore.eq_of_mem_iff rightBefore fun content => ?_
  rw [found leftSorted, found rightSorted, same]

theorem overlay_get (sourceUnique : UniquePaths source)
    (destinationUnique : UniquePaths destination) (path : String) :
    (overlay source destination)[path]? =
      (findEntry source path).or (findEntry destination path) := by
  have merged := getElem?_insertMany_paths sourceUnique id
    (Std.ExtTreeMap.ofList (destination.map fun entry => (entry.relativePath, id entry))) path
  rw [getElem?_ofList_paths destinationUnique] at merged
  simpa [overlay] using merged

theorem overlay_path (sourceUnique : UniquePaths source)
    (destinationUnique : UniquePaths destination)
    (member : (path, entry) ∈ (overlay source destination).toList) :
    entry.relativePath = path := by
  rw [Std.ExtTreeMap.mem_toList_iff_getElem?_eq_some,
    overlay_get sourceUnique destinationUnique] at member
  rcases Option.or_eq_some_iff.mp member with first | ⟨_, second⟩
  · exact findEntry_path first
  · exact findEntry_path second

theorem overlay_sorted (sourceUnique : UniquePaths source)
    (destinationUnique : UniquePaths destination) :
    SortedPaths (expectedManifest .addUpdate source destination) := by
  rw [SortedPaths, expectedManifest, List.pairwise_map]
  refine Std.ExtTreeMap.ordered_keys_toList.imp_of_mem fun leftMem rightMem before => ?_
  rw [overlay_path sourceUnique destinationUnique leftMem,
    overlay_path sourceUnique destinationUnique rightMem]
  exact compare_lt_iff_lt.mp before

theorem findEntry_overlay (sourceUnique : UniquePaths source)
    (destinationUnique : UniquePaths destination) (path : String) :
    findEntry (expectedManifest .addUpdate source destination) path =
      (findEntry source path).or (findEntry destination path) := by
  apply Option.ext
  intro entry
  rw [findEntry_eq_some (overlay_sorted sourceUnique destinationUnique).unique,
    ← overlay_get sourceUnique destinationUnique]
  simp only [expectedManifest, List.mem_map, Prod.exists, exists_eq_right]
  constructor
  · rintro ⟨⟨key, member⟩, rfl⟩
    rw [overlay_path sourceUnique destinationUnique member]
    exact Std.ExtTreeMap.mem_toList_iff_getElem?_eq_some.mp member
  · intro found
    have member := Std.ExtTreeMap.mem_toList_iff_getElem?_eq_some.mpr found
    exact ⟨⟨path, member⟩, overlay_path sourceUnique destinationUnique member⟩

/-- Two listings match if they agree but for the identities. -/
theorem manifestContentMatches_iff {observed expected : List CopyManifestEntry} :
    manifestContentMatches observed expected = true ↔
      observed.map (·.content) = expected.map (·.content) := by
  induction observed generalizing expected with
  | nil => cases expected <;> simp [manifestContentMatches]
  | cons entry observed ih =>
      cases expected with
      | nil => simp [manifestContentMatches]
      | cons other expected =>
          have tail : manifestContentMatches observed expected = true ↔ _ := ih
          simp only [manifestContentMatches, Bool.and_eq_true, decide_eq_true_eq] at tail
          simp only [manifestContentMatches, List.length_cons, List.zip_cons_cons, List.all_cons,
            List.map_cons, List.cons.injEq, Bool.and_eq_true, decide_eq_true_eq, ← tail,
            Nat.add_right_cancel_iff]
          simp only [CopyManifestEntry.content, Prod.mk.injEq]
          tauto

theorem reviewedDeletions_eq_ok {operation : CopyCommitOperation} {deletions : List String}
    (reviewed : reviewedDeletions operation source destination = .ok deletions) :
    deletions = ((destination.filter (shouldDelete operation (kindByPath source))).map
        (·.relativePath)).insertionSort (· ≤ ·) ∧
      (operation = .addUpdate → validateAddUpdateTypes source destination = .ok ()) := by
  obtain ⟨_, valid, found⟩ := Checks.bind_eq_ok.mp reviewed
  refine ⟨(Except.ok.inj found).symm, ?_⟩
  rintro rfl
  exact valid

theorem nodup_reviewedDeletions {operation : CopyCommitOperation} {deletions : List String}
    (unique : UniquePaths destination)
    (reviewed : reviewedDeletions operation source destination = .ok deletions) :
    deletions.Nodup := by
  rw [(reviewedDeletions_eq_ok reviewed).1, (List.perm_insertionSort _ _).nodup_iff]
  exact unique.sublist (List.filter_sublist.map _)

end EmuChef.CopyCommit
