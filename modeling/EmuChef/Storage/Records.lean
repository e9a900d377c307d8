import EmuChef.Lib.RecordMerge
import EmuChef.Storage.Report

/-! What the records of a mount dump say, apart from the order in which they stand. -/

namespace EmuChef.Storage

open Adb (toAsciiLowercase trim)
open RecordMerge (Merge)

def clash {β : Type} (same : β → β → Bool) : List β → Bool
  | [] => false
  | first :: rest => rest.any fun other => !same first other

theorem clash_append_toList {β : Type} {same : β → β → Bool} {values : List β} {next : Option β} :
    clash same (values ++ next.toList) =
      (clash same values ||
        values.head?.any fun first => next.any fun value => !same first value) := by
  cases values with
  | nil => cases next <;> rfl
  | cons first rest => cases next <;> simp [clash]

def factsOf {β : Type} (key : String) (read : Text → Option β) (tokens : List (Text × Text)) :
    List β :=
  tokens.filterMap fun token => if String.ofList token.1 = key then read token.2 else none

theorem factsOf_append {β : Type} {key : String} {read : Text → Option β}
    {first second : List (Text × Text)} :
    factsOf key read (first ++ second) = factsOf key read first ++ factsOf key read second :=
  List.filterMap_append

theorem factsOf_same {β : Type} {key : String} {read : Text → Option β} {token : Text × Text}
    (same : String.ofList token.1 = key) : factsOf key read [token] = (read token.2).toList := by
  cases found : read token.2
  all_goals simp [factsOf, same, found]

theorem factsOf_other {β : Type} {key : String} {read : Text → Option β} {token : Text × Text}
    (other : String.ofList token.1 ≠ key) : factsOf key read [token] = [] := by
  simp [factsOf, other]

def knownType (value : Text) : Option MountVolumeType :=
  if typeFromText value = .unknown then none else some (typeFromText value)

def namedValue (value : Text) : Option Text :=
  if isNull (trim value) then none else some (trim value)

def typeFacts : List (Text × Text) → List MountVolumeType := factsOf "type" knownType

def diskFacts : List (Text × Text) → List Text := factsOf "diskid" normalizeDiskId

def userFacts : List (Text × Text) → List Int := factsOf "mountuserid" parseI64

def flagFacts : List (Text × Text) → List Text := factsOf "mountflags" namedValue

def stateFacts : List (Text × Text) → List Text :=
  factsOf "state" fun value => (namedValue value).map toAsciiUppercase

def uuidFacts : List (Text × Text) → List Text := factsOf "fsuuid" namedValue

def pathFacts : List (Text × Text) → List Text := factsOf "path" namedValue

def internalPathFacts : List (Text × Text) → List Text := factsOf "internalpath" namedValue

def exactly {β : Type} [DecidableEq β] (first second : β) : Bool := first = second

def clashes (tokens : List (Text × Text)) : Bool :=
  clash exactly (typeFacts tokens) || clash exactly (diskFacts tokens) ||
    clash exactly (userFacts tokens) || clash exactly (flagFacts tokens) ||
    clash eqIgnoreAsciiCase (stateFacts tokens) ||
    clash eqIgnoreAsciiCase (uuidFacts tokens) || clash exactly (pathFacts tokens) ||
    clash exactly (internalPathFacts tokens)

def summary (id : Text) (tokens : List (Text × Text)) : MountVolume where
  id
  volumeType := (typeFacts tokens).head?.getD .unknown
  diskId := (diskFacts tokens).head?
  state := (stateFacts tokens).head?.getD []
  fsUuid := (uuidFacts tokens).head?
  path := (pathFacts tokens).head?
  internalPath := (internalPathFacts tokens).head?
  mountFlags := (flagFacts tokens).head?
  mountUserId := (userFacts tokens).head?
  visible := (flagFacts tokens).head?.map parseVolumeVisibility
  contradictory := clashes tokens

theorem toLower_toUpper (letter : Char) : letter.toUpper.toLower = letter.toLower := by
  by_cases small : letter.toNat < 123
  · have listed : ∀ code < 123, (Char.ofNat code).toUpper.toLower = (Char.ofNat code).toLower := by
      decide
    have found := listed letter.toNat small
    rwa [Char.ofNat_toNat] at found
  · have kept : letter.toUpper = letter := by
      refine dif_neg fun within => small ?_
      exact Nat.lt_succ_of_le (UInt32.le_iff_toNat_le.mp within.2)
    rw [kept]

theorem toUpper_toLower (letter : Char) : letter.toLower.toUpper = letter.toUpper := by
  by_cases small : letter.toNat < 91
  · have listed : ∀ code < 91, (Char.ofNat code).toLower.toUpper = (Char.ofNat code).toUpper := by
      decide
    have found := listed letter.toNat small
    rwa [Char.ofNat_toNat] at found
  · have kept : letter.toLower = letter := by
      refine dif_neg fun within => small ?_
      exact Nat.lt_succ_of_le (UInt32.le_iff_toNat_le.mp within.2)
    rw [kept]

theorem eqIgnoreAsciiCase_upper {left right : Text} :
    eqIgnoreAsciiCase left (toAsciiUppercase right) = eqIgnoreAsciiCase left right := by
  have same : toAsciiLowercase (toAsciiUppercase right) = toAsciiLowercase right := by
    rw [toAsciiLowercase, toAsciiLowercase, toAsciiUppercase, List.map_map]
    exact List.map_congr_left fun letter _ => toLower_toUpper letter
  rw [eqIgnoreAsciiCase, eqIgnoreAsciiCase, same]

section

variable (volume : MountVolume) (value : Text)

theorem mergeVolumeType_eq {facts : List MountVolumeType} (known : .unknown ∉ facts)
    (held : volume.volumeType = facts.head?.getD .unknown) :
    mergeVolumeType volume value = { volume with
      volumeType := (facts ++ (knownType value).toList).head?.getD .unknown
      contradictory := volume.contradictory ||
        facts.head?.any fun first => (knownType value).any fun next => !exactly first next } := by
  obtain ⟨id, volumeType, _, _, _, _, _, _, _, _, _⟩ := volume
  subst held
  unfold mergeVolumeType knownType
  cases facts with
  | nil =>
      by_cases unknown : typeFromText value = .unknown
      · simp [unknown]
      · simp [unknown]
  | cons first rest =>
      have named : first ≠ .unknown := fun same => known (same ▸ List.mem_cons_self)
      by_cases unknown : typeFromText value = .unknown
      · simp [unknown, named]
      · by_cases agrees : typeFromText value = first
        · simp [agrees, named, exactly]
        · simp [unknown, named, agrees, Ne.symm agrees, exactly]

theorem mergeVolumeDiskId_eq {facts : List Text} (held : volume.diskId = facts.head?) :
    mergeVolumeDiskId volume value = { volume with
      diskId := (facts ++ (normalizeDiskId value).toList).head?
      contradictory := volume.contradictory ||
        facts.head?.any fun first =>
          (normalizeDiskId value).any fun next => !exactly first next } := by
  obtain ⟨_, _, diskId, _, _, _, _, _, _, _, _⟩ := volume
  subst held
  unfold mergeVolumeDiskId
  generalize normalizeDiskId value = next
  cases facts with
  | nil => cases next <;> simp
  | cons first rest =>
      cases next with
      | none => simp
      | some next =>
          by_cases agrees : first = next
          · simp [agrees, exactly]
          · simp [agrees, exactly]

theorem mergeVolumeMountUser_eq {facts : List Int} (held : volume.mountUserId = facts.head?) :
    mergeVolumeMountUser volume value = { volume with
      mountUserId := (facts ++ (parseI64 value).toList).head?
      contradictory := volume.contradictory ||
        facts.head?.any fun first => (parseI64 value).any fun next => !exactly first next } := by
  obtain ⟨_, _, _, _, _, _, _, _, mountUserId, _, _⟩ := volume
  subst held
  unfold mergeVolumeMountUser
  generalize parseI64 value = next
  cases facts with
  | nil => cases next <;> simp
  | cons first rest =>
      cases next with
      | none => simp
      | some next =>
          by_cases agrees : first = next
          · simp [agrees, exactly]
          · simp [agrees, exactly]

theorem mergeVolumeMountFlags_eq {facts : List Text} (held : volume.mountFlags = facts.head?)
    (seen : volume.visible = facts.head?.map parseVolumeVisibility) :
    mergeVolumeMountFlags volume value = { volume with
      mountFlags := (facts ++ (namedValue value).toList).head?
      visible := (facts ++ (namedValue value).toList).head?.map parseVolumeVisibility
      contradictory := volume.contradictory ||
        facts.head?.any fun first => (namedValue value).any fun next => !exactly first next } := by
  obtain ⟨_, _, _, _, _, _, _, mountFlags, _, visible, _⟩ := volume
  subst held
  subst seen
  unfold mergeVolumeMountFlags namedValue
  cases facts with
  | nil =>
      by_cases null : isNull (trim value) = true
      · simp [null]
      · simp [null]
  | cons first rest =>
      by_cases null : isNull (trim value) = true
      · simp [null]
      · by_cases agrees : first = trim value
        · simp [null, agrees, exactly]
        · simp [null, agrees, exactly]

theorem mergeVolumeState_eq {facts : List Text} (named : [] ∉ facts)
    (held : volume.state = facts.head?.getD []) :
    mergeVolumeState volume value = { volume with
      state := (facts ++ ((namedValue value).map toAsciiUppercase).toList).head?.getD []
      contradictory := volume.contradictory ||
        facts.head?.any fun first => ((namedValue value).map toAsciiUppercase).any fun next =>
          !eqIgnoreAsciiCase first next } := by
  obtain ⟨_, _, _, state, _, _, _, _, _, _, _⟩ := volume
  subst held
  unfold mergeVolumeState namedValue
  cases facts with
  | nil =>
      by_cases null : isNull (trim value) = true
      · simp [null]
      · simp [null]
  | cons first rest =>
      have present : first ≠ [] := fun same => named (same ▸ List.mem_cons_self)
      by_cases null : isNull (trim value) = true
      · simp [null]
      · by_cases agrees : eqIgnoreAsciiCase first (trim value) = true
        · simp [null, present, agrees, eqIgnoreAsciiCase_upper]
        · simp [null, present, agrees, eqIgnoreAsciiCase_upper]

theorem mergeVolumeOption_eq {facts : List Text} {caseInsensitive : Bool} :
    mergeVolumeOption value facts.head? caseInsensitive =
      ((facts ++ (namedValue value).toList).head?, facts.head?.any fun first =>
        (namedValue value).any fun next =>
          !(if caseInsensitive then eqIgnoreAsciiCase first next else exactly first next)) := by
  unfold mergeVolumeOption namedValue
  cases facts with
  | nil =>
      by_cases null : isNull (trim value) = true
      · simp [null]
      · simp [null]
  | cons first rest =>
      by_cases null : isNull (trim value) = true
      · simp [null]
      · simp [null, exactly]

theorem unknown_notMem_typeFacts {tokens : List (Text × Text)} : .unknown ∉ typeFacts tokens := by
  intro member
  obtain ⟨token, -, found⟩ := List.mem_filterMap.mp member
  split at found
  next =>
    unfold knownType at found
    split at found
    next => cases found
    next known => exact known (Option.some.inj found)
  next => cases found

theorem nil_notMem_stateFacts {tokens : List (Text × Text)} : [] ∉ stateFacts tokens := by
  intro member
  obtain ⟨token, -, found⟩ := List.mem_filterMap.mp member
  split at found
  next =>
    obtain ⟨value, named, empty⟩ := Option.map_eq_some_iff.mp found
    unfold namedValue at named
    split at named
    next => cases named
    next present =>
      cases named
      rw [List.map_eq_nil_iff.mp empty] at present
      exact present rfl
  next => cases found

section

variable {id : Text} {tokens : List (Text × Text)} {token : Text × Text}

theorem summary_append (id : Text) (tokens : List (Text × Text)) (token : Text × Text) :
    applyVolumeToken (summary id tokens) token = summary id (tokens ++ [token]) := by
  unfold applyVolumeToken
  split
  case h_9 notType notDisk notUser notFlags notState notUuid notPath notInternal =>
    simp only [summary, clashes, typeFacts, diskFacts, userFacts, flagFacts, stateFacts, uuidFacts,
      pathFacts, internalPathFacts, factsOf_append, factsOf_other notType, factsOf_other notDisk,
      factsOf_other notUser, factsOf_other notFlags, factsOf_other notState,
      factsOf_other notUuid, factsOf_other notPath, factsOf_other notInternal, List.append_nil]
  all_goals first
    | rw [mergeVolumeType_eq _ _ unknown_notMem_typeFacts rfl]
    | rw [mergeVolumeDiskId_eq _ _ rfl]
    | rw [mergeVolumeMountUser_eq _ _ rfl]
    | rw [mergeVolumeMountFlags_eq _ _ rfl rfl]
    | rw [mergeVolumeState_eq _ _ nil_notMem_stateFacts rfl]
    | simp only [summary, mergeVolumeOption_eq]
  -- Only the facts of the token's own key grow; the clashes are the same in another order.
  all_goals
    simp [summary, clashes, typeFacts, diskFacts, userFacts, flagFacts, stateFacts, uuidFacts,
      pathFacts, internalPathFacts, factsOf_append, factsOf_same, factsOf_other,
      clash_append_toList, *]
  all_goals ac_rfl

theorem foldl_applyVolumeToken (id : Text) (tokens : List (Text × Text)) :
    tokens.foldl applyVolumeToken (.new id) = summary id tokens := by
  induction tokens using List.reverseRecOn with
  | nil => rfl
  | append_singleton tokens token ih =>
      rw [List.foldl_append, ih]
      exact summary_append id tokens token

end

@[simp] theorem id_mergeVolumeType : (mergeVolumeType volume value).id = volume.id := by
  unfold mergeVolumeType
  dsimp only
  split_ifs
  all_goals rfl

@[simp] theorem id_mergeVolumeDiskId : (mergeVolumeDiskId volume value).id = volume.id := by
  unfold mergeVolumeDiskId
  split
  next => rfl
  next =>
    split_ifs
    all_goals rfl
  next => rfl

@[simp] theorem id_mergeVolumeMountUser : (mergeVolumeMountUser volume value).id = volume.id := by
  unfold mergeVolumeMountUser
  split
  next => rfl
  next =>
    split
    next => rfl
    next =>
      split_ifs
      all_goals rfl

@[simp] theorem id_mergeVolumeMountFlags : (mergeVolumeMountFlags volume value).id = volume.id := by
  unfold mergeVolumeMountFlags
  dsimp only
  split_ifs
  next => rfl
  next =>
    split
    next =>
      split_ifs
      all_goals rfl
    next => rfl

@[simp] theorem id_mergeVolumeState : (mergeVolumeState volume value).id = volume.id := by
  unfold mergeVolumeState
  dsimp only
  split_ifs
  all_goals rfl

theorem id_applyVolumeToken (token : Text × Text) :
    (applyVolumeToken volume token).id = volume.id := by
  unfold applyVolumeToken
  split
  all_goals simp

theorem id_applyVolumeTokens (line : Text) : (applyVolumeTokens volume line).id = volume.id := by
  unfold applyVolumeTokens
  generalize keyValues line = tokens
  induction tokens generalizing volume with
  | nil => rfl
  | cons token rest ih => exact (ih (applyVolumeToken volume token)).trans (id_applyVolumeToken _ _)

theorem diskId_applyDiskTokens (disk : MountDisk) (line : Text) :
    (applyDiskTokens disk line).diskId = disk.diskId := by
  unfold applyDiskTokens
  split
  next => rfl
  next =>
    split_ifs
    all_goals rfl

end

def volumeMerge : Merge Text MountVolume Text where
  shared := fun _ => true
  fresh := .new
  key := MountVolume.id
  apply := applyVolumeTokens
  key_fresh := fun _ => rfl
  key_apply := id_applyVolumeTokens

def diskMerge : Merge (Option Text) MountDisk Text where
  shared := Option.isSome
  fresh := .new
  key := MountDisk.diskId
  apply := applyDiskTokens
  key_fresh := fun _ => rfl
  key_apply := diskId_applyDiskTokens

theorem upsertVolume_eq (volumes : List MountVolume) (id : Text) :
    upsertVolume volumes id = volumeMerge.upsert volumes id := by
  simp only [upsertVolume, Merge.upsert, volumeMerge, Bool.true_and]
  rfl

theorem upsertDisk_eq (disks : List MountDisk) (diskId : Option Text) :
    upsertDisk disks diskId = diskMerge.upsert disks diskId := rfl

theorem applyAll_volume (id : Text) (body : List Text) :
    volumeMerge.applyAll (.new id) body = summary id (body.flatMap keyValues) := by
  rw [← foldl_applyVolumeToken, List.foldl_flatMap]
  rfl

def diskSummary (diskId : Option Text) (facts : List DiskFlags) : MountDisk :=
  ⟨diskId, facts.head?.getD .none, facts.head?.isSome, clash exactly facts⟩

theorem applyDiskTokens_summary (diskId : Option Text) (facts : List DiskFlags) (line : Text) :
    applyDiskTokens (diskSummary diskId facts) line =
      diskSummary diskId (facts ++ (lineFlags line).toList) := by
  unfold applyDiskTokens
  cases shown : lineFlags line with
  | none => simp
  | some flags =>
      cases facts with
      | nil => rfl
      | cons first rest =>
          by_cases agrees : first = flags
          · simp [diskSummary, clash, agrees, exactly]
          · simp [diskSummary, clash, agrees, exactly]

theorem applyAll_disk (diskId : Option Text) (body : List Text) :
    diskMerge.applyAll (.new diskId) body = diskSummary diskId (body.filterMap lineFlags) := by
  induction body using List.reverseRecOn with
  | nil => rfl
  | append_singleton body line ih =>
      rw [RecordMerge.applyAll_append, ih]
      refine (applyDiskTokens_summary diskId _ line).trans ?_
      rw [List.filterMap_append]
      cases shown : lineFlags line
      all_goals simp [shown]

end EmuChef.Storage
