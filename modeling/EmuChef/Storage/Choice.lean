import EmuChef.Storage.Reorder
import Mathlib.Data.List.DropRight

/-! What backs internal storage, as the records of a dump settle it. -/

namespace EmuChef.Storage

open Adb (toAsciiLowercase trim)

section

inductive InternalChoice where
  | emulated (first : MountVolume) (others : List MountVolume) (reasons : List String)
  | physical (volume : MountVolume)
  | refused (entry : DeviceVolume)

variable (digest : Digest) (dump : MountDump)

def unavailableChoice (reason : String) : InternalChoice :=
  .refused (unavailableInternal digest reason)

def ambiguousChoice (reason : String) : InternalChoice := .refused (ambiguousInternal digest reason)

def soleChoice (volumes : List MountVolume) (one : MountVolume → InternalChoice)
    (several : String) : InternalChoice :=
  match volumes with
  | [volume] => one volume
  | [] => unavailableChoice digest "primary_storage_missing"
  | _ => ambiguousChoice digest several

def builtInChoice : InternalChoice :=
  let emulated := emulatedVolumes dump
  if emulated.isEmpty then unavailableChoice digest "primary_storage_unresolved"
  else if emulated.any (userConflict 0) ||
      (emulated.length = 1 && emulated.all fun volume => volume.emulatedUserEvidence = .conflict) then
    ambiguousChoice digest "emulated_user_conflict"
  else
    match emulated.filter fun volume => volume.emulatedUserEvidence = .associated 0 with
    | first :: others => .emulated first others emulatedReasons
    | [] =>
        match emulated with
        | [volume] =>
            if volume.emulatedUserEvidence = .unknown then
              .emulated volume [] ["primary_storage_emulated", "emulated_user_assumed"]
            else ambiguousChoice digest "emulated_user_not_system"
        | _ => ambiguousChoice digest "emulated_users_ambiguous"

def systemUserChoice : InternalChoice :=
  if (emulatedVolumes dump).any (userConflict 0) then
    ambiguousChoice digest "emulated_user_conflict"
  else
    soleChoice digest ((emulatedVolumes dump).filter fun volume =>
        volume.emulatedUserEvidence = .associated 0)
      (fun volume => .emulated volume [] emulatedReasons) "emulated_users_ambiguous"

def uuidChoice (fsUuid : Text) : InternalChoice :=
  soleChoice digest (dump.volumes.filter fun volume =>
      volume.volumeType = .publicVolume && hasFsUuid fsUuid volume)
    .physical "primary_storage_ambiguous"

def physicalChoice : InternalChoice :=
  soleChoice digest (dump.volumes.filter fun volume =>
      volume.volumeType = .publicVolume && dump.disks.any fun disk =>
        disk.diskId.isSome && disk.diskId = volume.diskId && disk.flags.defaultPrimary)
    .physical "primary_storage_ambiguous"

def backedChoice (fsUuid : Text) : InternalChoice :=
  match dump.volumes.filter fun volume =>
      volume.volumeType = .privateVolume && hasFsUuid fsUuid volume with
  | [backing] =>
      soleChoice digest (emulatedStackedVolumes dump backing)
        (fun volume =>
          .emulated volume [] ["primary_storage_adopted", "emulated_user_associated"])
        "primary_storage_ambiguous"
  | [] => uuidChoice digest dump fsUuid
  | _ => ambiguousChoice digest "primary_storage_ambiguous"

def internalChoice : InternalChoice :=
  match primaryStorage dump with
  | .builtInInternal => builtInChoice digest dump
  | .unreported => builtInChoice digest dump
  | .emulatedUser user =>
      if user = 0 then systemUserChoice digest dump
      else ambiguousChoice digest "emulated_user_not_system"
  | .physicalPrimary => physicalChoice digest dump
  | .adoptedBacking uuid => backedChoice digest dump uuid
  | .namedFsUuid uuid => uuidChoice digest dump uuid

def chosenSource (shell : ShellVolumeList) : InternalChoice → InternalSource
  | .emulated first _ reasons => offeredSource digest first reasons
  | .physical volume => promoteSupportedPublicPrimary digest dump shell volume
  | .refused entry => ⟨some entry, none⟩

end

section

variable (digest : Digest) (dump : MountDump) (shell : ShellVolumeList)

theorem resolveSolePublic_eq (volumes : List MountVolume) :
    resolveSolePublic digest dump shell volumes = chosenSource digest dump shell
      (soleChoice digest volumes .physical "primary_storage_ambiguous") := by
  rcases volumes with _ | ⟨volume, _ | ⟨other, rest⟩⟩
  all_goals rfl

theorem resolveEmulatedPrimary_eq :
    resolveEmulatedPrimary digest dump =
      chosenSource digest dump shell (builtInChoice digest dump) := by
  unfold resolveEmulatedPrimary builtInChoice
  simp only [← List.head?_filter]
  generalize emulatedVolumes dump = emulated
  split_ifs
  next => rfl
  next => rfl
  next =>
    cases associated : emulated.filter fun volume => volume.emulatedUserEvidence = .associated 0 with
    | cons first others => rfl
    | nil =>
        cases emulated with
        | nil => rfl
        | cons volume rest =>
            cases rest with
            | cons _ _ => rfl
            | nil =>
                simp only [List.head?_nil, resolveSoleEmulated]
                split
                next unknown => rw [if_pos unknown]; rfl
                next known => rw [if_neg known]; rfl

theorem resolveNamedEmulated_eq :
    resolveNamedEmulated digest dump 0 =
      chosenSource digest dump shell (systemUserChoice digest dump) := by
  unfold resolveNamedEmulated resolveEmulatedForUser systemUserChoice
  split_ifs
  next => rfl
  next =>
    generalize (emulatedVolumes dump).filter
      (fun volume => volume.emulatedUserEvidence = .associated 0) = matched
    rcases matched with _ | ⟨volume, _ | ⟨other, rest⟩⟩
    all_goals rfl

theorem resolveAdoptedBacking_eq (fsUuid : Text) :
    resolveAdoptedBacking digest dump shell fsUuid =
      chosenSource digest dump shell (backedChoice digest dump fsUuid) := by
  unfold resolveAdoptedBacking backedChoice
  generalize (dump.volumes.filter fun volume =>
    volume.volumeType = .privateVolume && hasFsUuid fsUuid volume) = matched
  rcases matched with _ | ⟨backing, _ | ⟨other, rest⟩⟩
  · exact resolveSolePublic_eq digest dump shell _
  · simp only
    generalize emulatedStackedVolumes dump backing = stacked
    rcases stacked with _ | ⟨volume, _ | ⟨other, rest⟩⟩
    all_goals rfl
  · rfl

theorem internalSource_eq :
    internalSource digest dump shell (primaryStorage dump) =
      chosenSource digest dump shell (internalChoice digest dump) := by
  unfold internalSource internalChoice
  cases primaryStorage dump with
  | builtInInternal => exact resolveEmulatedPrimary_eq digest dump shell
  | unreported => exact resolveEmulatedPrimary_eq digest dump shell
  | emulatedUser user =>
      simp only
      split_ifs
      · exact resolveNamedEmulated_eq digest dump shell
      · rfl
  | physicalPrimary => exact resolveSolePublic_eq digest dump shell _
  | adoptedBacking uuid => exact resolveAdoptedBacking_eq digest dump shell uuid
  | namedFsUuid uuid => exact resolveSolePublic_eq digest dump shell _

end

section

theorem trim_trim (text : Text) : trim (trim text) = trim text := by
  have kept : (trim text).dropWhile Executor.isWhitespace = trim text := by
    refine List.dropWhile_eq_self_iff.mpr fun filled => ?_
    have inside := (List.rdropWhile_prefix Executor.isWhitespace
      (text.dropWhile Executor.isWhitespace)).getElem filled
    rw [show (trim text)[0] = _ from inside]
    exact List.dropWhile_get_zero_not _ text _
  rw [trim, kept]
  exact List.rdropWhile_idempotent _ (text.dropWhile Executor.isWhitespace)

variable {report : Report}

theorem spelling_mem_uuidFacts {id spelling : Text} (member : spelling ∈ report.spellings id) :
    spelling ∈ uuidFacts (report.tokens id) := by
  obtain ⟨body, inside, found⟩ := List.mem_filterMap.mp member
  have fact := List.mem_of_head? found
  rw [Report.tokens]
  obtain ⟨token, held, read⟩ := List.mem_filterMap.mp fact
  obtain ⟨line, within, shown⟩ := List.mem_flatMap.mp held
  exact List.mem_filterMap.mpr ⟨token, List.mem_flatMap.mpr
    ⟨line, List.mem_flatten.mpr ⟨body, inside, within⟩, shown⟩, read⟩

theorem spelling_named {id spelling : Text} (member : spelling ∈ report.spellings id) :
    trim spelling = spelling ∧ isNull spelling = false := by
  obtain ⟨token, -, read⟩ := List.mem_filterMap.mp (spelling_mem_uuidFacts member)
  split at read
  next =>
    unfold namedValue at read
    split at read
    next => cases read
    next named =>
      cases read
      exact ⟨trim_trim token.2, Bool.eq_false_of_not_eq_true named⟩
  next => cases read

theorem fsUuid_eq {volume : MountVolume} (member : volume ∈ report.dump.volumes) :
    volume.fsUuid = (report.spellings volume.id).head? := by
  obtain ⟨entry, -, rfl⟩ := mem_volumes.mp member
  exact head?_uuidFacts report entry.1

theorem normalizedFsUuid_eq {volume : MountVolume} {id : Text}
    (held : volume.fsUuid = (report.spellings id).head?) :
    volume.normalizedFsUuid = (report.spellings id).head? := by
  rw [MountVolume.normalizedFsUuid, held]
  cases found : (report.spellings id).head? with
  | none => rfl
  | some spelling =>
      obtain ⟨trimmed, named⟩ := spelling_named (List.mem_of_head? found)
      simp [trimmed, named]

theorem spellings_agree {volume : MountVolume} (member : volume ∈ report.dump.volumes)
    (sound : volume.contradictory = false) : ∀ left ∈ report.spellings volume.id,
      ∀ right ∈ report.spellings volume.id, toAsciiLowercase left = toAsciiLowercase right := by
  obtain ⟨entry, -, rfl⟩ := mem_volumes.mp member
  obtain ⟨-, -, -, -, -, uuids, -⟩ := clashes_eq_false.mp sound
  exact fun left inside right within => clash_ignoringCase.mp uuids left
    (spelling_mem_uuidFacts inside) right (spelling_mem_uuidFacts within)

end

section

/-- A choice and the same one among volumes that are moved and spelled anew. -/
inductive InternalChoice.Moves (respell : MountVolume → MountVolume) :
    InternalChoice → InternalChoice → Prop where
  | emulated {first first' : MountVolume} {others others' : List MountVolume}
      {reasons : List String} (moved : (first' :: others').Perm ((first :: others).map respell)) :
      Moves respell (.emulated first others reasons) (.emulated first' others' reasons)
  | physical (volume : MountVolume) : Moves respell (.physical volume) (.physical (respell volume))
  | refused (entry : DeviceVolume) : Moves respell (.refused entry) (.refused entry)

variable {digest : Digest} {respell : MountVolume → MountVolume}

theorem soleChoice_moves {volumes moved : List MountVolume} (same : moved.Perm (volumes.map respell))
    {one : MountVolume → InternalChoice}
    (each : ∀ volume, (one volume).Moves respell (one (respell volume))) (several : String) :
    (soleChoice digest volumes one several).Moves respell (soleChoice digest moved one several) := by
  rcases volumes with _ | ⟨volume, _ | ⟨other, rest⟩⟩
  · rw [same.eq_nil]
    exact .refused _
  · rw [List.perm_singleton.mp same]
    exact each volume
  · rcases moved with _ | ⟨first, _ | ⟨second, later⟩⟩
    · cases same.length_eq
    · cases same.length_eq
    · exact .refused _

theorem sole_emulated_moves (reasons : List String) (volume : MountVolume) :
    (InternalChoice.emulated volume [] reasons).Moves respell
      (.emulated (respell volume) [] reasons) := .emulated (.refl _)

variable {first second : Report} (same : first.Reordered second)
  (volumesSound : ∀ volume ∈ first.dump.volumes, volume.contradictory = false)
  (disksSound : ∀ disk ∈ first.dump.disks, disk.contradictory = false)
include same volumesSound

theorem filter_moved {test : MountVolume → Bool}
    (kept : ∀ volume ∈ first.dump.volumes, test (respelled second volume) = test volume) :
    (second.dump.volumes.filter test).Perm
      ((first.dump.volumes.filter test).map (respelled second)) := by
  refine ((volumes_reordered same volumesSound).filter test).trans ?_
  rw [List.filter_map]
  refine .of_eq (congrArg (List.map _) (List.filter_congr fun volume member => ?_))
  exact kept volume member

theorem hasFsUuid_respelled {volume : MountVolume} (member : volume ∈ first.dump.volumes)
    (fsUuid : Text) : hasFsUuid fsUuid (respelled second volume) = hasFsUuid fsUuid volume := by
  have spellings := spellings_perm same volume.id
  have agree := spellings_agree member (volumesSound volume member)
  rw [hasFsUuid, hasFsUuid, normalizedFsUuid_eq (fsUuid_eq member),
    @normalizedFsUuid_eq second (respelled second volume) volume.id rfl]
  cases left : (first.spellings volume.id).head? with
  | none =>
      rw [List.head?_eq_none_iff.mp left] at spellings
      rw [← spellings.nil_eq]
      rfl
  | some spelling =>
      cases right : (second.spellings volume.id).head? with
      | none =>
          rw [List.head?_eq_none_iff.mp right] at spellings
          rw [spellings.eq_nil] at left
          cases left
      | some other =>
          have lower := agree spelling (List.mem_of_head? left) other
            (spellings.mem_iff.mpr (List.mem_of_head? right))
          simp only [Option.any_some, eqIgnoreAsciiCase, lower]

theorem emulatedVolumes_moved : (emulatedVolumes second.dump).Perm
    ((emulatedVolumes first.dump).map (respelled second)) :=
  filter_moved same volumesSound fun _ _ => rfl

theorem filter_emulated_moved {test : MountVolume → Bool}
    (kept : ∀ volume, test (respelled second volume) = test volume) :
    ((emulatedVolumes second.dump).filter test).Perm
      (((emulatedVolumes first.dump).filter test).map (respelled second)) := by
  rw [emulatedVolumes, emulatedVolumes, List.filter_filter, List.filter_filter]
  refine filter_moved same volumesSound fun volume _ => ?_
  rw [kept]
  rfl

theorem any_emulated_moved {test : MountVolume → Bool}
    (kept : ∀ volume, test (respelled second volume) = test volume) :
    (emulatedVolumes second.dump).any test = (emulatedVolumes first.dump).any test := by
  rw [(emulatedVolumes_moved same volumesSound).any_eq, List.any_map]
  exact congrArg (List.any _) (funext kept)

theorem builtInChoice_moves : (builtInChoice digest first.dump).Moves (respelled second)
    (builtInChoice digest second.dump) := by
  have moved := emulatedVolumes_moved same volumesSound
  have associated : ((emulatedVolumes second.dump).filter fun volume =>
      volume.emulatedUserEvidence = .associated 0).Perm (((emulatedVolumes first.dump).filter
        fun volume => volume.emulatedUserEvidence = .associated 0).map (respelled second)) :=
    filter_emulated_moved same volumesSound fun _ => rfl
  have conflict : (emulatedVolumes second.dump).any (userConflict 0) =
      (emulatedVolumes first.dump).any (userConflict 0) :=
    any_emulated_moved same volumesSound fun _ => rfl
  have all : ((emulatedVolumes second.dump).all fun volume =>
      volume.emulatedUserEvidence = .conflict) = (emulatedVolumes first.dump).all
        fun volume => volume.emulatedUserEvidence = .conflict := by
    rw [moved.all_eq, List.all_map]
    rfl
  have length : (emulatedVolumes second.dump).length = (emulatedVolumes first.dump).length := by
    rw [moved.length_eq, List.length_map]
  have empty : (emulatedVolumes second.dump).isEmpty = (emulatedVolumes first.dump).isEmpty := by
    rw [moved.isEmpty_eq, List.isEmpty_map]
  unfold builtInChoice
  simp only [conflict, all, length, empty]
  generalize emulatedVolumes second.dump = later at *
  generalize emulatedVolumes first.dump = early at *
  split_ifs
  · exact .refused _
  · exact .refused _
  · cases early' : early.filter fun volume => volume.emulatedUserEvidence = .associated 0 with
    | cons first' others =>
        rw [early'] at associated
        cases later' : later.filter fun volume => volume.emulatedUserEvidence = .associated 0 with
        | nil =>
            rw [later'] at associated
            cases associated.nil_eq
        | cons first'' others' =>
            rw [later'] at associated
            exact .emulated associated
    | nil =>
        rw [early'] at associated
        rw [associated.eq_nil]
        rcases early with _ | ⟨volume, _ | ⟨other, rest⟩⟩
        · rw [moved.eq_nil]
          exact .refused _
        · rw [List.perm_singleton.mp moved]
          simp only
          rw [show (respelled second volume).emulatedUserEvidence = volume.emulatedUserEvidence from rfl]
          split_ifs
          · exact .emulated (.refl _)
          · exact .refused _
        · rcases later with _ | ⟨first', _ | ⟨second', rest'⟩⟩
          · cases moved.length_eq
          · cases moved.length_eq
          · exact .refused _

theorem systemUserChoice_moves : (systemUserChoice digest first.dump).Moves (respelled second)
    (systemUserChoice digest second.dump) := by
  have conflict : (emulatedVolumes second.dump).any (userConflict 0) =
      (emulatedVolumes first.dump).any (userConflict 0) :=
    any_emulated_moved same volumesSound fun _ => rfl
  unfold systemUserChoice
  rw [conflict]
  split_ifs
  · exact .refused _
  · exact soleChoice_moves (filter_emulated_moved same volumesSound fun _ => rfl)
      (sole_emulated_moves _) _

theorem uuidChoice_moves (fsUuid : Text) : (uuidChoice digest first.dump fsUuid).Moves
    (respelled second) (uuidChoice digest second.dump fsUuid) := by
  refine soleChoice_moves (filter_moved same volumesSound fun volume member => ?_) .physical _
  rw [hasFsUuid_respelled same volumesSound member]
  rfl

theorem emulatedStackedVolumes_moved (backing : MountVolume) :
    (emulatedStackedVolumes second.dump (respelled second backing)).Perm
      ((emulatedStackedVolumes first.dump backing).map (respelled second)) := by
  have byId : ((emulatedVolumes second.dump).filter
      (stackedById (respelled second backing))).Perm
        (((emulatedVolumes first.dump).filter (stackedById backing)).map (respelled second)) :=
    filter_emulated_moved same volumesSound fun _ => rfl
  have byDisk : ((emulatedVolumes second.dump).filter
      (stackedByDisk (respelled second backing))).Perm
        (((emulatedVolumes first.dump).filter (stackedByDisk backing)).map (respelled second)) :=
    filter_emulated_moved same volumesSound fun _ => rfl
  unfold emulatedStackedVolumes
  simp only [byId.isEmpty_eq, List.isEmpty_map]
  split_ifs
  · exact byDisk
  · exact byId

theorem backedChoice_moves (fsUuid : Text) : (backedChoice digest first.dump fsUuid).Moves
    (respelled second) (backedChoice digest second.dump fsUuid) := by
  have backing : (second.dump.volumes.filter fun volume =>
      volume.volumeType = .privateVolume && hasFsUuid fsUuid volume).Perm
        ((first.dump.volumes.filter fun volume =>
          volume.volumeType = .privateVolume && hasFsUuid fsUuid volume).map (respelled second)) := by
    refine filter_moved same volumesSound fun volume member => ?_
    rw [hasFsUuid_respelled same volumesSound member]
    rfl
  unfold backedChoice
  generalize (second.dump.volumes.filter fun volume =>
    volume.volumeType = .privateVolume && hasFsUuid fsUuid volume) = later at backing ⊢
  generalize (first.dump.volumes.filter fun volume =>
    volume.volumeType = .privateVolume && hasFsUuid fsUuid volume) = early at backing ⊢
  rcases early with _ | ⟨volume, _ | ⟨other, rest⟩⟩
  · rw [backing.eq_nil]
    exact uuidChoice_moves same volumesSound fsUuid
  · rw [List.perm_singleton.mp backing]
    exact soleChoice_moves (emulatedStackedVolumes_moved same volumesSound volume)
      (sole_emulated_moves _) _
  · rcases later with _ | ⟨first', _ | ⟨second', rest'⟩⟩
    · cases backing.length_eq
    · cases backing.length_eq
    · exact .refused _

include disksSound

theorem physicalChoice_moves : (physicalChoice digest first.dump).Moves (respelled second)
    (physicalChoice digest second.dump) := by
  have disks (volume : MountVolume) : (second.dump.disks.any fun disk =>
      disk.diskId.isSome && disk.diskId = volume.diskId && disk.flags.defaultPrimary) =
        first.dump.disks.any fun disk =>
          disk.diskId.isSome && disk.diskId = volume.diskId && disk.flags.defaultPrimary := by
    rw [Bool.eq_iff_iff, List.any_eq_true, List.any_eq_true]
    simp only [mem_disks_reordered same disksSound]
  unfold physicalChoice
  simp only [disks]
  exact soleChoice_moves (filter_moved same volumesSound fun _ _ => rfl) .physical _

/-- The choice among internal volumes moves along with the spellings. -/
theorem internalChoice_moves : (internalChoice digest first.dump).Moves (respelled second)
    (internalChoice digest second.dump) := by
  unfold internalChoice
  rw [primaryStorage_reordered same]
  cases primaryStorage first.dump with
  | builtInInternal => exact builtInChoice_moves same volumesSound
  | unreported => exact builtInChoice_moves same volumesSound
  | emulatedUser user =>
      simp only
      split_ifs
      · exact systemUserChoice_moves same volumesSound
      · exact .refused _
  | physicalPrimary => exact physicalChoice_moves same volumesSound disksSound
  | adoptedBacking uuid => exact backedChoice_moves same volumesSound uuid
  | namedFsUuid uuid => exact uuidChoice_moves same volumesSound uuid

end

end EmuChef.Storage
