import EmuChef.Storage.Classification
import EmuChef.Storage.RecordLaw

/-! What the records of a report say in whichever order they stand. -/

namespace EmuChef.Storage

open Adb (toAsciiLowercase trim)
open RecordMerge (Merge)

section

variable {β γ : Type} {first second : List β}

theorem clash_eq_false [DecidableEq γ] (key : β → γ) {values : List β} :
    clash (fun left right => decide (key left = key right)) values = false ↔
      ∀ left ∈ values, ∀ right ∈ values, key left = key right := by
  cases values with
  | nil => simp [clash]
  | cons value rest =>
      simp only [clash, List.any_eq_false, Bool.not_eq_true', decide_eq_false_iff_not, not_not]
      constructor
      · intro agree
        have all : ∀ other ∈ value :: rest, key value = key other := by
          intro other member
          rcases List.mem_cons.mp member with rfl | later
          · rfl
          · exact agree other later
        exact fun left inside right within => (all left inside).symm.trans (all right within)
      · exact fun agree other member =>
          agree value List.mem_cons_self other (List.mem_cons_of_mem _ member)

theorem clash_exactly [DecidableEq β] {values : List β} :
    clash exactly values = false ↔ ∀ left ∈ values, ∀ right ∈ values, left = right :=
  clash_eq_false id

theorem clash_ignoringCase {values : List Text} :
    clash eqIgnoreAsciiCase values = false ↔
      ∀ left ∈ values, ∀ right ∈ values, toAsciiLowercase left = toAsciiLowercase right :=
  clash_eq_false toAsciiLowercase

variable (same : first.Perm second)
include same

theorem clash_exactly_perm [DecidableEq β] : clash exactly first = clash exactly second := by
  have equal : clash exactly first = false ↔ clash exactly second = false := by
    rw [clash_exactly, clash_exactly]
    simp only [same.mem_iff]
  cases left : clash exactly first
  all_goals simp_all

theorem head?_perm (agree : ∀ left ∈ first, ∀ right ∈ first, left = right) :
    first.head? = second.head? := by
  cases first with
  | nil => rw [same.nil_eq]
  | cons value rest =>
      cases second with
      | nil => cases same.eq_nil
      | cons other later =>
          have member := same.mem_iff.mpr List.mem_cons_self
          rw [agree value List.mem_cons_self other member]
          rfl

end

theorem clash_ignoringCase_perm {first second : List Text} (same : first.Perm second) :
    clash eqIgnoreAsciiCase first = clash eqIgnoreAsciiCase second := by
  have equal : clash eqIgnoreAsciiCase first = false ↔ clash eqIgnoreAsciiCase second = false := by
    rw [clash_ignoringCase, clash_ignoringCase]
    simp only [same.mem_iff]
  cases left : clash eqIgnoreAsciiCase first
  all_goals simp_all

section

variable {first second : List (Text × Text)}

theorem clashes_eq_false {tokens : List (Text × Text)} : clashes tokens = false ↔
    clash exactly (typeFacts tokens) = false ∧ clash exactly (diskFacts tokens) = false ∧
      clash exactly (userFacts tokens) = false ∧ clash exactly (flagFacts tokens) = false ∧
      clash eqIgnoreAsciiCase (stateFacts tokens) = false ∧
      clash eqIgnoreAsciiCase (uuidFacts tokens) = false ∧
      clash exactly (pathFacts tokens) = false ∧
      clash exactly (internalPathFacts tokens) = false := by
  simp only [clashes, Bool.or_eq_false_iff, and_assoc]

theorem stateFacts_agree {tokens : List (Text × Text)}
    (agree : clash eqIgnoreAsciiCase (stateFacts tokens) = false) :
    ∀ left ∈ stateFacts tokens, ∀ right ∈ stateFacts tokens, left = right := by
  have capital : ∀ text ∈ stateFacts tokens, toAsciiUppercase (toAsciiLowercase text) = text := by
    intro text member
    obtain ⟨token, -, found⟩ := List.mem_filterMap.mp member
    split at found
    next =>
      obtain ⟨value, -, rfl⟩ := Option.map_eq_some_iff.mp found
      rw [toAsciiUppercase, toAsciiLowercase, toAsciiUppercase, List.map_map, List.map_map]
      refine List.map_congr_left fun letter _ => ?_
      simp only [Function.comp_apply]
      rw [toLower_toUpper, toUpper_toLower]
    next => cases found
  intro left inside right within
  rw [← capital left inside, ← capital right within,
    clash_ignoringCase.mp agree left inside right within]

variable (same : first.Perm second)
include same

theorem clashes_perm : clashes first = clashes second := by
  have facts {β : Type} (key : String) (read : Text → Option β) :
      (factsOf key read first).Perm (factsOf key read second) := same.filterMap _
  simp only [clashes, typeFacts, diskFacts, userFacts, flagFacts, stateFacts, uuidFacts, pathFacts,
    internalPathFacts]
  rw [clash_exactly_perm (facts "type" knownType),
    clash_exactly_perm (facts "diskid" normalizeDiskId),
    clash_exactly_perm (facts "mountuserid" parseI64),
    clash_exactly_perm (facts "mountflags" namedValue), clash_ignoringCase_perm (facts "state" _),
    clash_ignoringCase_perm (facts "fsuuid" namedValue),
    clash_exactly_perm (facts "path" namedValue),
    clash_exactly_perm (facts "internalpath" namedValue)]

theorem summary_perm (id : Text) (agree : clashes first = false) :
    summary id second = { summary id first with fsUuid := (uuidFacts second).head? } := by
  obtain ⟨types, disks, users, flags, states, -, paths, internalPaths⟩ := clashes_eq_false.mp agree
  have facts {β : Type} (key : String) (read : Text → Option β) :
      (factsOf key read first).Perm (factsOf key read second) := same.filterMap _
  have heldType := head?_perm (facts _ _) (clash_exactly.mp types)
  have heldDisk := head?_perm (facts _ _) (clash_exactly.mp disks)
  have heldUser := head?_perm (facts _ _) (clash_exactly.mp users)
  have heldFlags := head?_perm (facts _ _) (clash_exactly.mp flags)
  have heldState := head?_perm (facts _ _) (stateFacts_agree states)
  have heldPath := head?_perm (facts _ _) (clash_exactly.mp paths)
  have heldInternal := head?_perm (facts _ _) (clash_exactly.mp internalPaths)
  rw [summary, summary, clashes_perm same]
  simp only [typeFacts, diskFacts, userFacts, flagFacts, stateFacts, pathFacts, internalPathFacts,
    heldType, heldDisk, heldUser, heldFlags, heldState, heldPath, heldInternal]

end

section

/-- The same declarations, records and record lines, the records in another order. -/
structure Report.Reordered (first second : Report) : Prop where
  primaries : first.primaries = second.primaries
  volumes : first.volumes.Perm second.volumes
  disks : first.disks.Perm second.disks

def Report.bodies (report : Report) (id : Text) : List (List Text) :=
  (report.volumes.filter fun entry => entry.1 = id).map Prod.snd

def Report.tokens (report : Report) (id : Text) : List (Text × Text) :=
  (report.bodies id).flatten.flatMap keyValues

def Report.spellings (report : Report) (id : Text) : List Text :=
  (report.bodies id).filterMap fun body => (uuidFacts (body.flatMap keyValues)).head?

def Report.diskFlags (report : Report) (diskId : Option Text) : List DiskFlags :=
  ((report.disks.filter fun entry => entry.1 = diskId).flatMap Prod.snd).filterMap lineFlags

variable {first second : Report}

theorem Report.Reordered.symm (same : first.Reordered second) : second.Reordered first :=
  ⟨same.primaries.symm, same.volumes.symm, same.disks.symm⟩

theorem merged_volume (report : Report) (id : Text) :
    volumeMerge.merged report.volumes id = summary id (report.tokens id) := by
  rw [Report.tokens, Report.bodies, ← applyAll_volume, List.flatten_eq_flatMap, List.flatMap_map]
  rfl

theorem mem_volumes {report : Report} {volume : MountVolume} :
    volume ∈ report.dump.volumes ↔
      ∃ entry ∈ report.volumes, volume = summary entry.1 (report.tokens entry.1) := by
  have merged := RecordMerge.records_merged volumeMerge report.volumes
  rw [Report.dump, merged.mem_iff]
  simp only [merged_volume]
  constructor
  · rintro (⟨entry, inside, -, rfl⟩ | ⟨entry, -, unshared, -⟩)
    · exact ⟨entry, inside, rfl⟩
    · cases unshared
  · rintro ⟨entry, inside, rfl⟩
    exact .inl ⟨entry, inside, rfl, rfl⟩

theorem mem_disks {report : Report} {disk : MountDisk} :
    disk ∈ report.dump.disks ↔
      (∃ entry ∈ report.disks, entry.1.isSome = true ∧
        disk = diskSummary entry.1 (report.diskFlags entry.1)) ∨
      ∃ entry ∈ report.disks, entry.1.isSome = false ∧
        disk = diskSummary entry.1 (entry.2.filterMap lineFlags) := by
  have merged := RecordMerge.records_merged diskMerge report.disks
  rw [Report.dump, merged.mem_iff]
  have shared (diskId : Option Text) : diskMerge.merged report.disks diskId =
      diskSummary diskId (report.diskFlags diskId) := applyAll_disk diskId _
  have alone (diskId : Option Text) (body : List Text) :
      diskMerge.applyAll (diskMerge.fresh diskId) body =
        diskSummary diskId (body.filterMap lineFlags) := applyAll_disk diskId body
  simp only [shared, alone]
  rfl

theorem readReport_eq_ok {report : Report} {dump : MountDump} :
    readReport report = .ok dump ↔ dump = report.dump ∧
      report.dump.primaryStorageConflict = false ∧
      (∀ volume ∈ report.dump.volumes, volume.contradictory = false) ∧
      ∀ disk ∈ report.dump.disks, disk.contradictory = false := by
  unfold readReport checkedDump
  split
  next conflict =>
    refine iff_of_false (by simp) ?_
    rintro ⟨-, primary, volumes, disks⟩
    simp only [primary, Bool.false_or, Bool.or_eq_true, List.any_eq_true] at conflict
    rcases conflict with ⟨volume, inside, bad⟩ | ⟨disk, inside, bad⟩
    · rw [volumes volume inside] at bad
      cases bad
    · rw [disks disk inside] at bad
      cases bad
  next sound =>
    simp only [Bool.or_eq_true, List.any_eq_true, not_or, not_exists, not_and,
      Bool.not_eq_true] at sound
    constructor
    · intro same
      cases same
      exact ⟨rfl, sound.1.1, sound.1.2, sound.2⟩
    · rintro ⟨rfl, -⟩
      rfl

theorem volumeIds_nodup (report : Report) : (report.dump.volumes.map MountVolume.id).Nodup := by
  have merged := RecordMerge.records_merged volumeMerge report.volumes
  refine List.pairwise_map.mpr (merged.unique.imp fun {left right} apart same => ?_)
  cases apart same

theorem volume_eq_of_id {report : Report} {left right : MountVolume}
    (inside : left ∈ report.dump.volumes) (within : right ∈ report.dump.volumes)
    (same : left.id = right.id) : left = right :=
  List.inj_on_of_nodup_map (volumeIds_nodup report) inside within same

theorem head?_uuidFacts (report : Report) (id : Text) :
    (uuidFacts (report.tokens id)).head? = (report.spellings id).head? := by
  have facts : uuidFacts (report.tokens id) =
      (report.bodies id).flatMap fun body => uuidFacts (body.flatMap keyValues) := by
    rw [Report.tokens, List.flatten_eq_flatMap, List.flatMap_assoc]
    exact List.filterMap_flatMap
  rw [facts, List.head?_flatMap, Report.spellings, List.head?_filterMap]

def respelled (report : Report) (volume : MountVolume) : MountVolume :=
  { volume with fsUuid := (report.spellings volume.id).head? }

section

variable (same : first.Reordered second)
include same

theorem bodies_perm (id : Text) : (first.bodies id).Perm (second.bodies id) :=
  (same.volumes.filter _).map _

theorem tokens_perm (id : Text) : (first.tokens id).Perm (second.tokens id) :=
  (bodies_perm same id).flatten.flatMap_right _

theorem spellings_perm (id : Text) : (first.spellings id).Perm (second.spellings id) :=
  (bodies_perm same id).filterMap _

theorem diskFlags_perm (diskId : Option Text) :
    (first.diskFlags diskId).Perm (second.diskFlags diskId) :=
  ((same.disks.filter _).flatMap_right _).filterMap _

theorem summary_reordered {id : Text} (agree : clashes (first.tokens id) = false) :
    summary id (second.tokens id) = respelled second (summary id (first.tokens id)) := by
  rw [summary_perm (tokens_perm same id) id agree, head?_uuidFacts]
  rfl

/-- Other orders and spellings leave the same volumes, each as the other report spells it. -/
theorem volumes_reordered (sound : ∀ volume ∈ first.dump.volumes, volume.contradictory = false) :
    second.dump.volumes.Perm (first.dump.volumes.map (respelled second)) := by
  have distinct : (first.dump.volumes.map (respelled second)).Nodup := by
    refine List.Nodup.of_map MountVolume.id ?_
    rw [List.map_map]
    exact volumeIds_nodup first
  refine (List.perm_ext_iff_of_nodup (volumeIds_nodup second).of_map distinct).mpr fun volume => ?_
  have held {entry : Text × List Text} (inside : entry ∈ first.volumes) :
      summary entry.1 (second.tokens entry.1) =
        respelled second (summary entry.1 (first.tokens entry.1)) :=
    summary_reordered same (sound _ (mem_volumes.mpr ⟨entry, inside, rfl⟩))
  rw [mem_volumes, List.mem_map]
  constructor
  · rintro ⟨entry, inside, rfl⟩
    have early := same.volumes.mem_iff.mpr inside
    exact ⟨_, mem_volumes.mpr ⟨entry, early, rfl⟩, (held early).symm⟩
  · rintro ⟨old, member, rfl⟩
    obtain ⟨entry, inside, rfl⟩ := mem_volumes.mp member
    exact ⟨entry, same.volumes.mem_iff.mp inside, (held inside).symm⟩

theorem diskSummary_reordered {diskId : Option Text}
    (agree : clash exactly (first.diskFlags diskId) = false) :
    diskSummary diskId (second.diskFlags diskId) = diskSummary diskId (first.diskFlags diskId) := by
  have flags := diskFlags_perm same diskId
  rw [diskSummary, diskSummary, clash_exactly_perm flags,
    head?_perm flags (clash_exactly.mp agree)]

theorem mem_disks_reordered (sound : ∀ disk ∈ first.dump.disks, disk.contradictory = false)
    (disk : MountDisk) : disk ∈ second.dump.disks ↔ disk ∈ first.dump.disks := by
  have held {entry : Option Text × List Text} (inside : entry ∈ first.disks)
      (shares : entry.1.isSome = true) : diskSummary entry.1 (second.diskFlags entry.1) =
        diskSummary entry.1 (first.diskFlags entry.1) :=
    diskSummary_reordered same (sound _ (mem_disks.mpr (.inl ⟨entry, inside, shares, rfl⟩)))
  rw [mem_disks, mem_disks]
  constructor
  · rintro (⟨entry, inside, shares, rfl⟩ | ⟨entry, inside, shares, rfl⟩)
    · have early := same.disks.mem_iff.mpr inside
      exact .inl ⟨entry, early, shares, held early shares⟩
    · exact .inr ⟨entry, same.disks.mem_iff.mpr inside, shares, rfl⟩
  · rintro (⟨entry, inside, shares, rfl⟩ | ⟨entry, inside, shares, rfl⟩)
    · exact .inl ⟨entry, same.disks.mem_iff.mp inside, shares, (held inside shares).symm⟩
    · exact .inr ⟨entry, same.disks.mem_iff.mp inside, shares, rfl⟩

theorem readReport_reordered {dump : MountDump} (read : readReport first = .ok dump) :
    readReport second = .ok second.dump := by
  obtain ⟨-, primary, volumes, disks⟩ := readReport_eq_ok.mp read
  refine readReport_eq_ok.mpr ⟨rfl, ?_, fun volume member => ?_, fun disk member => ?_⟩
  · rw [Report.dump] at primary ⊢
    rw [← same.primaries]
    exact primary
  · obtain ⟨old, inside, rfl⟩ := List.mem_map.mp ((volumes_reordered same volumes).mem_iff.mp member)
    exact volumes old inside
  · exact disks disk ((mem_disks_reordered same disks disk).mp member)

theorem findDisk_reordered (sound : ∀ disk ∈ first.dump.disks, disk.contradictory = false)
    (diskId : Option Text) : findDisk second.dump diskId = findDisk first.dump diskId := by
  cases diskId with
  | none => rfl
  | some diskId =>
      have merged (report : Report) : diskMerge.merged report.disks (some diskId) =
          diskSummary (some diskId) (report.diskFlags (some diskId)) := applyAll_disk _ _
      by_cases held : ∃ entry ∈ first.disks, entry.1 = some diskId
      · have later : ∃ entry ∈ second.disks, entry.1 = some diskId := by
          obtain ⟨entry, inside, named⟩ := held
          exact ⟨entry, same.disks.mem_iff.mp inside, named⟩
        obtain ⟨entry, inside, named⟩ := held
        have agree : (diskSummary (some diskId) (first.diskFlags (some diskId))).contradictory =
            false := sound _ (mem_disks.mpr (.inl ⟨entry, inside, by rw [named]; rfl, by rw [named]⟩))
        refine (RecordMerge.find?_records diskMerge rfl later).trans ?_
        rw [merged, diskSummary_reordered same agree, ← merged]
        exact (RecordMerge.find?_records diskMerge rfl ⟨entry, inside, named⟩).symm
      · have later : ¬∃ entry ∈ second.disks, entry.1 = some diskId := by
          rintro ⟨entry, inside, named⟩
          exact held ⟨entry, same.disks.mem_iff.mpr inside, named⟩
        exact (RecordMerge.find?_records_none diskMerge later).trans
          (RecordMerge.find?_records_none diskMerge held).symm

theorem primaryStorage_reordered : primaryStorage second.dump = primaryStorage first.dump := by
  simp only [primaryStorage, Report.dump, same.primaries]

end

end

def shellFacts (held : List Text) (id : Text) : List ShellVolumeState :=
  (held.filterMap readShellLine).filterMap fun entry =>
    if entry.1 = id then some entry.2 else none

def shellHeld : List ShellVolumeState → Option (Option ShellVolumeState)
  | [] => none
  | state :: rest => some (if clash exactly (state :: rest) then none else some state)

theorem get?_recordShellState_other {list : ShellVolumeList} {entry : Text × ShellVolumeState}
    {id : Text} (other : id ≠ entry.1) : (recordShellState list entry).get? id = list.get? id := by
  unfold recordShellState
  split
  next => rw [OrderedMap.get?_insert, if_neg other]
  next =>
    split_ifs
    next => rfl
    next => rw [OrderedMap.get?_insert, if_neg other]
  next => rw [OrderedMap.get?_insert, if_neg other]

theorem get?_recordShellState_same {list : ShellVolumeList} {entry : Text × ShellVolumeState}
    {facts : List ShellVolumeState} (held : list.get? entry.1 = shellHeld facts) :
    (recordShellState list entry).get? entry.1 = shellHeld (facts ++ [entry.2]) := by
  unfold recordShellState
  cases facts with
  | nil =>
      rw [held]
      simp [shellHeld, clash]
  | cons state rest =>
      cases clashed : clash exactly (state :: rest) with
      | true =>
          rw [held]
          simp only [clash] at clashed
          simp [shellHeld, clash, clashed]
      | false =>
          simp only [shellHeld, clashed, Bool.false_eq_true, if_false] at held
          simp only [clash] at clashed
          simp only [held, List.cons_append, shellHeld, clash, List.any_append, clashed,
            List.any_cons, List.any_nil, Bool.or_false, Bool.false_or]
          by_cases agrees : state = entry.2
          · simp [held, agrees, exactly]
          · simp [agrees, exactly]

theorem get?_parseShellLines (held : List Text) (id : Text) :
    (parseShellLines held).get? id = shellHeld (shellFacts held id) := by
  rw [parseShellLines, shellFacts]
  generalize held.filterMap readShellLine = entries
  induction entries using List.reverseRecOn with
  | nil => rfl
  | append_singleton entries entry ih =>
      rw [List.foldl_append, List.filterMap_append]
      by_cases same : entry.1 = id
      · subst same
        rw [List.filterMap_cons, if_pos rfl]
        exact get?_recordShellState_same ih
      · rw [List.filterMap_cons, if_neg same, List.filterMap_nil, List.append_nil]
        exact (get?_recordShellState_other (Ne.symm same)).trans ih

theorem shellHeld_perm {first second : List ShellVolumeState} (same : first.Perm second) :
    shellHeld first = shellHeld second := by
  have clashing := clash_exactly_perm same
  cases first with
  | nil => rw [same.nil_eq]
  | cons state rest =>
      cases second with
      | nil => cases same.eq_nil
      | cons other later =>
          rw [shellHeld, shellHeld, clashing]
          split_ifs with clashed
          · rfl
          · have agree := head?_perm same
              (clash_exactly.mp (clashing.trans (Bool.not_eq_true _ ▸ clashed)))
            rw [Option.some.inj agree]

theorem state_reordered {first second : List Text} (same : first.Perm second) (id : Text) :
    (parseShellLines second).state id = (parseShellLines first).state id := by
  have facts : (shellFacts first id).Perm (shellFacts second id) :=
    (same.filterMap _).filterMap _
  rw [ShellVolumeList.state, ShellVolumeList.state, get?_parseShellLines, get?_parseShellLines,
    shellHeld_perm facts]

end EmuChef.Storage
