import EmuChef.Storage.Records

/-! A mount dump is the records that its lines open. -/

namespace EmuChef.Storage

open RecordMerge (Merge)

/-- The records of a dump in the order in which they stand, each with its own lines. -/
structure Report where
  primaries : List Text
  volumes : List (Text × List Text)
  disks : List (Option Text × List Text)
  deriving DecidableEq

def Report.dump (report : Report) : MountDump :=
  { report.primaries.foldl recordPrimaryStorageUuid .empty with
    volumes := volumeMerge.records report.volumes
    disks := diskMerge.records report.disks }

def readReport (report : Report) : Except DeviceStorageFailure MountDump := checkedDump report.dump

structure Reading where
  closed : Report
  volume : Option (Text × List Text)
  disk : Option (Option Text × List Text)
  deriving DecidableEq

namespace Reading

def empty : Reading := ⟨⟨[], [], []⟩, none, none⟩

def report (reading : Reading) : Report :=
  ⟨reading.closed.primaries, reading.closed.volumes ++ reading.volume.toList,
    reading.closed.disks ++ reading.disk.toList⟩

def step (reading : Reading) : LineEffect → Reading
  | .nothing => reading
  | .malformed => reading
  | .leave => ⟨reading.report, none, none⟩
  | .primary value =>
      { reading with closed.primaries := reading.closed.primaries ++ [value] }
  | .openVolume id => ⟨reading.report, some (id, []), none⟩
  | .openDisk diskId => ⟨reading.report, none, some (diskId, [])⟩
  | .volumeTokens line =>
      { reading with volume := reading.volume.map fun entry => (entry.1, entry.2 ++ [line]) }
  | .diskTokens line =>
      { reading with disk := reading.disk.map fun entry => (entry.1, entry.2 ++ [line]) }

end Reading

def reportOf (effects : List LineEffect) : Report := (effects.foldl Reading.step .empty).report

section

structure Builds (reading : Reading) (state : DumpState) : Prop where
  dump : state.dump = reading.report.dump
  volume : state.currentVolume = reading.volume.map fun entry =>
    (volumeMerge.upsert (volumeMerge.records reading.closed.volumes) entry.1).2
  disk : state.currentDisk = reading.disk.map fun entry =>
    (diskMerge.upsert (diskMerge.records reading.closed.disks) entry.1).2

variable {reading : Reading} {state : DumpState}

section

variable {κ α β : Type} [DecidableEq κ] (merge : Merge κ α β) {closed : List (κ × List β)}

theorem records_append_open (entry : κ × List β) :
    merge.records (closed ++ [entry]) =
      (merge.upsert (merge.records closed) entry.1).1.modify
        (merge.upsert (merge.records closed) entry.1).2 (merge.applyAll · entry.2) :=
  RecordMerge.records_append_singleton merge

theorem records_append_opened (name : κ) :
    merge.records (closed ++ [(name, [])]) = (merge.upsert (merge.records closed) name).1 := by
  rw [records_append_open]
  exact List.modify_id ..

theorem records_append_line (name : κ) (body : List β) (line : β) :
    merge.records (closed ++ [(name, body ++ [line])]) =
      (merge.records (closed ++ [(name, body)])).modify
        (merge.upsert (merge.records closed) name).2 (merge.apply · line) := by
  rw [records_append_open, records_append_open, List.modify_modify_eq]
  refine congrArg (List.modify _ _) (funext fun item => ?_)
  rw [RecordMerge.applyAll_append]
  rfl

end

theorem builds_empty : Builds .empty ⟨.empty, none, none⟩ := ⟨rfl, rfl, rfl⟩

variable (builds : Builds reading state)

include builds

theorem builds_leave :
    Builds ⟨reading.report, none, none⟩ { state with currentVolume := none, currentDisk := none } := by
  refine ⟨?_, rfl, rfl⟩
  rw [builds.dump]
  simp [Reading.report]

theorem builds_primary (value : Text) :
    Builds { reading with closed.primaries := reading.closed.primaries ++ [value] }
      { state with dump := recordPrimaryStorageUuid state.dump value } := by
  refine ⟨?_, builds.volume, builds.disk⟩
  rw [builds.dump]
  simp only [Reading.report, Report.dump, List.foldl_append]
  simp only [List.foldl_cons, List.foldl_nil]
  generalize reading.closed.primaries.foldl recordPrimaryStorageUuid .empty = dump
  simp only [recordPrimaryStorageUuid]
  split_ifs
  next => rfl
  next =>
    split
    next =>
      split_ifs
      all_goals rfl
    next => rfl

theorem builds_openVolume (id : Text) : Builds ⟨reading.report, some (id, []), none⟩
      { dump := { state.dump with volumes := (upsertVolume state.dump.volumes id).1 }
        currentVolume := some (upsertVolume state.dump.volumes id).2, currentDisk := none } := by
  refine ⟨?_, ?_, rfl⟩
  · rw [builds.dump, upsertVolume_eq]
    simp [Reading.report, Report.dump, -List.append_assoc, records_append_opened]
  · rw [builds.dump, upsertVolume_eq]
    rfl

theorem builds_openDisk (diskId : Option Text) : Builds ⟨reading.report, none, some (diskId, [])⟩
      { dump := { state.dump with disks := (upsertDisk state.dump.disks diskId).1 }
        currentVolume := none, currentDisk := some (upsertDisk state.dump.disks diskId).2 } := by
  refine ⟨?_, rfl, ?_⟩
  · rw [builds.dump, upsertDisk_eq]
    simp [Reading.report, Report.dump, -List.append_assoc, records_append_opened]
  · rw [builds.dump, upsertDisk_eq]
    rfl

theorem builds_volumeTokens (line : Text) {index : Nat}
    (current : state.currentVolume = some index) :
    Builds (reading.step (.volumeTokens line)) { state with dump := { state.dump with
      volumes := state.dump.volumes.modify index (applyVolumeTokens · line) } } := by
  obtain ⟨closed, volume, disk⟩ := reading
  have held := builds.volume
  rw [current] at held
  cases volume with
  | none => cases held
  | some entry =>
      cases held
      refine ⟨?_, current.trans rfl, builds.disk⟩
      rw [builds.dump]
      simp only [Reading.step, Reading.report, Report.dump, Option.map_some, Option.toList_some]
      rw [records_append_line]
      rfl

theorem builds_diskTokens (line : Text) {index : Nat} (current : state.currentDisk = some index) :
    Builds (reading.step (.diskTokens line)) { state with dump := { state.dump with
      disks := state.dump.disks.modify index (applyDiskTokens · line) } } := by
  obtain ⟨closed, volume, disk⟩ := reading
  have held := builds.disk
  rw [current] at held
  cases disk with
  | none => cases held
  | some entry =>
      cases held
      refine ⟨?_, builds.volume, current.trans rfl⟩
      rw [builds.dump]
      simp only [Reading.step, Reading.report, Report.dump, Option.map_some, Option.toList_some]
      rw [records_append_line]
      rfl

theorem builds_step {effect : LineEffect} (sound : effect ≠ .malformed) :
    ∃ next, applyEffect state effect = .ok next ∧ Builds (reading.step effect) next := by
  cases effect with
  | nothing => exact ⟨state, rfl, builds⟩
  | leave => exact ⟨_, rfl, builds_leave builds⟩
  | primary value => exact ⟨_, rfl, builds_primary builds value⟩
  | openVolume id => exact ⟨_, rfl, builds_openVolume builds id⟩
  | openDisk diskId => exact ⟨_, rfl, builds_openDisk builds diskId⟩
  | volumeTokens line =>
      cases current : state.currentVolume with
      | none =>
          refine ⟨state, by simp [applyEffect, current], ?_⟩
          obtain ⟨closed, volume, disk⟩ := reading
          have held := builds.volume
          rw [current] at held
          cases volume with
          | none => exact builds
          | some entry => cases held
      | some index =>
          exact ⟨_, by simp [applyEffect, current], builds_volumeTokens builds line current⟩
  | diskTokens line =>
      cases current : state.currentDisk with
      | none =>
          refine ⟨state, by simp [applyEffect, current], ?_⟩
          obtain ⟨closed, volume, disk⟩ := reading
          have held := builds.disk
          rw [current] at held
          cases disk with
          | none => exact builds
          | some entry => cases held
      | some index =>
          exact ⟨_, by simp [applyEffect, current], builds_diskTokens builds line current⟩
  | malformed => exact absurd rfl sound

theorem builds_effects {effects : List LineEffect} :
    if .malformed ∈ effects then effects.foldlM applyEffect state = .error .malformed
    else ∃ next, effects.foldlM applyEffect state = .ok next ∧
      Builds (effects.foldl Reading.step reading) next := by
  induction effects generalizing reading state with
  | nil =>
      rw [if_neg List.not_mem_nil]
      exact ⟨state, rfl, builds⟩
  | cons effect rest ih =>
      by_cases sound : effect = .malformed
      · rw [sound, if_pos List.mem_cons_self]
        rfl
      · obtain ⟨next, applied, built⟩ := builds_step builds sound
        have same : .malformed ∈ effect :: rest ↔ .malformed ∈ rest := by
          rw [List.mem_cons, or_iff_right (Ne.symm sound)]
        simp only [same, List.foldlM_cons, applied, List.foldl_cons]
        exact ih built

omit builds in
theorem parseMountDump_eq (stdout : String) :
    parseMountDump stdout = boundedLines stdout >>= fun held =>
      if .malformed ∈ effects .other held then .error .malformed
      else readReport (reportOf (effects .other held)) := by
  unfold parseMountDump
  refine congrArg (boundedLines stdout >>= ·) (funext fun held => ?_)
  have built := @builds_effects _ _ builds_empty (effects .other held)
  split_ifs at built ⊢
  next => rw [built]; rfl
  next =>
    obtain ⟨next, applied, built⟩ := built
    rw [applied, readReport, reportOf, ← built.dump]
    rfl

end

end EmuChef.Storage
