import EmuChef.Storage.OrderLaw

/-! What the reports show of every storage volume that is offered. -/

namespace EmuChef.Storage

open Adb (toAsciiLowercase trim lines)

section

variable {digest : Digest} {dump : MountDump} {shell : ShellVolumeList}

theorem mem_classifyVolumes {entry : DeviceVolume} :
    entry ∈ classifyVolumes digest dump shell ↔ ∃ collected ∈ collectVolumes digest dump shell,
      duplicated (collectVolumes digest dump shell) collected = entry := by
  rw [classifyVolumes, (List.mergeSort_perm _ _).mem_iff, removeAmbiguousDuplicateIdentities,
    List.mem_map]

theorem countP_of_available {volumes : List DeviceVolume} {volume : DeviceVolume}
    (available : (duplicated volumes volume).status = .available) :
    volumes.countP (fun other => other.identityToken = volume.identityToken) ≤ 1 := by
  unfold duplicated at available
  split_ifs at available with several
  exact Nat.le_of_not_lt several

theorem duplicated_of_available {volumes : List DeviceVolume} {volume : DeviceVolume}
    (available : (duplicated volumes volume).status = .available) :
    duplicated volumes volume = volume := by
  unfold duplicated at available ⊢
  split_ifs at available ⊢
  rfl

def DistinctOffers (left right : DeviceVolume) : Prop :=
  left.status = .available → right.status = .available → left.identityToken ≠ right.identityToken

theorem identityToken_duplicated (volumes : List DeviceVolume) (volume : DeviceVolume) :
    (duplicated volumes volume).identityToken = volume.identityToken :=
  (Prod.mk.inj (tokenKey_duplicated volumes volume)).1

theorem available_distinct : (classifyVolumes digest dump shell).Pairwise DistinctOffers := by
  have symmetric {left right : DeviceVolume} (apart : DistinctOffers left right) :
      DistinctOffers right left := fun first second same => apart second first same.symm
  refine ((List.mergeSort_perm _ _).pairwise_iff symmetric).mpr ?_
  rw [removeAmbiguousDuplicateIdentities, List.pairwise_map]
  refine List.pairwise_iff_forall_sublist.mpr fun {left right} pair first _ same => ?_
  rw [identityToken_duplicated, identityToken_duplicated] at same
  have most := countP_of_available first
  have least : [left, right].countP (fun other => other.identityToken = left.identityToken) ≤
      (collectVolumes digest dump shell).countP fun other =>
        other.identityToken = left.identityToken := pair.countP_le
  simp only [List.countP_cons, same, decide_true, if_true, List.countP_nil] at least
  rw [same] at most
  omega

end

section

variable {digest : Digest} {dump : MountDump} {shell : ShellVolumeList}

theorem kind_classifyPublicVolume {volume : MountVolume} :
    (classifyPublicVolume digest dump shell volume).kind ≠ .internalShared := by
  have visible (disk : MountDisk) :
      (classifyVisible digest shell volume disk).kind ≠ .internalShared := by
    unfold classifyVisible
    dsimp only
    split
    · split_ifs
      all_goals exact fun same => by cases same
    all_goals exact fun same => by cases same
  have sd (disk : MountDisk) (fsUuid : Text) :
      (classifySd digest shell volume disk fsUuid).kind ≠ .internalShared := by
    unfold classifySd
    dsimp only
    split
    · exact fun same => by cases same
    · split_ifs
      · exact fun same => by cases same
      · split
        · exact fun same => by cases same
        · split
          · exact fun same => by cases same
          · exact fun same => by cases same
          · exact visible disk
  unfold classifyPublicVolume
  dsimp only
  split
  · exact fun same => by cases same
  · split_ifs
    · exact fun same => by cases same
    · exact fun same => by cases same
    · split
      · exact fun same => by cases same
      · exact sd _ _

theorem kind_listedVolume {volume : MountVolume} {entry : DeviceVolume}
    (listed : listedVolume digest dump shell volume = some entry) :
    entry.kind ≠ .internalShared := by
  unfold listedVolume at listed
  split at listed
  · cases listed
    exact kind_classifyPublicVolume
  · split_ifs at listed
    cases listed
    exact fun same => by cases same
  · split_ifs at listed
    cases listed
    exact fun same => by cases same
  · cases listed

theorem kind_duplicated (volumes : List DeviceVolume) (volume : DeviceVolume) :
    (duplicated volumes volume).kind = volume.kind := by
  unfold duplicated
  split_ifs
  all_goals rfl

theorem countP_internal_le_one :
    (classifyVolumes digest dump shell).countP (fun entry => entry.kind = .internalShared) ≤ 1 := by
  have listed : ((dump.volumes.filter fun volume => some volume.id ≠
      (internalSource digest dump shell (primaryStorage dump)).source).filterMap
        (listedVolume digest dump shell)).countP
          (fun entry => entry.kind = .internalShared) = 0 := by
    refine List.countP_eq_zero.mpr fun entry member => ?_
    obtain ⟨volume, -, found⟩ := List.mem_filterMap.mp member
    simpa using kind_listedVolume found
  rw [classifyVolumes, (List.mergeSort_perm _ _).countP_eq, removeAmbiguousDuplicateIdentities,
    List.countP_map]
  simp only [Function.comp_def, kind_duplicated]
  rw [collectVolumes, List.countP_append, listed]
  refine (List.countP_le_length).trans ?_
  cases (internalSource digest dump shell (primaryStorage dump)).entry with
  | none => exact Nat.zero_le 1
  | some _ => exact Nat.le_refl 1

end

section

variable {digest : Digest} {dump : MountDump} {shell : ShellVolumeList} {volume : MountVolume}

def MountedAlike (mountState : VolumeMountState) (state : ShellVolumeState) : Prop :=
  mountState = .mountedRw ∧ state = .mounted ∨ mountState = .mountedRo ∧ state = .mountedRo

theorem corroborate_agreeMounted {mountState : VolumeMountState} {lookup : ShellStateLookup}
    (agree : corroborate mountState lookup = .agreeMounted) :
    ∃ state, lookup = .known state ∧ MountedAlike mountState state := by
  unfold corroborate at agree
  split at agree
  · cases agree
  · cases agree
  · split at agree
    · exact ⟨_, rfl, .inl ⟨rfl, rfl⟩⟩
    · exact ⟨_, rfl, .inr ⟨rfl, rfl⟩⟩
    all_goals cases agree

theorem classifyVisible_available {disk : MountDisk}
    (available : (classifyVisible digest shell volume disk).status = .available) :
    ∃ state, shell.state volume.id = .known state ∧ MountedAlike volume.mountState state := by
  unfold classifyVisible at available
  dsimp only at available
  split at available
  next agree => exact corroborate_agreeMounted agree
  all_goals cases available

theorem classifySd_available {disk : MountDisk} {fsUuid : Text}
    (available : (classifySd digest shell volume disk fsUuid).status = .available) :
    volume.path = some ("/storage/".toList ++ fsUuid) ∧ volume.visible = some true ∧
      ∃ state, shell.state volume.id = .known state ∧ MountedAlike volume.mountState state := by
  unfold classifySd at available
  dsimp only at available
  split at available
  · cases available
  next pathForm formed =>
    split_ifs at available with mismatch
    · cases available
    · split at available
      · cases available
      next flagsVisible flagged =>
        split at available
        · cases available
        · cases available
        next visible =>
          obtain ⟨path, located, formed⟩ := Option.map_eq_some_iff.mp formed
          have corroborated := classifyVisible_available available
          cases pathForm with
          | mismatch => exact absurd rfl mismatch
          | notVisible =>
              simp only [publicVolumeVisibility] at visible
              split_ifs at visible
          | visible =>
              simp only [publicVolumeVisibility] at visible
              split_ifs at visible with seen
              split_ifs at formed with stored
              exact ⟨by rw [located, stored], by rw [flagged, seen], corroborated⟩

theorem classifyPublicVolume_available
    (available : (classifyPublicVolume digest dump shell volume).status = .available) :
    ∃ disk fsUuid, findDisk dump volume.diskId = some disk ∧ disk.flags.sd = true ∧
      disk.flags.usb = false ∧ volume.normalizedFsUuid = some fsUuid ∧
      volume.path = some ("/storage/".toList ++ fsUuid) ∧ volume.visible = some true ∧
      ∃ state, shell.state volume.id = .known state ∧ MountedAlike volume.mountState state := by
  unfold classifyPublicVolume at available
  dsimp only at available
  split at available
  · cases available
  next disk found =>
    split_ifs at available with usb sd
    · cases available
    · cases available
    · split at available
      · cases available
      next fsUuid named =>
        obtain ⟨path, visible, corroborated⟩ := classifySd_available available
        exact ⟨disk, fsUuid, found, by simpa using sd, Bool.eq_false_of_not_eq_true usb, named,
          path, visible, corroborated⟩

end

section

variable {digest : Digest} {dump : MountDump} {shell : ShellVolumeList}

def Stacked (dump : MountDump) (volume : MountVolume) : Prop :=
  ∃ fsUuid backing, primaryStorage dump = .adoptedBacking fsUuid ∧
    (dump.volumes.filter fun other =>
      other.volumeType = .privateVolume && hasFsUuid fsUuid other) = [backing] ∧
    (stackedById backing volume = true ∨ stackedByDisk backing volume = true)

def InternalChoice.Rests (dump : MountDump) : InternalChoice → Prop
  | .emulated first _ _ => first.emulatedUserEvidence = .associated 0 ∨
      first.emulatedUserEvidence = .unknown ∨ Stacked dump first
  | .refused entry => entry.status ≠ .available
  | .physical _ => True

theorem unavailableChoice_rests (reason : String) :
    (unavailableChoice digest reason).Rests dump := fun same => by cases same

theorem ambiguousChoice_rests (reason : String) :
    (ambiguousChoice digest reason).Rests dump := fun same => by cases same

theorem soleChoice_rests {volumes : List MountVolume} {one : MountVolume → InternalChoice}
    {several : String} (each : ∀ volume ∈ volumes, (one volume).Rests dump) :
    (soleChoice digest volumes one several).Rests dump := by
  rcases volumes with _ | ⟨volume, _ | ⟨other, rest⟩⟩
  · exact unavailableChoice_rests _
  · exact each volume List.mem_cons_self
  · exact ambiguousChoice_rests _

theorem builtInChoice_rests : (builtInChoice digest dump).Rests dump := by
  unfold builtInChoice
  dsimp only
  split_ifs
  · exact unavailableChoice_rests _
  · exact ambiguousChoice_rests _
  · split
    next first others associated =>
      have member : first ∈ (emulatedVolumes dump).filter fun volume =>
          volume.emulatedUserEvidence = .associated 0 := associated ▸ List.mem_cons_self
      exact .inl (of_decide_eq_true (List.mem_filter.mp member).2)
    next =>
      split
      · split_ifs with unknown
        · exact .inr (.inl unknown)
        · exact ambiguousChoice_rests _
      · exact ambiguousChoice_rests _

theorem internalChoice_rests : (internalChoice digest dump).Rests dump := by
  unfold internalChoice
  cases primary : primaryStorage dump with
  | builtInInternal => exact builtInChoice_rests
  | unreported => exact builtInChoice_rests
  | emulatedUser user =>
      simp only [systemUserChoice]
      split_ifs
      · exact ambiguousChoice_rests _
      · exact soleChoice_rests fun volume member =>
          .inl (of_decide_eq_true (List.mem_filter.mp member).2)
      · exact ambiguousChoice_rests _
  | physicalPrimary => exact soleChoice_rests fun _ _ => trivial
  | adoptedBacking uuid =>
      simp only [backedChoice]
      split
      next backing alone =>
        refine soleChoice_rests fun volume member => .inr (.inr ⟨uuid, backing, primary, alone, ?_⟩)
        unfold emulatedStackedVolumes at member
        dsimp only at member
        split_ifs at member
        · exact .inr (List.mem_filter.mp member).2
        · exact .inl (List.mem_filter.mp member).2
      next => exact soleChoice_rests fun _ _ => trivial
      next => exact ambiguousChoice_rests _
  | namedFsUuid uuid => exact soleChoice_rests fun _ _ => trivial

theorem internal_available (distinct : (dump.volumes.map MountVolume.id).Nodup)
    {entry : DeviceVolume} (member : entry ∈ collectVolumes digest dump shell)
    (kind : entry.kind = .internalShared) (available : entry.status = .available) :
    ∃ volume reasons, volume ∈ dump.volumes ∧ entry = internalVolume digest volume reasons ∧
      (volume.volumeType = .publicVolume ∧
        (classifyPublicVolume digest dump shell volume).status = .available ∨
      volume.volumeType = .emulated ∧ (volume.emulatedUserEvidence = .associated 0 ∨
        volume.emulatedUserEvidence = .unknown ∨ Stacked dump volume)) := by
  have unlisted {volumes : List MountVolume} (listed : entry ∈ volumes.filterMap
      (listedVolume digest dump shell)) : False := by
    obtain ⟨volume, -, found⟩ := List.mem_filterMap.mp listed
    exact kind_listedVolume found kind
  have rests := @internalChoice_rests digest dump
  cases chosen : internalChoice digest dump with
  | refused refusal =>
      rw [collectVolumes_refused chosen] at member
      rw [chosen] at rests
      rcases List.mem_cons.mp member with rfl | listed
      · exact absurd available rests
      · exact (unlisted listed).elim
  | emulated first others reasons =>
      rw [collectVolumes_emulated distinct chosen] at member
      rw [chosen] at rests
      have inside : first ∈ candidates digest dump := by
        rw [candidates, chosen]
        exact List.mem_cons_self
      rcases List.mem_cons.mp member with rfl | listed
      · exact ⟨first, reasons, (mem_candidates inside).1, rfl,
          .inr ⟨(mem_candidates inside).2, rests⟩⟩
      · exact (unlisted listed).elim
  | physical volume =>
      rw [collectVolumes_physical distinct chosen] at member
      split_ifs at member with offered
      · rcases List.mem_cons.mp member with rfl | listed
        · exact ⟨volume, _, (mem_of_physical chosen).1, rfl,
            .inl ⟨(mem_of_physical chosen).2, offered⟩⟩
        · exact (unlisted listed).elim
      · exact (unlisted member).elim

theorem listed_available {entry : DeviceVolume}
    (member : entry ∈ collectVolumes digest dump shell) (kind : entry.kind ≠ .internalShared)
    (available : entry.status = .available) :
    ∃ volume ∈ dump.volumes, volume.volumeType = .publicVolume ∧
      entry = classifyPublicVolume digest dump shell volume := by
  rw [collectVolumes_eq, List.mem_append] at member
  rcases member with internal | listed
  · refine absurd ?_ kind
    cases chosen : internalChoice digest dump with
    | refused refusal =>
        have rests := @internalChoice_rests digest dump
        rw [chosen] at internal rests
        cases List.mem_singleton.mp internal
        exact absurd available rests
    | emulated first others reasons =>
        rw [chosen] at internal
        cases List.mem_singleton.mp internal
        rfl
    | physical volume =>
        rw [chosen] at internal
        simp only [chosenSource, promoteSupportedPublicPrimary] at internal
        split_ifs at internal
        · cases internal
        · cases List.mem_singleton.mp internal
          rfl
  · obtain ⟨volume, within, found⟩ := List.mem_filterMap.mp listed
    refine ⟨volume, (List.mem_filter.mp within).1, ?_⟩
    unfold listedVolume at found
    split at found
    next typed =>
      cases found
      exact ⟨typed, rfl⟩
    · split_ifs at found
      cases found
      cases available
    · split_ifs at found
      cases found
      cases available
    · cases found

end

def Says {β : Type} (facts : List β) (value : β) : Prop :=
  facts ≠ [] ∧ ∀ fact ∈ facts, fact = value

/-- The records and the printed lines of an id show a public volume of an SD card that is mounted
where applications see it. -/
structure PublicEvidence (report : Report) (held : List Text) (id : Text) : Prop where
  typed : Says (typeFacts (report.tokens id)) .publicVolume
  disk : ∃ diskId flags, Says (diskFacts (report.tokens id)) diskId ∧
    Says (report.diskFlags (some diskId)) flags ∧ flags.sd = true ∧ flags.usb = false
  path : ∃ fsUuid ∈ uuidFacts (report.tokens id),
    (∀ other ∈ uuidFacts (report.tokens id), eqIgnoreAsciiCase other fsUuid = true) ∧
      Says (pathFacts (report.tokens id)) ("/storage/".toList ++ fsUuid)
  visible : ∃ flags, Says (flagFacts (report.tokens id)) flags ∧ parseVolumeVisibility flags = true
  mounted : ∃ raw state, Says (stateFacts (report.tokens id)) raw ∧
    Says (shellFacts held id) state ∧ MountedAlike (mountStateFromText raw) state

/-- The records of an id show a mounted emulated volume that belongs to no other user. -/
structure EmulatedEvidence (report : Report) (id : Text) : Prop where
  typed : Says (typeFacts (report.tokens id)) .emulated
  mounted : ∃ raw, Says (stateFacts (report.tokens id)) raw ∧
    (mountStateFromText raw).isMounted = true
  user : ((∀ user, (MountVolume.new id).emulatedIdUser = some user → user = 0) ∧
      ∀ user ∈ userFacts (report.tokens id), user = 0) ∨
    Stacked report.dump (summary id (report.tokens id))

structure FactsAgree (tokens : List (Text × Text)) : Prop where
  types : ∀ left ∈ typeFacts tokens, ∀ right ∈ typeFacts tokens, left = right
  disks : ∀ left ∈ diskFacts tokens, ∀ right ∈ diskFacts tokens, left = right
  users : ∀ left ∈ userFacts tokens, ∀ right ∈ userFacts tokens, left = right
  flags : ∀ left ∈ flagFacts tokens, ∀ right ∈ flagFacts tokens, left = right
  states : ∀ left ∈ stateFacts tokens, ∀ right ∈ stateFacts tokens, left = right
  uuids : ∀ left ∈ uuidFacts tokens, ∀ right ∈ uuidFacts tokens,
    eqIgnoreAsciiCase left right = true
  paths : ∀ left ∈ pathFacts tokens, ∀ right ∈ pathFacts tokens, left = right
  internalPaths : ∀ left ∈ internalPathFacts tokens, ∀ right ∈ internalPathFacts tokens,
    left = right

structure Consistent (report : Report) : Prop where
  primaries : ∀ left ∈ report.primaries.filterMap namedValue,
    ∀ right ∈ report.primaries.filterMap namedValue, eqIgnoreAsciiCase left right = true
  volumes : ∀ entry ∈ report.volumes, FactsAgree (report.tokens entry.1)
  disks : ∀ entry ∈ report.disks, entry.1.isSome = true →
    ∀ left ∈ report.diskFlags entry.1, ∀ right ∈ report.diskFlags entry.1, left = right
  unnamedDisks : ∀ entry ∈ report.disks, entry.1.isSome = false →
    ∀ left ∈ entry.2.filterMap lineFlags, ∀ right ∈ entry.2.filterMap lineFlags, left = right

structure Describes (digest : Digest) (kind : VolumeKind) (volume : MountVolume)
    (entry : DeviceVolume) : Prop where
  identity : entry.identityToken = identityToken digest kind volume.normalizedFsUuid
  continuity : entry.continuityToken = continuityToken digest volume
  state : entry.mountState = volume.mountState

theorem says_of_head? {β : Type} {facts : List β} {value : β}
    (agree : ∀ left ∈ facts, ∀ right ∈ facts, left = right) (first : facts.head? = some value) :
    Says facts value := by
  have member := List.mem_of_head? first
  exact ⟨List.ne_nil_of_mem member, fun fact inside => agree fact inside value member⟩

theorem factsAgree_of_clashes {tokens : List (Text × Text)} (agree : clashes tokens = false) :
    FactsAgree tokens := by
  obtain ⟨types, disks, users, flags, states, uuids, paths, internalPaths⟩ :=
    clashes_eq_false.mp agree
  exact ⟨clash_exactly.mp types, clash_exactly.mp disks, clash_exactly.mp users,
    clash_exactly.mp flags, stateFacts_agree states,
    fun left inside right within => decide_eq_true (clash_ignoringCase.mp uuids left inside right within),
    clash_exactly.mp paths, clash_exactly.mp internalPaths⟩

theorem foldl_recordPrimaryStorageUuid (primaries : List Text) :
    primaries.foldl recordPrimaryStorageUuid .empty =
      { MountDump.empty with
        primaryStorageUuid := (primaries.filterMap namedValue).head?
        primaryStorageConflict := clash eqIgnoreAsciiCase (primaries.filterMap namedValue) } := by
  induction primaries using List.reverseRecOn with
  | nil => rfl
  | append_singleton primaries raw ih =>
      have last : [raw].filterMap namedValue = (namedValue raw).toList := by
        cases found : namedValue raw
        all_goals simp [found]
      rw [List.foldl_append, ih, List.filterMap_append, last, clash_append_toList]
      generalize primaries.filterMap namedValue = facts
      simp only [List.foldl_cons, List.foldl_nil, recordPrimaryStorageUuid, namedValue]
      cases facts with
      | nil =>
          by_cases null : isNull (trim raw) = true
          · simp [null]
          · simp [null, clash]
      | cons first rest =>
          by_cases null : isNull (trim raw) = true
          · simp [null]
          · by_cases agrees : eqIgnoreAsciiCase first (trim raw) = true
            · simp [null, agrees]
            · simp [null, agrees]

theorem consistent_of_read {report : Report} {dump : MountDump}
    (read : readReport report = .ok dump) : Consistent report := by
  obtain ⟨-, primary, volumes, disks⟩ := readReport_eq_ok.mp read
  rw [Report.dump, foldl_recordPrimaryStorageUuid] at primary
  refine ⟨fun left inside right within => ?_, fun entry inside => ?_, fun entry inside shares => ?_,
    fun entry inside shares => ?_⟩
  · exact decide_eq_true (clash_ignoringCase.mp primary left inside right within)
  · exact factsAgree_of_clashes (volumes _ (mem_volumes.mpr ⟨entry, inside, rfl⟩))
  · exact clash_exactly.mp (disks _ (mem_disks.mpr (.inl ⟨entry, inside, shares, rfl⟩)))
  · exact clash_exactly.mp (disks _ (mem_disks.mpr (.inr ⟨entry, inside, shares, rfl⟩)))

theorem says_of_state {held : List Text} {id : Text} {state : ShellVolumeState}
    (known : (parseShellLines held).state id = .known state) : Says (shellFacts held id) state := by
  rw [ShellVolumeList.state, get?_parseShellLines] at known
  cases facts : shellFacts held id with
  | nil =>
      rw [facts] at known
      cases known
  | cons first rest =>
      rw [facts, shellHeld] at known
      split_ifs at known with clashed
      cases known
      exact says_of_head? (clash_exactly.mp (Bool.eq_false_of_not_eq_true clashed)) rfl

theorem flags_of_findDisk {report : Report} {diskId : Option Text} {disk : MountDisk}
    (found : findDisk report.dump diskId = some disk) :
    ∃ name, diskId = some name ∧ (∃ entry ∈ report.disks, entry.1 = some name) ∧
      disk.flags = (report.diskFlags (some name)).head?.getD .none := by
  cases diskId with
  | none => cases found
  | some name =>
      have found : report.dump.disks.find? (fun disk => disk.diskId = some name) = some disk := found
      by_cases listed : ∃ entry ∈ report.disks, entry.1 = some name
      · have merged := RecordMerge.find?_records diskMerge rfl listed
        have same : disk = diskMerge.merged report.disks (some name) :=
          Option.some.inj (found.symm.trans merged)
        refine ⟨name, rfl, listed, ?_⟩
        rw [same, show diskMerge.merged report.disks (some name) =
          diskSummary (some name) (report.diskFlags (some name)) from applyAll_disk _ _]
        rfl
      · have missing := RecordMerge.find?_records_none diskMerge listed
        cases found.symm.trans missing

section

variable {digest : Digest} {report : Report} {held : List Text} (consistent : Consistent report)
  {entry : Text × List Text} (recorded : entry ∈ report.volumes)
include consistent recorded

theorem says_state {state : VolumeMountState} (known : state ≠ .unknown)
    (mounted : (summary entry.1 (report.tokens entry.1)).mountState = state) :
    ∃ raw, Says (stateFacts (report.tokens entry.1)) raw ∧ mountStateFromText raw = state := by
  rw [MountVolume.mountState, summary] at mounted
  simp only at mounted
  cases first : (stateFacts (report.tokens entry.1)).head? with
  | none =>
      rw [first] at mounted
      exact absurd mounted.symm known
  | some raw =>
      rw [first] at mounted
      exact ⟨raw, says_of_head? (consistent.volumes entry recorded).states first, mounted⟩

theorem says_type {type : MountVolumeType} (known : type ≠ .unknown)
    (typed : (summary entry.1 (report.tokens entry.1)).volumeType = type) :
    Says (typeFacts (report.tokens entry.1)) type := by
  rw [summary] at typed
  simp only at typed
  cases first : (typeFacts (report.tokens entry.1)).head? with
  | none =>
      rw [first] at typed
      exact absurd typed.symm known
  | some stated =>
      rw [first] at typed
      cases typed
      exact says_of_head? (consistent.volumes entry recorded).types first

theorem publicEvidence_of_available
    (typed : (summary entry.1 (report.tokens entry.1)).volumeType = .publicVolume)
    (available : (classifyPublicVolume digest report.dump (parseShellLines held)
      (summary entry.1 (report.tokens entry.1))).status = .available) :
    PublicEvidence report held entry.1 := by
  obtain ⟨disk, fsUuid, found, sd, usb, named, path, visible, state, known, alike⟩ :=
    classifyPublicVolume_available available
  have agree := consistent.volumes entry recorded
  obtain ⟨diskId, diskNamed, ⟨diskEntry, diskListed, diskSame⟩, flags⟩ := flags_of_findDisk found
  refine ⟨says_type consistent recorded (by decide) typed, ?_, ?_, ?_, ?_⟩
  · cases first : (report.diskFlags (some diskId)).head? with
    | none =>
        rw [flags, first] at sd
        cases sd
    | some shown =>
        rw [flags, first] at sd usb
        have disks := consistent.disks diskEntry diskListed (by rw [diskSame]; rfl)
        rw [diskSame] at disks
        exact ⟨diskId, shown, says_of_head? agree.disks diskNamed, says_of_head? disks first,
          sd, usb⟩
  · have member : summary entry.1 (report.tokens entry.1) ∈ report.dump.volumes :=
      mem_volumes.mpr ⟨entry, recorded, rfl⟩
    have first : (uuidFacts (report.tokens entry.1)).head? = some fsUuid := by
      rw [head?_uuidFacts, ← named]
      exact (normalizedFsUuid_eq (fsUuid_eq member)).symm
    have inside := List.mem_of_head? first
    exact ⟨fsUuid, inside, fun other within => agree.uuids other within fsUuid inside,
      says_of_head? agree.paths path⟩
  · cases first : (flagFacts (report.tokens entry.1)).head? with
    | none =>
        rw [summary] at visible
        simp only [first] at visible
        cases visible
    | some shown =>
        rw [summary] at visible
        simp only [first, Option.map_some, Option.some.injEq] at visible
        exact ⟨shown, says_of_head? agree.flags first, visible⟩
  · have printed := says_of_state known
    rcases alike with ⟨writable, shown⟩ | ⟨readOnly, shown⟩
    · obtain ⟨raw, stated, same⟩ := says_state consistent recorded (by decide) writable
      exact ⟨raw, state, stated, printed, .inl ⟨same, shown⟩⟩
    · obtain ⟨raw, stated, same⟩ := says_state consistent recorded (by decide) readOnly
      exact ⟨raw, state, stated, printed, .inr ⟨same, shown⟩⟩

theorem emulatedEvidence_of_available {reasons : List String}
    (typed : (summary entry.1 (report.tokens entry.1)).volumeType = .emulated)
    (rests : (summary entry.1 (report.tokens entry.1)).emulatedUserEvidence = .associated 0 ∨
      (summary entry.1 (report.tokens entry.1)).emulatedUserEvidence = .unknown ∨
      Stacked report.dump (summary entry.1 (report.tokens entry.1)))
    (available : (internalVolume digest (summary entry.1 (report.tokens entry.1)) reasons).status =
      .available) : EmulatedEvidence report entry.1 := by
  have agree := consistent.volumes entry recorded
  refine ⟨says_type consistent recorded (by decide) typed, ?_, ?_⟩
  · simp only [internalVolume] at available
    cases state : (summary entry.1 (report.tokens entry.1)).mountState with
    | mountedRw =>
        obtain ⟨raw, stated, same⟩ := says_state consistent recorded (by decide) state
        exact ⟨raw, stated, by rw [same]; rfl⟩
    | mountedRo =>
        obtain ⟨raw, stated, same⟩ := says_state consistent recorded (by decide) state
        exact ⟨raw, stated, by rw [same]; rfl⟩
    | unmounted => simp [state] at available
    | unknown => simp [state] at available
  · have system (own : (summary entry.1 (report.tokens entry.1)).emulatedUserEvidence =
        .associated 0 ∨ (summary entry.1 (report.tokens entry.1)).emulatedUserEvidence =
          .unknown) : (∀ user, (MountVolume.new entry.1).emulatedIdUser = some user → user = 0) ∧
            ∀ user ∈ userFacts (report.tokens entry.1), user = 0 := by
      have idUser : (summary entry.1 (report.tokens entry.1)).emulatedIdUser =
          (MountVolume.new entry.1).emulatedIdUser := rfl
      have mountUser : (summary entry.1 (report.tokens entry.1)).mountUserId =
          (userFacts (report.tokens entry.1)).head? := rfl
      unfold MountVolume.emulatedUserEvidence at own
      rw [idUser, mountUser] at own
      have stated (fact : Int) (first : (userFacts (report.tokens entry.1)).head? = some fact)
          (zero : fact = 0) : ∀ user ∈ userFacts (report.tokens entry.1), user = 0 :=
        fun user inside => ((says_of_head? agree.users first).2 user inside).trans zero
      have silent (first : (userFacts (report.tokens entry.1)).head? = none) :
          ∀ user ∈ userFacts (report.tokens entry.1), user = 0 := by
        rw [List.head?_eq_none_iff.mp first]
        exact fun _ inside => absurd inside List.not_mem_nil
      cases named : (MountVolume.new entry.1).emulatedIdUser with
      | none =>
          refine ⟨fun _ same => absurd same (Option.some_ne_none _).symm, ?_⟩
          cases first : (userFacts (report.tokens entry.1)).head? with
          | none => exact silent first
          | some fact =>
              rw [named, first] at own
              exact stated fact first (by simpa using own)
      | some user =>
          cases first : (userFacts (report.tokens entry.1)).head? with
          | none =>
              rw [named, first] at own
              refine ⟨fun other same => ?_, silent first⟩
              cases same
              simpa using own
          | some fact =>
              rw [named, first] at own
              simp only at own
              split_ifs at own with differ
              · simp at own
              · have zero : user = 0 := by simpa using own
                refine ⟨fun other same => ?_, stated fact first ?_⟩
                · cases same
                  exact zero
                · exact (not_not.mp differ).symm.trans zero
    rcases rests with own | unknown | stacked
    · exact .inl (system (.inl own))
    · exact .inl (system (.inr unknown))
    · exact .inr stacked

end

section

structure Corroborated (digest : Digest) (report : Report) (held : List Text)
    (volumes : List DeviceVolume) : Prop where
  oneInternal : volumes.countP (fun entry => entry.kind = .internalShared) ≤ 1
  distinct : volumes.Pairwise DistinctOffers
  removable : ∀ entry ∈ volumes, entry.status = .available → entry.kind = .removableSd →
    ∃ record ∈ report.volumes,
      Describes digest .removableSd (summary record.1 (report.tokens record.1)) entry ∧
        PublicEvidence report held record.1
  internal : ∀ entry ∈ volumes, entry.status = .available → entry.kind = .internalShared →
    ∃ record ∈ report.volumes,
      Describes digest .internalShared (summary record.1 (report.tokens record.1)) entry ∧
        (PublicEvidence report held record.1 ∨ EmulatedEvidence report record.1)
  consistent : Consistent report

variable {digest : Digest}

theorem describes_available {dump : MountDump} {shell : ShellVolumeList} {volume : MountVolume}
    (kind : (classifyPublicVolume digest dump shell volume).kind = .removableSd) :
    Describes digest .removableSd volume (classifyPublicVolume digest dump shell volume) := by
  revert kind
  unfold classifyPublicVolume classifySd classifyVisible classifiedPublic
  dsimp only
  repeat' split
  all_goals first
    | exact fun _ => ⟨rfl, rfl, rfl⟩
    | exact fun same => by cases same

theorem describes_internal {volume : MountVolume} (reasons : List String) :
    Describes digest .internalShared volume (internalVolume digest volume reasons) :=
  ⟨rfl, rfl, rfl⟩

/-- Only what both reports show is offered. -/
theorem offers_corroborated (digest : Digest) (mount listVolumes : String) (dump : MountDump)
    (shell : ShellVolumeList) (parsed : parseMountDump mount = .ok dump)
    (listed : parseShellVolumes listVolumes = .ok shell) :
    Corroborated digest (reportText mount) (lines listVolumes.toList)
      (classifyVolumes digest dump shell) := by
  have read := readReport_of_parsed parsed
  have consistent := consistent_of_read read
  rw [(readReport_eq_ok.mp read).1, shellLines_of_parsed listed]
  refine ⟨countP_internal_le_one, available_distinct, ?_, ?_, consistent⟩
  · intro entry member available kind
    obtain ⟨collected, inside, rfl⟩ := mem_classifyVolumes.mp member
    have unmarked := duplicated_of_available available
    rw [unmarked] at available kind ⊢
    obtain ⟨volume, within, typed, rfl⟩ :=
      listed_available inside (fun same => by rw [same] at kind; cases kind) available
    obtain ⟨record, recorded, rfl⟩ := mem_volumes.mp within
    exact ⟨record, recorded, describes_available kind,
      publicEvidence_of_available consistent recorded typed available⟩
  · intro entry member available kind
    obtain ⟨collected, inside, rfl⟩ := mem_classifyVolumes.mp member
    have unmarked := duplicated_of_available available
    rw [unmarked] at available kind ⊢
    obtain ⟨volume, reasons, within, rfl, evidence⟩ :=
      internal_available (volumeIds_nodup _) inside kind available
    obtain ⟨record, recorded, rfl⟩ := mem_volumes.mp within
    refine ⟨record, recorded, describes_internal reasons, ?_⟩
    rcases evidence with ⟨typed, offered⟩ | ⟨typed, rests⟩
    · exact .inl (publicEvidence_of_available consistent recorded typed offered)
    · exact .inr (@emulatedEvidence_of_available digest _ consistent _ recorded reasons typed rests
        available)

def sdCardMount : String :=
  "Disks:\nDiskInfo\x7bdisk:179,64\x7d:\nflags=SD\nVolumes:\nVolumeInfo\x7bpublic:179,65\x7d:\n" ++
    "type=PUBLIC diskId=disk:179,64 state=MOUNTED fsUuid=1234-ABCD path=/storage/1234-ABCD\n" ++
    "mountFlags=VISIBLE\n"

def sdCardDump : MountDump where
  primaryStorageUuid := none
  primaryStorageConflict := false
  volumes := [{ MountVolume.new "public:179,65".toList with
    volumeType := .publicVolume
    diskId := some "179,64".toList
    state := "MOUNTED".toList
    fsUuid := some "1234-ABCD".toList
    path := some "/storage/1234-ABCD".toList
    mountFlags := some "VISIBLE".toList
    visible := some true }]
  disks := [⟨some "179,64".toList, ⟨true, false, false, false⟩, true, false⟩]

theorem parse_sdCardMount : parseMountDump sdCardMount = .ok sdCardDump := by decide +kernel

def sdCardList : String := "public:179,65 mounted 1234-ABCD\n"

theorem exists_offered {dump : MountDump} {shell : ShellVolumeList}
    (offered : (removeAmbiguousDuplicateIdentities (collectVolumes digest dump shell)).any
      (fun entry => entry.status = .available && entry.kind = .removableSd) = true) :
    ∃ entry ∈ classifyVolumes digest dump shell, entry.status = .available ∧
      entry.kind = .removableSd := by
  obtain ⟨entry, member, seen⟩ := List.any_eq_true.mp offered
  refine ⟨entry, (List.mergeSort_perm _ _).mem_iff.mpr member, ?_⟩
  simpa using seen

theorem offers_corroborated_sdCard :
    Corroborated sampleDigest (reportText sdCardMount) (lines sdCardList.toList)
        (classifyVolumes sampleDigest sdCardDump (parseShellLines (lines sdCardList.toList))) ∧
      ∃ entry ∈ classifyVolumes sampleDigest sdCardDump
        (parseShellLines (lines sdCardList.toList)), entry.status = .available ∧
          entry.kind = .removableSd :=
  ⟨offers_corroborated sampleDigest sdCardMount sdCardList sdCardDump
    (parseShellLines (lines sdCardList.toList)) parse_sdCardMount (by decide +kernel),
    exists_offered (by decide +kernel)⟩

def printedState (id line : Text) : Option ShellVolumeState :=
  match Adb.splitWhitespace line with
  | name :: raw :: _ => if name = id then some (shellState raw) else none
  | _ => none

def fourFieldList : String :=
  "public:179,65 mounted 1234-ABCD\npublic:179,65 unmounted 1234-ABCD stale\n"

/-- A line of four fields is not heard, though it prints another state. -/
theorem not_printed_alike : ¬∀ (digest : Digest) mount listVolumes dump shell,
    parseMountDump mount = .ok dump → parseShellVolumes listVolumes = .ok shell →
      ∀ entry ∈ classifyVolumes digest dump shell, entry.status = .available →
        entry.kind = .removableSd → ∃ volume ∈ dump.volumes,
          Describes digest .removableSd volume entry ∧
            ∀ line ∈ lines listVolumes.toList, ∀ state, printedState volume.id line = some state →
              MountedAlike entry.mountState state := by
  intro claimed
  obtain ⟨entry, member, seen⟩ := @exists_offered sampleDigest sdCardDump
    (parseShellLines (lines fourFieldList.toList)) (by decide +kernel)
  obtain ⟨volume, inside, -, printed⟩ := claimed sampleDigest sdCardMount fourFieldList sdCardDump
    (parseShellLines (lines fourFieldList.toList)) parse_sdCardMount (by decide +kernel) entry member
      seen.1 seen.2
  have named : volume.id = "public:179,65".toList := by
    rw [List.mem_singleton.mp inside]
    rfl
  rw [named] at printed
  have alike := printed "public:179,65 unmounted 1234-ABCD stale".toList (by decide +kernel)
    .notMounted (by decide +kernel)
  rcases alike with ⟨-, same⟩ | ⟨-, same⟩
  · cases same
  · cases same

end

end EmuChef.Storage
