import EmuChef.Storage.Choice

/-! When the classification of a device's storage does not depend on the order of its reports. -/

namespace EmuChef.Storage

open Adb (lines)
open RecordMerge (Merge)

section

variable (digest : Digest)

def InternalChoice.volumes : InternalChoice → List MountVolume
  | .emulated first others _ => first :: others
  | _ => []

def candidates (dump : MountDump) : List MountVolume := (internalChoice digest dump).volumes

variable {digest} {dump : MountDump} {shell : ShellVolumeList} {several : String}
  {volume : MountVolume} {volumes : List MountVolume}

theorem soleChoice_sublist {reasons : List String} :
    (soleChoice digest volumes (fun volume => .emulated volume [] reasons) several).volumes.Sublist
      volumes := by
  rcases volumes with _ | ⟨volume, _ | ⟨other, rest⟩⟩
  · exact .refl _
  · exact .refl _
  · exact List.nil_sublist _

theorem solePublic_volumes : (soleChoice digest volumes .physical several).volumes = [] := by
  rcases volumes with _ | ⟨volume, _ | ⟨other, rest⟩⟩
  all_goals rfl

theorem builtInChoice_sublist :
    (builtInChoice digest dump).volumes.Sublist (emulatedVolumes dump) := by
  unfold builtInChoice
  dsimp only
  split_ifs
  · exact List.nil_sublist _
  · exact List.nil_sublist _
  · cases associated : (emulatedVolumes dump).filter fun volume =>
        volume.emulatedUserEvidence = .associated 0 with
    | cons first others =>
        simp only [InternalChoice.volumes]
        rw [← associated]
        exact List.filter_sublist
    | nil =>
        generalize emulatedVolumes dump = emulated
        rcases emulated with _ | ⟨volume, _ | ⟨other, rest⟩⟩
        · exact List.nil_sublist _
        · simp only
          split_ifs
          · exact .refl _
          · exact List.nil_sublist _
        · exact List.nil_sublist _

theorem candidates_sublist : (candidates digest dump).Sublist (emulatedVolumes dump) := by
  unfold candidates internalChoice
  cases primaryStorage dump with
  | builtInInternal => exact builtInChoice_sublist
  | unreported => exact builtInChoice_sublist
  | emulatedUser user =>
      simp only
      split_ifs
      · unfold systemUserChoice
        split_ifs
        · exact List.nil_sublist _
        · exact soleChoice_sublist.trans List.filter_sublist
      · exact List.nil_sublist _
  | physicalPrimary =>
      simp only [physicalChoice, solePublic_volumes]
      exact List.nil_sublist _
  | adoptedBacking uuid =>
      simp only [backedChoice]
      split
      · refine soleChoice_sublist.trans ?_
        unfold emulatedStackedVolumes
        dsimp only
        split_ifs
        · exact List.filter_sublist
        · exact List.filter_sublist
      · simp only [uuidChoice, solePublic_volumes]
        exact List.nil_sublist _
      · exact List.nil_sublist _
  | namedFsUuid uuid =>
      simp only [uuidChoice, solePublic_volumes]
      exact List.nil_sublist _

theorem mem_candidates (member : volume ∈ candidates digest dump) :
    volume ∈ dump.volumes ∧ volume.volumeType = .emulated := by
  have inside := candidates_sublist.subset member
  simpa [emulatedVolumes] using inside

theorem soleChoice_physical
    (chosen : soleChoice digest volumes .physical several = .physical volume) :
    volume ∈ volumes := by
  rcases volumes with _ | ⟨first, _ | ⟨other, rest⟩⟩
  · cases chosen
  · cases chosen
    exact List.mem_singleton_self _
  · cases chosen

theorem soleChoice_emulated {reasons : List String} :
    soleChoice digest volumes (fun volume => .emulated volume [] reasons) several ≠
      .physical volume := by
  rcases volumes with _ | ⟨first, _ | ⟨other, rest⟩⟩
  all_goals exact fun same => by cases same

theorem builtInChoice_emulated :
    builtInChoice digest dump ≠ .physical volume := by
  unfold builtInChoice
  dsimp only
  split_ifs
  · exact fun same => by cases same
  · exact fun same => by cases same
  · split
    · exact fun same => by cases same
    · split
      · split_ifs
        all_goals exact fun same => by cases same
      · exact fun same => by cases same

theorem mem_of_physical (chosen : internalChoice digest dump = .physical volume) :
    volume ∈ dump.volumes ∧ volume.volumeType = .publicVolume := by
  unfold internalChoice at chosen
  cases primary : primaryStorage dump with
  | builtInInternal =>
      rw [primary] at chosen
      exact absurd chosen builtInChoice_emulated
  | unreported =>
      rw [primary] at chosen
      exact absurd chosen builtInChoice_emulated
  | emulatedUser user =>
      simp only [primary, systemUserChoice] at chosen
      split_ifs at chosen
      · cases chosen
      · exact absurd chosen soleChoice_emulated
      · cases chosen
  | physicalPrimary =>
      simp only [primary, physicalChoice] at chosen
      have inside := soleChoice_physical chosen
      simp only [List.mem_filter, Bool.and_eq_true, decide_eq_true_eq] at inside
      exact ⟨inside.1, inside.2.1⟩
  | adoptedBacking uuid =>
      simp only [primary, backedChoice] at chosen
      split at chosen
      · exact absurd chosen soleChoice_emulated
      · have inside := soleChoice_physical chosen
        simp only [List.mem_filter, Bool.and_eq_true, decide_eq_true_eq] at inside
        exact ⟨inside.1, inside.2.1⟩
      · cases chosen
  | namedFsUuid uuid =>
      simp only [primary, uuidChoice] at chosen
      have inside := soleChoice_physical chosen
      simp only [List.mem_filter, Bool.and_eq_true, decide_eq_true_eq] at inside
      exact ⟨inside.1, inside.2.1⟩

theorem collectVolumes_eq : collectVolumes digest dump shell =
    (chosenSource digest dump shell (internalChoice digest dump)).entry.toList ++
      (dump.volumes.filter fun volume => some volume.id ≠
        (chosenSource digest dump shell (internalChoice digest dump)).source).filterMap
          (listedVolume digest dump shell) := by
  rw [collectVolumes, internalSource_eq]

theorem listedVolume_emulated (emulated : volume.volumeType = .emulated) :
    listedVolume digest dump shell volume = none := by
  rw [listedVolume, emulated]

theorem filterMap_filter_of_none {α β : Type} {items : List α} {test : α → Bool}
    {read : α → Option β} (skipped : ∀ item ∈ items, test item = false → read item = none) :
    (items.filter test).filterMap read = items.filterMap read := by
  rw [List.filterMap_filter]
  refine List.filterMap_congr fun item member => ?_
  split_ifs with kept
  · rfl
  · exact (skipped item member (Bool.eq_false_of_not_eq_true kept)).symm

theorem collectVolumes_refused {entry : DeviceVolume}
    (chosen : internalChoice digest dump = .refused entry) :
    collectVolumes digest dump shell =
      entry :: dump.volumes.filterMap (listedVolume digest dump shell) := by
  rw [collectVolumes_eq, chosen]
  simp [chosenSource]

section

variable (distinct : (dump.volumes.map MountVolume.id).Nodup)
include distinct

theorem collectVolumes_emulated {first : MountVolume} {others : List MountVolume}
    {reasons : List String} (chosen : internalChoice digest dump = .emulated first others reasons) :
    collectVolumes digest dump shell = internalVolume digest first reasons ::
      dump.volumes.filterMap (listedVolume digest dump shell) := by
  have member : first ∈ candidates digest dump := by
    rw [candidates, chosen]
    exact List.mem_cons_self
  obtain ⟨inside, emulated⟩ := mem_candidates member
  rw [collectVolumes_eq, chosen]
  refine congrArg (internalVolume digest first reasons :: ·) (filterMap_filter_of_none ?_)
  intro volume within skipped
  have same : volume.id = first.id := by simpa [chosenSource, offeredSource] using skipped
  rw [List.inj_on_of_nodup_map distinct within inside same]
  exact listedVolume_emulated emulated

theorem filter_source {volume : MountVolume} (member : volume ∈ dump.volumes) :
    dump.volumes.filter (fun other => some other.id ≠ some volume.id) =
      dump.volumes.erase volume := by
  rw [distinct.of_map.erase_eq_filter]
  refine List.filter_congr fun other within => ?_
  rw [Bool.eq_iff_iff]
  simp only [ne_eq, Option.some.injEq, decide_not, Bool.not_eq_true', decide_eq_false_iff_not,
    bne_iff_ne]
  exact not_congr ⟨fun same => List.inj_on_of_nodup_map distinct within member same,
    congrArg MountVolume.id⟩

theorem collectVolumes_physical {volume : MountVolume}
    (chosen : internalChoice digest dump = .physical volume) :
    collectVolumes digest dump shell =
      if (classifyPublicVolume digest dump shell volume).status = .available then
        internalVolume digest volume ["primary_storage_physical"] ::
          (dump.volumes.erase volume).filterMap (listedVolume digest dump shell)
      else dump.volumes.filterMap (listedVolume digest dump shell) := by
  rw [collectVolumes_eq, chosen]
  by_cases status : (classifyPublicVolume digest dump shell volume).status = .available
  · rw [if_pos status, ← filter_source distinct (mem_of_physical chosen).1]
    simp only [chosenSource, promoteSupportedPublicPrimary, status, ne_eq, not_true_eq_false,
      if_false]
    rfl
  · rw [if_neg status]
    simp [chosenSource, promoteSupportedPublicPrimary, status]

end

end

section

variable {digest : Digest} {first second : List DeviceVolume}

def tokenKey (volume : DeviceVolume) : String × String × VolumeMountState :=
  (volume.identityToken, volume.continuityToken, volume.mountState)

theorem tokenKey_duplicated (volumes : List DeviceVolume) (volume : DeviceVolume) :
    tokenKey (duplicated volumes volume) = tokenKey volume := by
  unfold duplicated
  split_ifs
  all_goals rfl

theorem duplicated_perm (same : first.Perm second) : duplicated first = duplicated second := by
  funext volume
  unfold duplicated
  rw [same.countP_eq]

theorem markedVolumes_perm (same : first.Perm second) :
    ((removeAmbiguousDuplicateIdentities first).mergeSort sortsBefore).Perm
      ((removeAmbiguousDuplicateIdentities second).mergeSort sortsBefore) := by
  refine (List.mergeSort_perm _ _).trans (.trans ?_ (List.mergeSort_perm _ _).symm)
  rw [removeAmbiguousDuplicateIdentities, removeAmbiguousDuplicateIdentities, duplicated_perm same]
  exact same.map _

theorem map_tokenKey_classifyVolumes (dump : MountDump) (shell : ShellVolumeList) :
    ((classifyVolumes digest dump shell).map tokenKey).Perm
      ((collectVolumes digest dump shell).map tokenKey) := by
  refine ((List.mergeSort_perm _ _).map tokenKey).trans (.of_eq ?_)
  rw [removeAmbiguousDuplicateIdentities, List.map_map]
  exact List.map_congr_left fun volume _ => tokenKey_duplicated _ volume

theorem observationToken_perm (same : first.Perm second) :
    observationToken digest first = observationToken digest second := by
  have sorted (volumes : List DeviceVolume) : ((volumes.map observationPart).mergeSort
      fun left right => left ≤ right).Pairwise fun left right => left ≤ right := by
    have pairs := @List.pairwise_mergeSort _ (fun left right : String => decide (left ≤ right))
      (fun _ _ _ early late => by
        simp only [decide_eq_true_eq] at *
        exact String.le_trans early late)
      (fun left right => by simpa using String.le_total left right) (volumes.map observationPart)
    simpa using pairs
  have equal : (first.map observationPart).mergeSort (fun left right => left ≤ right) =
      (second.map observationPart).mergeSort fun left right => left ≤ right := by
    refine List.Perm.eq_of_pairwise (fun _ _ _ _ => String.le_antisymm) (sorted first)
      (sorted second) ?_
    exact (List.mergeSort_perm _ _).trans ((same.map _).trans (List.mergeSort_perm _ _).symm)
  rw [observationToken, observationToken, equal]

end

section

variable {digest : Digest} {dump : MountDump} {shell : ShellVolumeList} {volume : MountVolume}

def shown (digest : Digest) (dump : MountDump) (volume : MountVolume) : Prop :=
  match volume.volumeType with
  | .publicVolume => True
  | .privateVolume => True
  | .unknown => volume.state ≠ [] ∧ eqIgnoreAsciiCase volume.state "REMOVED".toList = false
  | .emulated => volume ∈ candidates digest dump

theorem continuityToken_classifyPublicVolume :
    (classifyPublicVolume digest dump shell volume).continuityToken =
      continuityToken digest volume := by
  have visible (disk : MountDisk) : (classifyVisible digest shell volume disk).continuityToken =
      continuityToken digest volume := by
    unfold classifyVisible
    dsimp only
    split
    · split_ifs
      all_goals rfl
    all_goals rfl
  have sd (disk : MountDisk) (fsUuid : Text) :
      (classifySd digest shell volume disk fsUuid).continuityToken =
        continuityToken digest volume := by
    unfold classifySd
    dsimp only
    split
    · rfl
    · split_ifs
      · rfl
      · split
        · rfl
        · split
          · rfl
          · rfl
          · exact visible disk
  unfold classifyPublicVolume
  dsimp only
  split
  · rfl
  · split_ifs
    · rfl
    · rfl
    · split
      · rfl
      · exact sd _ _

theorem continuityToken_listedVolume {entry : DeviceVolume}
    (listed : listedVolume digest dump shell volume = some entry) :
    entry.continuityToken = continuityToken digest volume := by
  unfold listedVolume at listed
  split at listed
  · cases listed
    exact continuityToken_classifyPublicVolume
  · split_ifs at listed
    cases listed
    rfl
  · split_ifs at listed
    cases listed
    rfl
  · cases listed

theorem listedVolume_isSome (seen : shown digest dump volume)
    (typed : volume.volumeType ≠ .emulated) (named : volume.normalizedFsUuid.isSome = true) :
    ∃ entry, listedVolume digest dump shell volume = some entry := by
  unfold listedVolume
  unfold shown at seen
  cases kind : volume.volumeType with
  | publicVolume => exact ⟨_, rfl⟩
  | privateVolume =>
      simp only [named, Bool.or_true, if_true]
      exact ⟨_, rfl⟩
  | unknown =>
      rw [kind] at seen
      simp only [seen.1, seen.2, ne_eq, not_false_eq_true, decide_true, Bool.not_false,
        Bool.and_self, if_true]
      exact ⟨_, rfl⟩
  | emulated => exact absurd kind typed

end

section

variable {respell : MountVolume → MountVolume} {choice : InternalChoice}

theorem InternalChoice.Moves.of_emulated {first : MountVolume} {others : List MountVolume}
    {reasons : List String} (moves : (InternalChoice.emulated first others reasons).Moves respell choice) :
    ∃ first' others', choice = .emulated first' others' reasons ∧
      (first' :: others').Perm ((first :: others).map respell) := by
  cases moves with
  | emulated moved => exact ⟨_, _, rfl, moved⟩

theorem InternalChoice.Moves.of_physical {volume : MountVolume}
    (moves : (InternalChoice.physical volume).Moves respell choice) :
    choice = .physical (respell volume) := by
  cases moves with
  | physical => rfl

theorem InternalChoice.Moves.of_refused {entry : DeviceVolume}
    (moves : (InternalChoice.refused entry).Moves respell choice) : choice = .refused entry := by
  cases moves with
  | refused => rfl

end

section

variable (digest : Digest)

def OrderFree (report : Report) (held : List Text) : Prop :=
  ∀ other later, report.Reordered other → held.Perm later →
    ∃ dump, readReport other = .ok dump ∧
      (classifyVolumes digest dump (parseShellLines later)).Perm
        (classifyVolumes digest report.dump (parseShellLines held)) ∧
      observationToken digest (classifyVolumes digest dump (parseShellLines later)) =
        observationToken digest (classifyVolumes digest report.dump (parseShellLines held))

structure OfferedAlike (left right : MountVolume) : Prop where
  identity : identityToken digest .internalShared left.normalizedFsUuid =
    identityToken digest .internalShared right.normalizedFsUuid
  continuity : continuityToken digest left = continuityToken digest right
  state : left.mountState = right.mountState

/-- It does not matter which candidate stands first, nor which record of a volume. -/
structure Settled (report : Report) : Prop where
  alike : ∀ left ∈ candidates digest report.dump, ∀ right ∈ candidates digest report.dump,
    OfferedAlike digest left right
  spelled : ∀ volume ∈ report.dump.volumes, shown digest report.dump volume →
    ∀ left ∈ report.spellings volume.id, ∀ right ∈ report.spellings volume.id, left = right

variable {digest} {first second : Report}

theorem OfferedAlike.internalVolume_eq {left right : MountVolume}
    (alike : OfferedAlike digest left right) (reasons : List String) :
    internalVolume digest left reasons = internalVolume digest right reasons := by
  rw [internalVolume, internalVolume, alike.identity, alike.continuity, alike.state]

theorem respelled_eq (same : first.Reordered second) {volume : MountVolume}
    (member : volume ∈ first.dump.volumes)
    (spelled : ∀ left ∈ first.spellings volume.id, ∀ right ∈ first.spellings volume.id,
      left = right) : respelled second volume = volume := by
  rw [respelled, ← head?_perm (spellings_perm same volume.id) spelled, ← fsUuid_eq member]

section

variable {held later : List Text} (same : first.Reordered second) (lines : held.Perm later)
  (volumesSound : ∀ volume ∈ first.dump.volumes, volume.contradictory = false)
  (disksSound : ∀ disk ∈ first.dump.disks, disk.contradictory = false)
include same lines disksSound

theorem classifyPublicVolume_reordered (volume : MountVolume) :
    classifyPublicVolume digest second.dump (parseShellLines later) volume =
      classifyPublicVolume digest first.dump (parseShellLines held) volume := by
  unfold classifyPublicVolume classifySd classifyVisible
  rw [findDisk_reordered same disksSound, state_reordered lines]

theorem listedVolume_reordered (volume : MountVolume) :
    listedVolume digest second.dump (parseShellLines later) volume =
      listedVolume digest first.dump (parseShellLines held) volume := by
  unfold listedVolume
  rw [classifyPublicVolume_reordered same lines disksSound]

theorem listedVolume_respelled {volume : MountVolume}
    (spelled : shown digest first.dump volume → respelled second volume = volume) :
    listedVolume digest second.dump (parseShellLines later) (respelled second volume) =
      listedVolume digest first.dump (parseShellLines held) volume := by
  by_cases seen : shown digest first.dump volume
  · rw [spelled seen]
    exact listedVolume_reordered same lines disksSound volume
  · cases kind : volume.volumeType with
    | publicVolume => simp [shown, kind] at seen
    | privateVolume => simp [shown, kind] at seen
    | emulated =>
        rw [listedVolume_emulated kind]
        exact listedVolume_emulated kind
    | unknown =>
        have hidden : (volume.state ≠ [] && !eqIgnoreAsciiCase volume.state "REMOVED".toList) =
            false := by
          simpa [shown, kind] using seen
        simp only [listedVolume, respelled, kind]
        rw [hidden]
        rfl

include volumesSound

omit lines disksSound in
theorem listed_perm (kept : ∀ volume ∈ first.dump.volumes,
      listedVolume digest second.dump (parseShellLines later) (respelled second volume) =
        listedVolume digest first.dump (parseShellLines held) volume) :
    (second.dump.volumes.filterMap (listedVolume digest second.dump (parseShellLines later))).Perm
      (first.dump.volumes.filterMap (listedVolume digest first.dump (parseShellLines held))) := by
  refine ((volumes_reordered same volumesSound).filterMap _).trans (.of_eq ?_)
  rw [List.filterMap_map]
  exact List.filterMap_congr kept

theorem collectVolumes_perm (settled : Settled digest first) :
    (collectVolumes digest second.dump (parseShellLines later)).Perm
      (collectVolumes digest first.dump (parseShellLines held)) := by
  have spelled : ∀ volume ∈ first.dump.volumes, shown digest first.dump volume →
      respelled second volume = volume := fun volume member seen =>
    respelled_eq same member (settled.spelled volume member seen)
  have listed := listed_perm same volumesSound fun volume member =>
    listedVolume_respelled same lines disksSound (spelled volume member)
  have moves := @internalChoice_moves digest _ _ same volumesSound disksSound
  cases chosen : internalChoice digest first.dump with
  | emulated offered others reasons =>
      rw [chosen] at moves
      obtain ⟨offered', others', chosen', moved⟩ := moves.of_emulated
      rw [collectVolumes_emulated (volumeIds_nodup first) chosen,
        collectVolumes_emulated (volumeIds_nodup second) chosen']
      have candidate : candidates digest first.dump = offered :: others := by
        rw [candidates, chosen]
        rfl
      obtain ⟨volume, member, rfl⟩ := List.mem_map.mp (moved.mem_iff.mp List.mem_cons_self)
      rw [← candidate] at member
      obtain ⟨inside, emulated⟩ := mem_candidates member
      have kept : respelled second volume = volume :=
        spelled volume inside (by rw [shown, emulated]; exact member)
      have alike := settled.alike volume member offered (candidate ▸ List.mem_cons_self)
      rw [kept, alike.internalVolume_eq]
      exact listed.cons _
  | physical volume =>
      rw [chosen] at moves
      obtain ⟨inside, listedPublic⟩ := mem_of_physical chosen
      have kept : respelled second volume = volume :=
        spelled volume inside (by rw [shown, listedPublic]; trivial)
      have chosen' := moves.of_physical
      rw [kept] at chosen'
      have inside' := (mem_of_physical chosen').1
      rw [collectVolumes_physical (volumeIds_nodup first) chosen,
        collectVolumes_physical (volumeIds_nodup second) chosen',
        classifyPublicVolume_reordered same lines disksSound]
      split_ifs
      · refine List.Perm.cons _ ?_
        have rest : (second.dump.volumes.erase volume).Perm
            ((first.dump.volumes.erase volume).map (respelled second)) := by
          have whole := volumes_reordered same volumesSound
          have early := (List.perm_cons_erase inside).map (respelled second)
          rw [List.map_cons, kept] at early
          exact (List.perm_cons volume).mp
            ((List.perm_cons_erase inside').symm.trans (whole.trans early))
        refine (rest.filterMap _).trans (.of_eq ?_)
        rw [List.filterMap_map]
        exact List.filterMap_congr fun other member => listedVolume_respelled same lines disksSound
          (spelled other (List.mem_of_mem_erase member))
      · exact listed
  | refused entry =>
      rw [chosen] at moves
      rw [collectVolumes_refused chosen, collectVolumes_refused moves.of_refused]
      exact listed.cons _

end

theorem orderFree_of_settled {report : Report} {held : List Text} {dump : MountDump}
    (read : readReport report = .ok dump) (settled : Settled digest report) :
    OrderFree digest report held := by
  intro other later same lines
  obtain ⟨-, -, volumesSound, disksSound⟩ := readReport_eq_ok.mp read
  have classified := markedVolumes_perm
    (collectVolumes_perm same lines volumesSound disksSound settled)
  exact ⟨other.dump, readReport_reordered same read, classified, observationToken_perm classified⟩

end

section

variable {digest : Digest} {report other : Report} {held : List Text}

theorem eq_of_cons_perm {α : Type} {left right : α} {first second : List α}
    (heads : (left :: first).Perm (right :: second)) (tails : first.Perm second) : left = right := by
  have whole : ([left] ++ second).Perm ([right] ++ second) := (tails.symm.cons left).trans heads
  exact List.singleton_perm_singleton.mp ((List.perm_append_right_iff second).mp whole)

theorem tokenKeys_perm (free : OrderFree digest report held) (same : report.Reordered other) :
    ((collectVolumes digest other.dump (parseShellLines held)).map tokenKey).Perm
      ((collectVolumes digest report.dump (parseShellLines held)).map tokenKey) := by
  obtain ⟨dump, read, classified, -⟩ := free other held same (.refl held)
  rw [(readReport_eq_ok.mp read).1] at classified
  exact (map_tokenKey_classifyVolumes _ _).symm.trans
    ((classified.map tokenKey).trans (map_tokenKey_classifyVolumes _ _))

variable {volume : MountVolume}

theorem head?_volumes {body : List Text} {rest : List (Text × List Text)}
    (opens : other.volumes = (volume.id, body) :: rest) (member : volume ∈ other.dump.volumes) :
    other.dump.volumes.head? = some volume := by
  have first : (other.dump.volumes.map MountVolume.id).head? = some volume.id := by
    rw [Report.dump, opens]
    exact RecordMerge.head?_records volumeMerge (volume.id, body)
  cases found : other.dump.volumes with
  | nil =>
      rw [found] at member
      cases member
  | cons head tail =>
      rw [found] at first
      have within : head ∈ other.dump.volumes := found ▸ List.mem_cons_self
      rw [volume_eq_of_id within member (Option.some.inj first)]
      rfl

theorem candidates_head (head : other.dump.volumes.head? = some volume)
    (member : volume ∈ candidates digest other.dump) :
    (candidates digest other.dump).head? = some volume := by
  have within : (candidates digest other.dump).Sublist other.dump.volumes :=
    candidates_sublist.trans List.filter_sublist
  have distinct := (volumeIds_nodup other).of_map
  revert within member
  generalize candidates digest other.dump = listed
  intro member within
  cases found : other.dump.volumes with
  | nil =>
      rw [found] at head
      cases head
  | cons first rest =>
      rw [found] at head within distinct
      cases head
      cases within with
      | cons _ later =>
          exact absurd (later.subset member) (List.nodup_cons.mp distinct).1
      | cons_cons _ later => rfl

theorem chosen_foremost {offered : MountVolume} {others : List MountVolume}
    {reasons : List String}
    (chosen : internalChoice digest other.dump = .emulated offered others reasons)
    (member : volume ∈ offered :: others) {body : List Text} {rest : List (Text × List Text)}
    (opens : other.volumes = (volume.id, body) :: rest) : offered = volume := by
  have candidate : candidates digest other.dump = offered :: others := by
    rw [candidates, chosen]
    rfl
  rw [← candidate] at member
  have head := candidates_head (head?_volumes opens (mem_candidates member).1) member
  rw [candidate] at head
  exact Option.some.inj head

def broughtForward (report : Report) (id : Text) : Report :=
  { report with volumes := (report.volumes.filter fun entry => entry.1 = id) ++
      report.volumes.filter fun entry => entry.1 ≠ id }

theorem reordered_broughtForward (id : Text) : report.Reordered (broughtForward report id) := by
  refine ⟨rfl, ?_, .refl _⟩
  have whole := List.filter_append_perm (fun entry : Text × List Text => entry.1 = id) report.volumes
  refine whole.symm.trans (.of_eq ?_)
  simp [broughtForward]

theorem bodies_broughtForward (id name : Text) :
    (broughtForward report id).bodies name = report.bodies name := by
  rw [Report.bodies, Report.bodies, broughtForward]
  refine congrArg (List.map Prod.snd) ?_
  rw [List.filter_append, List.filter_filter, List.filter_filter]
  by_cases same : name = id
  · subst same
    simp
  · have other : (report.volumes.filter fun entry => entry.1 = name && entry.1 = id) = [] := by
      refine List.filter_eq_nil_iff.mpr fun entry _ => ?_
      simp only [Bool.and_eq_true, decide_eq_true_eq, not_and]
      exact fun named => named ▸ same
    simp only [other, List.nil_append]
    refine List.filter_congr fun entry _ => ?_
    by_cases named : entry.1 = name
    · simp [named, same]
    · simp [named]

theorem respelled_of_bodies (bodies : ∀ id, other.bodies id = report.bodies id)
    (member : volume ∈ report.dump.volumes) :
    respelled other volume = volume := by
  rw [respelled, Report.spellings, bodies, ← Report.spellings, ← fsUuid_eq member]

theorem alike_of_orderFree {dump : MountDump} (read : readReport report = .ok dump)
    (free : OrderFree digest report held) {offered : MountVolume} {others : List MountVolume}
    {reasons : List String}
    (chosen : internalChoice digest report.dump = .emulated offered others reasons)
    (member : volume ∈ candidates digest report.dump) :
    OfferedAlike digest volume offered := by
  obtain ⟨-, -, volumesSound, disksSound⟩ := readReport_eq_ok.mp read
  obtain ⟨inside, -⟩ := mem_candidates member
  have same := @reordered_broughtForward report volume.id
  have kept : ∀ other ∈ report.dump.volumes,
      respelled (broughtForward report volume.id) other = other := fun other within =>
    respelled_of_bodies (bodies_broughtForward volume.id) within
  have moves := @internalChoice_moves digest _ _ same volumesSound disksSound
  rw [chosen] at moves
  obtain ⟨offered', others', chosen', moved⟩ := moves.of_emulated
  have candidate : candidates digest report.dump = offered :: others := by
    rw [candidates, chosen]
    rfl
  have held' : volume ∈ offered' :: others' := by
    refine moved.mem_iff.mpr (List.mem_map.mpr ⟨volume, candidate ▸ member, kept volume inside⟩)
  have foremost : offered' = volume := by
    obtain ⟨entry, listed, named⟩ := mem_volumes.mp inside
    have within : entry ∈ report.volumes.filter fun entry => entry.1 = volume.id := by
      simp [listed, named, summary]
    cases found : report.volumes.filter fun entry => entry.1 = volume.id with
    | nil =>
        rw [found] at within
        cases within
    | cons first rest =>
        have filtered : first ∈ report.volumes.filter fun entry => entry.1 = volume.id :=
          found ▸ List.mem_cons_self
        have named' : first.1 = volume.id := by simpa using (List.mem_filter.mp filtered).2
        refine @chosen_foremost _ _ _ _ _ _ chosen' held' first.2
          (rest ++ report.volumes.filter fun entry => entry.1 ≠ volume.id) ?_
        rw [broughtForward, found, ← named']
        rfl
  subst foremost
  have keys := tokenKeys_perm free same
  rw [collectVolumes_emulated (volumeIds_nodup report) chosen,
    collectVolumes_emulated (volumeIds_nodup _) chosen', List.map_cons, List.map_cons] at keys
  have listed := @listed_perm digest _ _ held held same volumesSound
    fun other within => listedVolume_respelled same (.refl held) disksSound fun _ =>
      kept other within
  have equal := eq_of_cons_perm keys (listed.map tokenKey)
  obtain ⟨identity, rest⟩ := Prod.mk.inj equal
  obtain ⟨continuity, state⟩ := Prod.mk.inj rest
  exact ⟨identity, continuity, state⟩

def recordForward (report : Report) (before : List (Text × List Text)) (entry : Text × List Text)
    (after : List (Text × List Text)) : Report :=
  { report with volumes := entry :: (before ++ after) }

section

variable {before after : List (Text × List Text)} {entry : Text × List Text}
  (place : report.volumes = before ++ entry :: after)
include place

theorem reordered_recordForward : report.Reordered (recordForward report before entry after) := by
  refine ⟨rfl, ?_, .refl _⟩
  rw [place]
  exact List.perm_middle

theorem bodies_recordForward {name : Text} (apart : name ≠ entry.1) :
    (recordForward report before entry after).bodies name = report.bodies name := by
  rw [Report.bodies, Report.bodies, place, recordForward]
  simp [Ne.symm apart]

omit place in
theorem spellings_recordForward {spelling : Text}
    (first : (uuidFacts (entry.2.flatMap keyValues)).head? = some spelling) :
    ((recordForward report before entry after).spellings entry.1).head? = some spelling := by
  rw [Report.spellings, Report.bodies, recordForward]
  simp [first]

theorem respelled_recordForward {volume : MountVolume} (member : volume ∈ report.dump.volumes)
    (apart : volume.id ≠ entry.1) :
    respelled (recordForward report before entry after) volume = volume := by
  rw [respelled, Report.spellings, bodies_recordForward place apart, ← Report.spellings,
    ← fsUuid_eq member]

end

/-- The continuity token of the entry for internal storage, unless it is a public volume's. -/
def choiceTokens (digest : Digest) : InternalChoice → List String
  | .emulated first _ _ => [continuityToken digest first]
  | .physical _ => []
  | .refused entry => [entry.continuityToken]

theorem continuityTokens_perm {dump : MountDump} {shell : ShellVolumeList}
    (distinct : (dump.volumes.map MountVolume.id).Nodup) :
    ((collectVolumes digest dump shell).map DeviceVolume.continuityToken).Perm
      (choiceTokens digest (internalChoice digest dump) ++
        (dump.volumes.filterMap (listedVolume digest dump shell)).map
          DeviceVolume.continuityToken) := by
  cases chosen : internalChoice digest dump with
  | emulated first others reasons =>
      rw [collectVolumes_emulated distinct chosen]
      exact .refl _
  | refused entry =>
      rw [collectVolumes_refused chosen]
      exact .refl _
  | physical volume =>
      rw [collectVolumes_physical distinct chosen]
      split_ifs
      · obtain ⟨inside, listedPublic⟩ := mem_of_physical chosen
        have entry : listedVolume digest dump shell volume =
            some (classifyPublicVolume digest dump shell volume) := by
          rw [listedVolume, listedPublic]
        have whole := ((List.perm_cons_erase inside).filterMap
          (listedVolume digest dump shell)).map DeviceVolume.continuityToken
        rw [List.filterMap_cons_some entry, List.map_cons,
          continuityToken_classifyPublicVolume] at whole
        exact whole.symm
      · exact .refl _

theorem choiceTokens_reordered {dump : MountDump} (read : readReport report = .ok dump)
    (free : OrderFree digest report held) (same : report.Reordered other)
    (kept : ∀ volume ∈ candidates digest report.dump, respelled other volume = volume) :
    choiceTokens digest (internalChoice digest other.dump) =
      choiceTokens digest (internalChoice digest report.dump) := by
  obtain ⟨-, -, volumesSound, disksSound⟩ := readReport_eq_ok.mp read
  have moves := @internalChoice_moves digest _ _ same volumesSound disksSound
  cases chosen : internalChoice digest report.dump with
  | physical volume =>
      rw [chosen] at moves
      rw [moves.of_physical]
      rfl
  | refused entry =>
      rw [chosen] at moves
      rw [moves.of_refused]
  | emulated offered others reasons =>
      rw [chosen] at moves
      obtain ⟨offered', others', chosen', moved⟩ := moves.of_emulated
      obtain ⟨volume, within, rfl⟩ := List.mem_map.mp (moved.mem_iff.mp List.mem_cons_self)
      have candidate : volume ∈ candidates digest report.dump := by
        rw [candidates, chosen]
        exact within
      rw [chosen', kept volume candidate, choiceTokens, choiceTokens,
        (alike_of_orderFree read free chosen candidate).continuity]

section

variable {before after : List (Text × List Text)} {entry : Text × List Text} {dump : MountDump}
  (read : readReport report = .ok dump) (free : OrderFree digest report held)
  (place : report.volumes = before ++ entry :: after) (member : volume ∈ report.dump.volumes)
  (opens : volume.id = entry.1)
include read free place member opens

theorem candidate_recordForward (candidate : volume ∈ candidates digest report.dump) :
    continuityToken digest (respelled (recordForward report before entry after) volume) =
      continuityToken digest volume := by
  obtain ⟨-, -, volumesSound, disksSound⟩ := readReport_eq_ok.mp read
  have same := reordered_recordForward place
  have moves := @internalChoice_moves digest _ _ same volumesSound disksSound
  cases chosen : internalChoice digest report.dump with
  | physical other =>
      rw [candidates, chosen] at candidate
      cases candidate
  | refused other =>
      rw [candidates, chosen] at candidate
      cases candidate
  | emulated offered others reasons =>
      have alike := alike_of_orderFree read free chosen candidate
      rw [candidates, chosen] at candidate
      rw [chosen] at moves
      obtain ⟨offered', others', chosen', moved⟩ := moves.of_emulated
      have within := moved.mem_iff.mpr (List.mem_map_of_mem candidate)
      have foremost := @chosen_foremost _ _ _ _ _ _ chosen' within entry.2 (before ++ after)
        (by rw [recordForward, show (respelled _ volume).id = volume.id from rfl, opens])
      have keys := tokenKeys_perm free same
      rw [collectVolumes_emulated (volumeIds_nodup report) chosen,
        collectVolumes_emulated (volumeIds_nodup _) chosen', List.map_cons, List.map_cons,
        foremost] at keys
      have emulated : volume.volumeType = .emulated :=
        (mem_candidates (show volume ∈ candidates digest report.dump by
          rw [candidates, chosen]
          exact candidate)).2
      have listed := @listed_perm digest _ _ held held same volumesSound fun other inside => by
        by_cases apart : other.id = entry.1
        · rw [volume_eq_of_id inside member (apart.trans opens.symm),
            listedVolume_emulated emulated]
          exact listedVolume_emulated emulated
        · exact listedVolume_respelled same (.refl held) disksSound fun _ =>
            respelled_recordForward place inside apart
      have equal := eq_of_cons_perm keys (listed.map tokenKey)
      exact (Prod.mk.inj (Prod.mk.inj equal).2).1.trans alike.continuity.symm

theorem listed_recordForward (seen : shown digest report.dump volume)
    (typed : volume.volumeType ≠ .emulated)
    (named : (report.spellings volume.id).head?.isSome = true) :
    continuityToken digest (respelled (recordForward report before entry after) volume) =
      continuityToken digest volume := by
  obtain ⟨-, -, volumesSound, disksSound⟩ := readReport_eq_ok.mp read
  have same := reordered_recordForward place
  have kept : ∀ other ∈ report.dump.volumes, other ≠ volume →
      respelled (recordForward report before entry after) other = other := fun other inside apart =>
    respelled_recordForward place inside fun same =>
      apart (volume_eq_of_id inside member (same.trans opens.symm))
  have keys := ((tokenKeys_perm free same).map fun key => key.2.1)
  rw [List.map_map, List.map_map] at keys
  have tokens := (continuityTokens_perm (volumeIds_nodup _)).symm.trans
    (keys.trans (continuityTokens_perm (volumeIds_nodup report)))
  have choices := choiceTokens_reordered read free same fun other candidate =>
    kept other (mem_candidates candidate).1 fun same =>
      typed (same ▸ (mem_candidates candidate).2)
  rw [choices, List.perm_append_left_iff] at tokens
  have early' : ∃ shownAs, listedVolume digest report.dump (parseShellLines held) volume =
      some shownAs :=
    listedVolume_isSome seen typed (by rw [normalizedFsUuid_eq (fsUuid_eq member)]; exact named)
  have late' : ∃ shownAs, listedVolume digest (recordForward report before entry after).dump
      (parseShellLines held) (respelled (recordForward report before entry after) volume) =
        some shownAs := by
    refine listedVolume_isSome ?_ typed ?_
    · unfold shown at seen ⊢
      rw [show (respelled _ volume).volumeType = volume.volumeType from rfl]
      cases kind : volume.volumeType with
      | publicVolume => trivial
      | privateVolume => trivial
      | unknown =>
          rw [kind] at seen
          exact seen
      | emulated => exact absurd kind typed
    · have spellings := (spellings_perm same volume.id).length_eq
      rw [@normalizedFsUuid_eq (recordForward report before entry after) (respelled _ volume)
        volume.id rfl]
      rw [List.isSome_head?] at named ⊢
      exact fun empty => named (List.length_eq_zero_iff.mp (spellings.trans (by rw [empty]; rfl)))
  obtain ⟨shownAs, listed⟩ := early'
  obtain ⟨shownAs', listed'⟩ := late'
  have early := (List.perm_cons_erase member).filterMap
    (listedVolume digest report.dump (parseShellLines held))
  have late := ((volumes_reordered same volumesSound).trans
    ((List.perm_cons_erase member).map _)).filterMap (listedVolume digest
      (recordForward report before entry after).dump (parseShellLines held))
  rw [List.map_cons, List.filterMap_cons_some listed', List.filterMap_map] at late
  rw [List.filterMap_cons_some listed] at early
  have rest : (report.dump.volumes.erase volume).filterMap (listedVolume digest
      (recordForward report before entry after).dump (parseShellLines held) ∘
        respelled (recordForward report before entry after)) =
        (report.dump.volumes.erase volume).filterMap
          (listedVolume digest report.dump (parseShellLines held)) := by
    refine List.filterMap_congr fun other within => ?_
    have distinct := (volumeIds_nodup report).of_map
    refine listedVolume_respelled same (.refl held) disksSound fun _ =>
      kept other (List.mem_of_mem_erase within) fun equal => ?_
    exact (List.Nodup.mem_erase_iff distinct).mp (equal ▸ within) |>.1 rfl
  rw [rest] at late
  have heads := (late.map DeviceVolume.continuityToken).symm.trans
    (tokens.trans (early.map DeviceVolume.continuityToken))
  rw [List.map_cons, List.map_cons, continuityToken_listedVolume listed,
    continuityToken_listedVolume listed'] at heads
  exact eq_of_cons_perm heads (.refl _)

end

end

def SpellingsApart (digest : Digest) (report : Report) : Prop :=
  ∀ volume ∈ report.dump.volumes, ∀ left ∈ report.spellings volume.id,
    ∀ right ∈ report.spellings volume.id,
      continuityToken digest { volume with fsUuid := some left } =
        continuityToken digest { volume with fsUuid := some right } → left = right

theorem settled_of_orderFree {digest : Digest} {report : Report} {held : List Text}
    {dump : MountDump} (read : readReport report = .ok dump)
    (apart : SpellingsApart digest report) (free : OrderFree digest report held) :
    Settled digest report := by
  have alike : ∀ left ∈ candidates digest report.dump, ∀ right ∈ candidates digest report.dump,
      OfferedAlike digest left right := by
    intro left inside right within
    cases chosen : internalChoice digest report.dump with
    | physical volume =>
        rw [candidates, chosen] at inside
        cases inside
    | refused entry =>
        rw [candidates, chosen] at inside
        cases inside
    | emulated offered others reasons =>
        have first := alike_of_orderFree read free chosen inside
        have second := alike_of_orderFree read free chosen within
        exact ⟨first.identity.trans second.identity.symm,
          first.continuity.trans second.continuity.symm, first.state.trans second.state.symm⟩
  refine ⟨alike, fun volume member seen => ?_⟩
  -- Each spelling is the first one when its record stands first, and the token stays.
  have foremost : ∀ spelling ∈ report.spellings volume.id,
      continuityToken digest { volume with fsUuid := some spelling } =
        continuityToken digest volume := by
    intro spelling inside
    obtain ⟨body, held', found⟩ := List.mem_filterMap.mp inside
    obtain ⟨entry, filtered, rfl⟩ := List.mem_map.mp held'
    obtain ⟨listed, named⟩ := List.mem_filter.mp filtered
    have opens : volume.id = entry.1 := (of_decide_eq_true named).symm
    obtain ⟨before, after, place⟩ := List.append_of_mem listed
    have first : respelled (recordForward report before entry after) volume =
        { volume with fsUuid := some spelling } := by
      rw [respelled, opens, spellings_recordForward found]
    rw [← first]
    by_cases emulated : volume.volumeType = .emulated
    · have candidate : volume ∈ candidates digest report.dump := by
        rw [shown, emulated] at seen
        exact seen
      exact candidate_recordForward read free place member opens candidate
    · refine listed_recordForward read free place member opens seen emulated ?_
      rw [List.isSome_head?]
      exact List.ne_nil_of_mem inside
  exact fun left inside right within => apart volume member left inside right within
    ((foremost left inside).trans (foremost right within).symm)

def reportText (mount : String) : Report := reportOf (effects .other (lines mount.toList))

theorem boundedLines_eq_ok {stdout : String} {held : List Text}
    (within : boundedLines stdout = .ok held) : held = lines stdout.toList := by
  unfold boundedLines at within
  dsimp only at within
  split_ifs at within
  exact (Except.ok.inj within).symm

theorem readReport_of_parsed {mount : String} {dump : MountDump}
    (parsed : parseMountDump mount = .ok dump) : readReport (reportText mount) = .ok dump := by
  rw [parseMountDump_eq] at parsed
  cases within : boundedLines mount with
  | error failure =>
      rw [within] at parsed
      cases parsed
  | ok held =>
      rw [within] at parsed
      change (if _ then _ else _) = _ at parsed
      split_ifs at parsed
      rw [boundedLines_eq_ok within] at parsed
      exact parsed

theorem shellLines_of_parsed {listVolumes : String} {shell : ShellVolumeList}
    (listed : parseShellVolumes listVolumes = .ok shell) :
    shell = parseShellLines (lines listVolumes.toList) := by
  unfold parseShellVolumes at listed
  cases within : boundedLines listVolumes with
  | error failure =>
      rw [within] at listed
      cases listed
  | ok held =>
      rw [within] at listed
      rw [← boundedLines_eq_ok within]
      exact (Except.ok.inj listed).symm

/-- Reports are classified alike in every order of their records and lines exactly when the
candidates for shared storage agree and no shown volume is spelled in two ways. -/
theorem orderFree_iff_settled (digest : Digest) (mount listVolumes : String) (dump : MountDump)
    (shell : ShellVolumeList) (parsed : parseMountDump mount = .ok dump)
    (listed : parseShellVolumes listVolumes = .ok shell)
    (apart : SpellingsApart digest (reportText mount)) :
    dump = (reportText mount).dump ∧ shell = parseShellLines (lines listVolumes.toList) ∧
      (OrderFree digest (reportText mount) (lines listVolumes.toList) ↔
        Settled digest (reportText mount)) := by
  have read := readReport_of_parsed parsed
  exact ⟨(readReport_eq_ok.mp read).1, shellLines_of_parsed listed,
    settled_of_orderFree read apart, orderFree_of_settled read⟩

theorem candidates_unreported {digest : Digest} {dump : MountDump} {first : MountVolume}
    {others : List MountVolume} (primary : primaryStorage dump = .unreported)
    (agree : (emulatedVolumes dump).any (userConflict 0) = false)
    (associated : ((emulatedVolumes dump).filter fun volume =>
      volume.emulatedUserEvidence = .associated 0) = first :: others) :
    candidates digest dump = first :: others := by
  have member : first ∈ (emulatedVolumes dump).filter fun volume =>
      volume.emulatedUserEvidence = .associated 0 := associated ▸ List.mem_cons_self
  obtain ⟨inside, evidence⟩ := List.mem_filter.mp member
  have nonempty : (emulatedVolumes dump).isEmpty = false :=
    List.isEmpty_eq_false_iff.mpr (List.ne_nil_of_mem inside)
  have sound : ((emulatedVolumes dump).all fun volume =>
      volume.emulatedUserEvidence = .conflict) = false := by
    refine List.all_eq_false.mpr ⟨first, inside, ?_⟩
    rw [of_decide_eq_true evidence]
    decide
  rw [candidates, internalChoice, primary]
  simp only [builtInChoice, nonempty, agree, sound, Bool.and_false, Bool.or_self,
    Bool.false_eq_true, if_false, associated]
  rfl

def oneUserMount : String :=
  "Disks:\nDiskInfo\x7bdisk:179,64\x7d:\nflags=SD\nVolumes:\nVolumeInfo\x7bemulated;0\x7d:\n" ++
    "type=EMULATED state=MOUNTED\nVolumeInfo\x7bpublic:179,65\x7d:\n" ++
    "type=PUBLIC diskId=disk:179,64 state=MOUNTED fsUuid=1234-ABCD path=/storage/1234-ABCD\n" ++
    "mountFlags=VISIBLE\n"

def oneUserList : String := "emulated;0 mounted null\npublic:179,65 mounted 1234-ABCD\n"

/-- The digest of the texts that the samples ask for. -/
def sampleDigest (text : Text) : String :=
  let text := String.ofList text
  if text = "emuchef.device.volume.identity.v1\x00removableSd\x001234-ABCD\x00sd" then
    "ebb7f21d56bfa15c0f9ef6068feb12f5"
  else if text = "emuchef.device.volume.identity.v1\x00internalShared\x00\x00internal" then
    "a9e18787caa50c68a525c5903a1fcb28"
  else if text = "emuchef.device.volume.continuity.v1\x00\x00\x00\x00\x00MOUNTED\x00" then
    "49f5c97237798165b5f1e32773ea89f6"
  else if text = "emuchef.device.volume.continuity.v1\x00\x00\x00\x00\x00\x00" then
    "6b3d2765ac552ef328ac8f0ee1f7e34a"
  else if text = "emuchef.device.volume.continuity.v1\x00179,64\x00/storage/1234-ABCD\x00\x00VISIBLE\x00MOUNTED\x001234-ABCD" then
    "019130a5ec8d88a74cd324305e3c9daf"
  else "cddf0e1db10e35a0b84b914d465a7553"

theorem orderFree_iff_settled_oneUser :
    parseMountDump oneUserMount = .ok (reportText oneUserMount).dump ∧
      OrderFree sampleDigest (reportText oneUserMount) (lines oneUserList.toList) := by
  have parsed : parseMountDump oneUserMount = .ok (reportText oneUserMount).dump := by
    decide +kernel
  have single : ∀ volume ∈ (reportText oneUserMount).dump.volumes,
      ∀ left ∈ (reportText oneUserMount).spellings volume.id,
        ∀ right ∈ (reportText oneUserMount).spellings volume.id, left = right := by
    decide +kernel
  have listed := @candidates_unreported sampleDigest (reportText oneUserMount).dump
    { MountVolume.new "emulated;0".toList with volumeType := .emulated, state := "MOUNTED".toList }
    [] (by decide +kernel) (by decide +kernel) (by decide +kernel)
  have settled : Settled sampleDigest (reportText oneUserMount) := by
    refine ⟨fun left inside right within => ?_, fun volume member _ => single volume member⟩
    rw [listed, List.mem_singleton] at inside within
    rw [inside, within]
    exact ⟨rfl, rfl, rfl⟩
  exact ⟨parsed, (orderFree_iff_settled sampleDigest oneUserMount oneUserList _
    (parseShellLines (lines oneUserList.toList)) parsed (by decide +kernel)
    fun volume member left inside right within _ =>
      single volume member left inside right within).2.2.mpr settled⟩

def twoRecordsMount : String :=
  "Volumes:\nVolumeInfo\x7bemulated;0\x7d:\ntype=EMULATED state=MOUNTED\n" ++
    "VolumeInfo\x7bemulated:179,64;0\x7d:\ntype=EMULATED state=UNMOUNTED\n"

/-- Of two emulated volumes of the system user the first one is offered, whichever it is. -/
theorem not_orderFree_twoRecords : ¬∃ digest : Digest, ∀ mount listVolumes dump shell,
    parseMountDump mount = .ok dump → parseShellVolumes listVolumes = .ok shell →
      OrderFree digest (reportText mount) (lines listVolumes.toList) := by
  rintro ⟨digest, claimed⟩
  have parsed : parseMountDump twoRecordsMount = .ok (reportText twoRecordsMount).dump := by
    decide +kernel
  have free := claimed twoRecordsMount "" _ (parseShellLines []) parsed (by decide +kernel)
  have read : readReport (reportText twoRecordsMount) = .ok (reportText twoRecordsMount).dump := by
    decide +kernel
  have apart : SpellingsApart digest (reportText twoRecordsMount) := by
    have spellings : ∀ volume ∈ (reportText twoRecordsMount).dump.volumes,
        (reportText twoRecordsMount).spellings volume.id = [] := by
      decide +kernel
    intro volume member left inside
    rw [spellings volume member] at inside
    cases inside
  have settled := settled_of_orderFree read apart free
  have listed := @candidates_unreported digest (reportText twoRecordsMount).dump
    { MountVolume.new "emulated;0".toList with volumeType := .emulated, state := "MOUNTED".toList }
    [{ MountVolume.new "emulated:179,64;0".toList with
        volumeType := .emulated, state := "UNMOUNTED".toList }]
    (by decide +kernel) (by decide +kernel) (by decide +kernel)
  have alike := settled.alike _ (listed ▸ List.mem_cons_self) _
    (listed ▸ List.mem_cons_of_mem _ List.mem_cons_self)
  exact absurd alike.state (by decide +kernel)

end EmuChef.Storage
