import EmuChef.Storage.Report

/-! Which storage volumes of a device are offered, and as what. -/

namespace EmuChef.Storage

open Adb (toAsciiLowercase trim)
open Split (stripLead splitOnce)

inductive VolumeKind where
  | internalShared
  | removableSd
  | adoptedPrivate
  | usb
  | unknown
  deriving DecidableEq

def VolumeKind.transportClass : VolumeKind → String
  | internalShared => "internal"
  | removableSd => "sd"
  | adoptedPrivate => "adopted"
  | usb => "usb"
  | unknown => "unknown"

def VolumeKind.tokenName : VolumeKind → String
  | internalShared => "internalShared"
  | removableSd => "removableSd"
  | adoptedPrivate => "adoptedPrivate"
  | usb => "usb"
  | unknown => "unknown"

def VolumeKind.sortRank : VolumeKind → Nat
  | internalShared => 0
  | removableSd => 1
  | adoptedPrivate => 2
  | usb => 3
  | unknown => 4

inductive VolumeStatus where
  | available
  | unmounted
  | ambiguous
  | unsupported
  | unknown
  deriving DecidableEq

def VolumeStatus.tokenName : VolumeStatus → String
  | available => "available"
  | unmounted => "unmounted"
  | ambiguous => "ambiguous"
  | unsupported => "unsupported"
  | unknown => "unknown"

def VolumeMountState.tokenName : VolumeMountState → String
  | mountedRw => "mountedRw"
  | mountedRo => "mountedRo"
  | unmounted => "unmounted"
  | unknown => "unknown"

def VolumeMountState.isMounted (state : VolumeMountState) : Bool :=
  state = .mountedRw || state = .mountedRo

structure DeviceVolume where
  identityToken : String
  continuityToken : String
  kind : VolumeKind
  status : VolumeStatus
  mountState : VolumeMountState
  reasons : List String
  deriving DecidableEq

inductive PrimaryStorage where
  | builtInInternal
  | adoptedBacking (fsUuid : Text)
  | physicalPrimary
  | namedFsUuid (fsUuid : Text)
  | emulatedUser (user : Int)
  | unreported
  deriving DecidableEq

def primaryStorage (dump : MountDump) : PrimaryStorage :=
  match dump.primaryStorageUuid with
  | none => .unreported
  | some raw =>
      let value := trim raw
      if isNull value || eqIgnoreAsciiCase value "private".toList then .builtInInternal
      else if eqIgnoreAsciiCase value "primary_physical".toList then .physicalPrimary
      else
        match (stripLead "emulated;".toList value).bind parseI64 with
        | some user => .emulatedUser user
        | none =>
            match stripLead "public:".toList value with
            | some uuid => .namedFsUuid uuid
            | none => .adoptedBacking value

section

abbrev Digest := Text → String

variable (digest : Digest)

def identityDomain : String := "emuchef.device.volume.identity.v1"

def observationDomain : String := "emuchef.device.volume.observation.v1"

def continuityDomain : String := "emuchef.device.volume.continuity.v1"

def digest128 (domain : String) (parts : List Text) : String :=
  digest (domain.toList ++ parts.flatMap fun part => '\x00' :: part)

def identityToken (kind : VolumeKind) (fsUuid : Option Text) : String :=
  digest128 digest identityDomain
    [kind.tokenName.toList, fsUuid.getD [], kind.transportClass.toList]

def continuityToken (volume : MountVolume) : String :=
  digest128 digest continuityDomain [volume.diskId.getD [], volume.path.getD [],
    volume.internalPath.getD [], volume.mountFlags.getD [], volume.state, volume.fsUuid.getD []]

def placeholderContinuityToken : String := digest128 digest continuityDomain [[], [], [], [], [], []]

def observationPart (volume : DeviceVolume) : String :=
  volume.identityToken ++ "|" ++ volume.continuityToken ++ "|" ++ volume.kind.tokenName ++ "|" ++
    volume.status.tokenName ++ "|" ++ volume.mountState.tokenName

def observationToken (volumes : List DeviceVolume) : String :=
  digest128 digest observationDomain
    (((volumes.map observationPart).mergeSort fun left right => left ≤ right).map String.toList)

end

section

variable (digest : Digest) (dump : MountDump) (shell : ShellVolumeList)

def mountReason : VolumeMountState → String
  | .mountedRw => "volume_mounted_rw"
  | .mountedRo => "volume_mounted_ro"
  | .unmounted => "volume_unmounted"
  | .unknown => "mount_state_unknown"

def reasonsWith (primary : String) (mountState : VolumeMountState) : List String :=
  [primary, mountReason mountState]

def publicReasons (disk : MountDisk) (primary : String) (mountState : VolumeMountState) :
    List String :=
  reasonsWith primary mountState ++ if disk.flags.adoptable then ["disk_adoptable"] else []

inductive PublicVolumePath where
  | visible
  | notVisible
  | mismatch
  deriving DecidableEq

def publicVolumePathForm (path : Option Text) (fsUuid : Text) : Option PublicVolumePath :=
  path.map fun path =>
    if path = "/storage/".toList ++ fsUuid then .visible
    else if path = "/mnt/media_rw/".toList ++ fsUuid then .notVisible
    else .mismatch

inductive PublicVolumeVisibility where
  | visible
  | notVisible
  | conflict
  deriving DecidableEq

def publicVolumeVisibility (flagsVisible : Bool) : PublicVolumePath → PublicVolumeVisibility
  | .mismatch => .conflict
  | .visible => if flagsVisible then .visible else .conflict
  | .notVisible => if flagsVisible then .conflict else .notVisible

inductive Corroboration where
  | missing
  | conflicting
  | agreeMounted
  | agreeUnmounted
  deriving DecidableEq

def corroborate (mountState : VolumeMountState) : ShellStateLookup → Corroboration
  | .missing => .missing
  | .conflicting => .conflicting
  | .known state =>
      match mountState, state with
      | .mountedRw, .mounted => .agreeMounted
      | .mountedRo, .mountedRo => .agreeMounted
      | .unmounted, .notMounted => .agreeUnmounted
      | .mountedRw, _ => .conflicting
      | .mountedRo, _ => .conflicting
      | .unmounted, _ => .conflicting
      | .unknown, _ => .missing

def findDisk (diskId : Option Text) : Option MountDisk :=
  diskId.bind fun diskId => dump.disks.find? fun disk => disk.diskId = some diskId

def classifiedPublic (volume : MountVolume) (kind : VolumeKind) (status : VolumeStatus)
    (reasons : List String) : DeviceVolume where
  identityToken := identityToken digest kind volume.normalizedFsUuid
  continuityToken := continuityToken digest volume
  kind
  status
  mountState := volume.mountState
  reasons

def classifyVisible (volume : MountVolume) (disk : MountDisk) : DeviceVolume :=
  let mountState := volume.mountState
  match corroborate mountState (shell.state volume.id) with
  | .agreeMounted =>
      if mountState.isMounted then
        classifiedPublic digest volume .removableSd .available
          (publicReasons disk "disk_removable_sd" mountState)
      else
        classifiedPublic digest volume .removableSd .unknown
          (reasonsWith "corroboration_missing" mountState)
  | .agreeUnmounted =>
      classifiedPublic digest volume .removableSd .unmounted
        (publicReasons disk "disk_removable_sd" mountState)
  | .conflicting =>
      classifiedPublic digest volume .removableSd .ambiguous
        (reasonsWith "corroboration_conflict" mountState)
  | .missing =>
      classifiedPublic digest volume .removableSd .unknown
        (reasonsWith "corroboration_missing" mountState)

def classifySd (volume : MountVolume) (disk : MountDisk) (fsUuid : Text) : DeviceVolume :=
  let mountState := volume.mountState
  let unproved reason := classifiedPublic digest volume .removableSd .unknown
    (reasonsWith reason mountState)
  match publicVolumePathForm volume.path fsUuid with
  | none => unproved "missing_path_evidence"
  | some pathForm =>
      if pathForm = .mismatch then unproved "path_mismatch"
      else
        match volume.visible with
        | none => unproved "missing_mount_flags"
        | some flagsVisible =>
            match publicVolumeVisibility flagsVisible pathForm with
            | .conflict => unproved "visibility_conflict"
            | .notVisible =>
                classifiedPublic digest volume .removableSd .unsupported
                  (publicReasons disk "public_volume_not_visible" mountState)
            | .visible => classifyVisible digest shell volume disk

def classifyPublicVolume (volume : MountVolume) : DeviceVolume :=
  let mountState := volume.mountState
  let unproved reason := classifiedPublic digest volume .removableSd .unknown
    (reasonsWith reason mountState)
  match findDisk dump volume.diskId with
  | none => unproved "missing_disk_evidence"
  | some disk =>
      if disk.flags.usb then
        classifiedPublic digest volume .usb .unsupported (reasonsWith "disk_usb" mountState)
      else if !disk.flags.sd then unproved "disk_not_removable"
      else
        match volume.normalizedFsUuid with
        | none => unproved "missing_fs_uuid"
        | some fsUuid => classifySd digest shell volume disk fsUuid

end

section

variable (digest : Digest) (dump : MountDump) (shell : ShellVolumeList)

def internalVolume (volume : MountVolume) (reasons : List String) : DeviceVolume where
  identityToken := identityToken digest .internalShared volume.normalizedFsUuid
  continuityToken := continuityToken digest volume
  kind := .internalShared
  status :=
    match volume.mountState with
    | .mountedRw => .available
    | .mountedRo => .available
    | .unmounted => .unmounted
    | .unknown => .unknown
  mountState := volume.mountState
  reasons := reasons ++ [mountReason volume.mountState]

def unavailableInternal (reason : String) : DeviceVolume where
  identityToken := identityToken digest .internalShared none
  continuityToken := placeholderContinuityToken digest
  kind := .internalShared
  status := .unknown
  mountState := .unknown
  reasons := [reason, mountReason .unknown]

def ambiguousInternal (reason : String) : DeviceVolume where
  identityToken := identityToken digest .internalShared none
  continuityToken := placeholderContinuityToken digest
  kind := .internalShared
  status := .ambiguous
  mountState := .unknown
  reasons := [reason]

/-- The entry that is pushed for internal storage and the id of the volume behind it. -/
structure InternalSource where
  entry : Option DeviceVolume
  source : Option Text
  deriving DecidableEq

def unavailableSource (reason : String) : InternalSource :=
  ⟨some (unavailableInternal digest reason), none⟩

def ambiguousSource (reason : String) : InternalSource :=
  ⟨some (ambiguousInternal digest reason), none⟩

def offeredSource (volume : MountVolume) (reasons : List String) : InternalSource :=
  ⟨some (internalVolume digest volume reasons), some volume.id⟩

def emulatedVolumes : List MountVolume :=
  dump.volumes.filter fun volume => volume.volumeType = .emulated

def userConflict (user : Int) (volume : MountVolume) : Bool :=
  volume.emulatedUserEvidence = .conflict &&
    (volume.emulatedIdUser = some user || volume.mountUserId = some user)

def emulatedReasons : List String := ["primary_storage_emulated", "emulated_user_associated"]

def resolveSoleEmulated (volume : MountVolume) : InternalSource :=
  match volume.emulatedUserEvidence with
  | .unknown =>
      offeredSource digest volume ["primary_storage_emulated", "emulated_user_assumed"]
  | _ => ambiguousSource digest "emulated_user_not_system"

def resolveEmulatedPrimary : InternalSource :=
  let emulated := emulatedVolumes dump
  if emulated.isEmpty then unavailableSource digest "primary_storage_unresolved"
  else if emulated.any (userConflict 0) ||
      (emulated.length = 1 && emulated.all fun volume => volume.emulatedUserEvidence = .conflict) then
    ambiguousSource digest "emulated_user_conflict"
  else
    match emulated.find? (fun volume => volume.emulatedUserEvidence = .associated 0), emulated with
    | some volume, _ => offeredSource digest volume emulatedReasons
    | none, [volume] => resolveSoleEmulated digest volume
    | none, _ => ambiguousSource digest "emulated_users_ambiguous"

def resolveEmulatedForUser (user : Int) (reasons : List String) : InternalSource :=
  if (emulatedVolumes dump).any (userConflict user) then
    ambiguousSource digest "emulated_user_conflict"
  else
    match (emulatedVolumes dump).filter
        (fun volume => volume.emulatedUserEvidence = .associated user) with
    | [volume] => offeredSource digest volume reasons
    | [] => unavailableSource digest "primary_storage_missing"
    | _ => ambiguousSource digest "emulated_users_ambiguous"

def resolveNamedEmulated (user : Int) : InternalSource :=
  resolveEmulatedForUser digest dump user emulatedReasons

def promoteSupportedPublicPrimary (volume : MountVolume) : InternalSource :=
  if (classifyPublicVolume digest dump shell volume).status ≠ .available then ⟨none, none⟩
  else offeredSource digest volume ["primary_storage_physical"]

def resolveSolePublic (volumes : List MountVolume) : InternalSource :=
  match volumes with
  | [volume] => promoteSupportedPublicPrimary digest dump shell volume
  | [] => unavailableSource digest "primary_storage_missing"
  | _ => ambiguousSource digest "primary_storage_ambiguous"

def hasFsUuid (fsUuid : Text) (volume : MountVolume) : Bool :=
  volume.normalizedFsUuid.any fun value => eqIgnoreAsciiCase value fsUuid

def resolvePublicByUuid (fsUuid : Text) : InternalSource :=
  resolveSolePublic digest dump shell (dump.volumes.filter fun volume =>
    volume.volumeType = .publicVolume && hasFsUuid fsUuid volume)

def resolvePhysicalPrimary : InternalSource :=
  resolveSolePublic digest dump shell (dump.volumes.filter fun volume =>
    volume.volumeType = .publicVolume && dump.disks.any fun disk =>
      disk.diskId.isSome && disk.diskId = volume.diskId && disk.flags.defaultPrimary)

def stackedById (backing : MountVolume) (volume : MountVolume) : Bool :=
  match ((stripLead "private:".toList backing.id).map trim).filter fun key => key ≠ [] with
  | none => false
  | some key =>
      ((stripLead "emulated:".toList volume.id).bind (splitOnce [';'])).any fun parts =>
        parts.1 = key

def stackedByDisk (backing : MountVolume) (volume : MountVolume) : Bool :=
  backing.diskId.isSome && volume.diskId = backing.diskId

def emulatedStackedVolumes (backing : MountVolume) : List MountVolume :=
  let byId := (emulatedVolumes dump).filter (stackedById backing)
  if byId.isEmpty then (emulatedVolumes dump).filter (stackedByDisk backing) else byId

def resolveAdoptedBacking (fsUuid : Text) : InternalSource :=
  match dump.volumes.filter fun volume =>
      volume.volumeType = .privateVolume && hasFsUuid fsUuid volume with
  | [backing] =>
      match emulatedStackedVolumes dump backing with
      | [emulated] =>
          offeredSource digest emulated ["primary_storage_adopted", "emulated_user_associated"]
      | [] => unavailableSource digest "primary_storage_missing"
      | _ => ambiguousSource digest "primary_storage_ambiguous"
  | [] => resolvePublicByUuid digest dump shell fsUuid
  | _ => ambiguousSource digest "primary_storage_ambiguous"

def internalSource (primary : PrimaryStorage) : InternalSource :=
  match primary with
  | .builtInInternal => resolveEmulatedPrimary digest dump
  | .unreported => resolveEmulatedPrimary digest dump
  | .emulatedUser user =>
      if user = 0 then resolveNamedEmulated digest dump 0
      else ambiguousSource digest "emulated_user_not_system"
  | .physicalPrimary => resolvePhysicalPrimary digest dump shell
  | .adoptedBacking uuid => resolveAdoptedBacking digest dump shell uuid
  | .namedFsUuid uuid => resolvePublicByUuid digest dump shell uuid

end

section

variable (digest : Digest) (dump : MountDump) (shell : ShellVolumeList)

def unsupportedVolume (volume : MountVolume) (kind : VolumeKind) (reason : String) :
    DeviceVolume where
  identityToken := identityToken digest kind volume.normalizedFsUuid
  continuityToken := continuityToken digest volume
  kind
  status := .unsupported
  mountState := volume.mountState
  reasons := [reason, mountReason volume.mountState]

def unknownVolume (volume : MountVolume) : DeviceVolume where
  identityToken := identityToken digest .unknown volume.normalizedFsUuid
  continuityToken := continuityToken digest volume
  kind := .unknown
  status := .unknown
  mountState := volume.mountState
  reasons := ["volume_type_unknown", mountReason volume.mountState]

def listedVolume (volume : MountVolume) : Option DeviceVolume :=
  match volume.volumeType with
  | .publicVolume => some (classifyPublicVolume digest dump shell volume)
  | .privateVolume =>
      if volume.mountState.isMounted || volume.normalizedFsUuid.isSome then
        some (unsupportedVolume digest volume .adoptedPrivate "volume_type_private")
      else none
  | .unknown =>
      if volume.state ≠ [] && !eqIgnoreAsciiCase volume.state "REMOVED".toList then
        some (unknownVolume digest volume)
      else none
  | .emulated => none

def duplicated (volumes : List DeviceVolume) (volume : DeviceVolume) : DeviceVolume :=
  if 1 < volumes.countP (fun other => other.identityToken = volume.identityToken) then
    { volume with
      status := .ambiguous
      reasons := if "duplicate_identity" ∈ volume.reasons then volume.reasons
        else volume.reasons ++ ["duplicate_identity"] }
  else volume

def removeAmbiguousDuplicateIdentities (volumes : List DeviceVolume) : List DeviceVolume :=
  volumes.map (duplicated volumes)

def sortsBefore (left right : DeviceVolume) : Bool :=
  left.kind.sortRank < right.kind.sortRank ||
    (left.kind.sortRank = right.kind.sortRank && left.identityToken ≤ right.identityToken)

def collectVolumes : List DeviceVolume :=
  let internal := internalSource digest dump shell (primaryStorage dump)
  internal.entry.toList ++ (dump.volumes.filter fun volume => some volume.id ≠ internal.source).filterMap
    (listedVolume digest dump shell)

def classifyVolumes : List DeviceVolume :=
  (removeAmbiguousDuplicateIdentities (collectVolumes digest dump shell)).mergeSort sortsBefore

end

end EmuChef.Storage
