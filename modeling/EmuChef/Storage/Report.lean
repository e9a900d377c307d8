import EmuChef.Adb.DeviceEvidence

/-! Reading the two storage reports of a device: the mount dump and the shell's volume list. -/

namespace EmuChef.Storage

open Adb
open Executor (isAsciiDigit isWhitespace)
open Split (stripLead splitOnce rsplitOnce)

abbrev Text := List Char

def maxReportBytes : Nat := 512 * 1024

def maxReportLines : Nat := 20000

inductive DeviceStorageFailure where
  | unavailable
  | commandFailed
  | malformed
  deriving DecidableEq

def toAsciiUppercase (text : Text) : Text := text.map Char.toUpper

def eqIgnoreAsciiCase (left right : Text) : Bool := toAsciiLowercase left = toAsciiLowercase right

def startsWith (text : Text) (lead : String) : Bool := (stripLead lead.toList text).isSome

def isNull (value : Text) : Bool := value = [] || eqIgnoreAsciiCase value "null".toList

def parseDigits (digits : Text) : Option Nat :=
  if digits ≠ [] ∧ digits.all isAsciiDigit then some (decimal digits) else none

def parseI64 (text : Text) : Option Int :=
  match stripLead ['-'] text with
  | some digits => (parseDigits digits).bind fun value =>
      if value ≤ 2 ^ 63 then some (-(value : Int)) else none
  | none => (parseDigits ((stripLead ['+'] text).getD text)).bind fun value =>
      if value < 2 ^ 63 then some (value : Int) else none

def keyValues (line : Text) : List (Text × Text) :=
  (splitWhitespace line).filterMap fun token =>
    match token.span fun letter => letter ≠ '=' && letter ≠ ':' with
    | ([], _) => none
    | (_, []) => none
    | (key, _ :: value) => some (toAsciiLowercase key, value)

inductive MountVolumeType where
  | privateVolume
  | emulated
  | publicVolume
  | unknown
  deriving DecidableEq

inductive VolumeMountState where
  | mountedRw
  | mountedRo
  | unmounted
  | unknown
  deriving DecidableEq

structure MountVolume where
  id : Text
  volumeType : MountVolumeType
  diskId : Option Text
  state : Text
  fsUuid : Option Text
  path : Option Text
  internalPath : Option Text
  mountFlags : Option Text
  mountUserId : Option Int
  visible : Option Bool
  contradictory : Bool
  deriving DecidableEq

inductive EmulatedUserEvidence where
  | associated (user : Int)
  | conflict
  | unknown
  deriving DecidableEq

def mountStateFromText (raw : Text) : VolumeMountState :=
  let state := String.ofList (toAsciiUppercase (trim raw))
  if state = "MOUNTED" then .mountedRw
  else if state ∈ ["MOUNTED_RO", "MOUNTEDRO", "MOUNTED_READ_ONLY"] then .mountedRo
  else if state ∈ ["UNMOUNTED", "REMOVED", "EJECTING", "BAD_REMOVAL", "UNMOUNTABLE", "CHECKING",
      "FORMATTING"] then .unmounted
  else .unknown

namespace MountVolume

def new (id : Text) : MountVolume :=
  ⟨id, .unknown, none, [], none, none, none, none, none, none, false⟩

def mountState (volume : MountVolume) : VolumeMountState := mountStateFromText volume.state

def emulatedIdUser (volume : MountVolume) : Option Int :=
  match stripLead "emulated;".toList volume.id with
  | some value => parseI64 (trim value)
  | none =>
      ((stripLead "emulated:".toList volume.id).bind (rsplitOnce ';')).bind fun parts =>
        parseI64 (trim parts.2)

def emulatedUserEvidence (volume : MountVolume) : EmulatedUserEvidence :=
  match volume.emulatedIdUser, volume.mountUserId with
  | some idUser, some mountUserId =>
      if idUser ≠ mountUserId then .conflict else .associated idUser
  | some user, none => .associated user
  | none, some user => .associated user
  | none, none => .unknown

def normalizedFsUuid (volume : MountVolume) : Option Text :=
  (volume.fsUuid.map trim).filter fun value => !isNull value

end MountVolume

def normalizeDiskId (raw : Text) : Option Text :=
  let value := trim raw
  if isNull value then none
  else
    let withoutPrefix :=
      if toAsciiLowercase (value.take 5) = "disk:".toList then value.drop 5 else value
    let stripped := trim withoutPrefix
    if isNull stripped then none else some stripped

def typeFromText (value : Text) : MountVolumeType :=
  let upper := String.ofList (toAsciiUppercase value)
  if upper = "PRIVATE" then .privateVolume
  else if upper = "EMULATED" then .emulated
  else if upper = "PUBLIC" then .publicVolume
  else .unknown

def visibleNames : List String := ["VISIBLE", "VISIBLE_FOR_READ", "VISIBLE_FOR_WRITE"]

def parseVolumeVisibility (value : Text) : Bool :=
  (value.splitOnP (· = '|')).any fun raw =>
    let token := toAsciiUppercase (trim raw)
    String.ofList ((stripLead "MOUNT_FLAG_".toList token).getD token) ∈ visibleNames

section

variable (volume : MountVolume) (value : Text)

def mergeVolumeType : MountVolume :=
  let next := typeFromText value
  if volume.volumeType = .unknown then { volume with volumeType := next }
  else if next ≠ .unknown ∧ next ≠ volume.volumeType then { volume with contradictory := true }
  else volume

def mergeVolumeState : MountVolume :=
  let value := trim value
  if isNull value then volume
  else if volume.state = [] then { volume with state := toAsciiUppercase value }
  else if !eqIgnoreAsciiCase volume.state value then { volume with contradictory := true }
  else volume

def mergeVolumeMountFlags : MountVolume :=
  let value := trim value
  if isNull value then volume
  else
    match volume.mountFlags with
    | some existing => if existing ≠ value then { volume with contradictory := true } else volume
    | none =>
        { volume with mountFlags := some value, visible := some (parseVolumeVisibility value) }

def mergeVolumeDiskId : MountVolume :=
  match volume.diskId, normalizeDiskId value with
  | none, some next => { volume with diskId := some next }
  | some existing, some next =>
      if existing ≠ next then { volume with contradictory := true } else volume
  | _, none => volume

def mergeVolumeMountUser : MountVolume :=
  match parseI64 value with
  | none => volume
  | some next =>
      match volume.mountUserId with
      | none => { volume with mountUserId := some next }
      | some existing =>
          if existing ≠ next then { volume with contradictory := true } else volume

def mergeVolumeOption (field : Option Text) (caseInsensitive : Bool) : Option Text × Bool :=
  let value := trim value
  if isNull value then (field, false)
  else
    match field with
    | some existing =>
        let same := if caseInsensitive then eqIgnoreAsciiCase existing value else existing = value
        (field, !same)
    | none => (some value, false)

end

def applyVolumeToken (volume : MountVolume) (token : Text × Text) : MountVolume :=
  let value := token.2
  match String.ofList token.1 with
  | "type" => mergeVolumeType volume value
  | "diskid" => mergeVolumeDiskId volume value
  | "mountuserid" => mergeVolumeMountUser volume value
  | "mountflags" => mergeVolumeMountFlags volume value
  | "state" => mergeVolumeState volume value
  | "fsuuid" =>
      let merged := mergeVolumeOption value volume.fsUuid true
      { volume with fsUuid := merged.1, contradictory := volume.contradictory || merged.2 }
  | "path" =>
      let merged := mergeVolumeOption value volume.path false
      { volume with path := merged.1, contradictory := volume.contradictory || merged.2 }
  | "internalpath" =>
      let merged := mergeVolumeOption value volume.internalPath false
      { volume with internalPath := merged.1, contradictory := volume.contradictory || merged.2 }
  | _ => volume

def applyVolumeTokens (volume : MountVolume) (line : Text) : MountVolume :=
  (keyValues line).foldl applyVolumeToken volume

def upsertVolume (volumes : List MountVolume) (id : Text) : List MountVolume × Nat :=
  match volumes.findIdx? (fun volume => volume.id = id) with
  | some index => (volumes, index)
  | none => (volumes ++ [MountVolume.new id], volumes.length)

structure DiskFlags where
  sd : Bool
  usb : Bool
  adoptable : Bool
  defaultPrimary : Bool
  deriving DecidableEq

def DiskFlags.none : DiskFlags := ⟨false, false, false, false⟩

structure MountDisk where
  diskId : Option Text
  flags : DiskFlags
  flagsObserved : Bool
  contradictory : Bool
  deriving DecidableEq

def MountDisk.new (diskId : Option Text) : MountDisk := ⟨diskId, .none, false, false⟩

def parseDiskFlags (value : Text) : DiskFlags :=
  let tokens := (value.splitOnP fun letter => letter = '|' || letter = ',' || letter = '+').map
    fun raw =>
      let token := toAsciiUppercase (trim raw)
      String.ofList ((stripLead "FLAG_".toList token).getD token)
  ⟨"SD" ∈ tokens, "USB" ∈ tokens, "ADOPTABLE" ∈ tokens, "DEFAULT_PRIMARY" ∈ tokens⟩

/-- The flags that a line of a disk record shows: those of its last `flags` key or, without one,
those that stand anywhere in the line. -/
def lineFlags (line : Text) : Option DiskFlags :=
  let observed := ((keyValues line).filter fun token => token.1 = "flags".toList).getLast?.map
    fun token => parseDiskFlags token.2
  observed.or (
    let flags := parseDiskFlags line
    if flags = .none then none else some flags)

def applyDiskTokens (disk : MountDisk) (line : Text) : MountDisk :=
  match lineFlags line with
  | none => disk
  | some flags =>
      if disk.flagsObserved then
        if disk.flags ≠ flags then { disk with contradictory := true } else disk
      else { disk with flags, flagsObserved := true }

def upsertDisk (disks : List MountDisk) (diskId : Option Text) : List MountDisk × Nat :=
  match disks.findIdx? (fun disk => disk.diskId.isSome && disk.diskId = diskId) with
  | some index => (disks, index)
  | none => (disks ++ [MountDisk.new diskId], disks.length)

structure MountDump where
  primaryStorageUuid : Option Text
  primaryStorageConflict : Bool
  volumes : List MountVolume
  disks : List MountDisk
  deriving DecidableEq

def MountDump.empty : MountDump := ⟨none, false, [], []⟩

def recordPrimaryStorageUuid (dump : MountDump) (raw : Text) : MountDump :=
  let value := trim raw
  if isNull value then dump
  else
    match dump.primaryStorageUuid with
    | some existing =>
        if !eqIgnoreAsciiCase existing value then { dump with primaryStorageConflict := true }
        else dump
    | none => { dump with primaryStorageUuid := some value }

inductive DumpSection where
  | other
  | volumes
  | disks
  | records
  deriving DecidableEq

def isRecordsHeader (trimmed : Text) : Bool :=
  let lower := toAsciiLowercase trimmed
  startsWith lower "records:" || startsWith lower "mrecords:"

def aospPrimaryStorageUuid (trimmed : Text) : Option Text :=
  (stripLead "Primary storage UUID:".toList trimmed).map trim

def assignedPrimaryStorageUuid (trimmed : Text) : Option Text :=
  (stripLead "mPrimaryStorageUuid".toList trimmed).bind fun value =>
    stripLead ['='] (value.dropWhile isWhitespace)

def startsStorageSection (trimmed : Text) : Bool :=
  trimmed = "Disks:".toList || trimmed = "Volumes:".toList || isRecordsHeader trimmed ||
    (aospPrimaryStorageUuid trimmed).isSome || startsWith trimmed "mVolumes" ||
    startsWith trimmed "mDisks" || startsWith trimmed "mPrimaryStorageUuid" ||
    startsWith trimmed "System build date"

def headedSection (trimmed : Text) : Option DumpSection :=
  if trimmed = "Disks:".toList then some .disks
  else if trimmed = "Volumes:".toList then some .volumes
  else if isRecordsHeader trimmed then some .records
  else if startsWith trimmed "mVolumes" then some .volumes
  else if startsWith trimmed "mDisks" then some .disks
  else none

def recordHeader (opening : String) (trimmed : Text) : Option Text :=
  ((splitOnce opening.toList trimmed).bind fun parts => splitOnce ['\x7d'] parts.2).map Prod.fst

inductive LineEffect where
  | nothing
  /-- No record is current any more. -/
  | leave
  | primary (value : Text)
  | openVolume (id : Text)
  | openDisk (diskId : Option Text)
  | volumeTokens (line : Text)
  | diskTokens (line : Text)
  | malformed
  deriving DecidableEq

def readRecordLine (part : DumpSection) (trimmed : Text) : LineEffect :=
  match part with
  | .volumes =>
      if contains trimmed "VolumeInfo\x7b" then
        match recordHeader "VolumeInfo\x7b" trimmed with
        | none => .malformed
        | some id => if trim id = [] then .malformed else .openVolume (trim id)
      else .volumeTokens trimmed
  | .disks =>
      if contains trimmed "DiskInfo\x7b" then
        match recordHeader "DiskInfo\x7b" trimmed with
        | none => .malformed
        | some inner => .openDisk (normalizeDiskId inner)
      else .diskTokens trimmed
  | _ => .nothing

def readLine (part : DumpSection) (line : Text) : DumpSection × List LineEffect :=
  let trimmed := trim line
  if trimmed = [] then (part, [])
  else
    match aospPrimaryStorageUuid trimmed with
    | some value => (.other, [.leave, .primary value])
    | none =>
        if part = .records && !startsStorageSection trimmed then (part, [])
        else
          let part := if part = .records then .other else part
          match headedSection trimmed with
          | some opened => (opened, [.leave])
          | none =>
              match assignedPrimaryStorageUuid trimmed with
              | some value => (part, [.primary value])
              | none => (part, [readRecordLine part trimmed])

structure DumpState where
  dump : MountDump
  currentVolume : Option Nat
  currentDisk : Option Nat

def applyEffect (state : DumpState) : LineEffect → Except DeviceStorageFailure DumpState
  | .nothing => .ok state
  | .leave => .ok { state with currentVolume := none, currentDisk := none }
  | .primary value => .ok { state with dump := recordPrimaryStorageUuid state.dump value }
  | .openVolume id =>
      let upserted := upsertVolume state.dump.volumes id
      .ok { dump := { state.dump with volumes := upserted.1 }
            currentVolume := some upserted.2, currentDisk := none }
  | .openDisk diskId =>
      let upserted := upsertDisk state.dump.disks diskId
      .ok { dump := { state.dump with disks := upserted.1 }
            currentVolume := none, currentDisk := some upserted.2 }
  | .volumeTokens line =>
      match state.currentVolume with
      | none => .ok state
      | some index => .ok { state with dump := { state.dump with
          volumes := state.dump.volumes.modify index (applyVolumeTokens · line) } }
  | .diskTokens line =>
      match state.currentDisk with
      | none => .ok state
      | some index => .ok { state with dump := { state.dump with
          disks := state.dump.disks.modify index (applyDiskTokens · line) } }
  | .malformed => .error .malformed

def effects (part : DumpSection) : List Text → List LineEffect
  | [] => []
  | line :: rest => (readLine part line).2 ++ effects (readLine part line).1 rest

def boundedLines (stdout : String) : Except DeviceStorageFailure (List Text) :=
  let held := lines stdout.toList
  if maxReportBytes < stdout.utf8ByteSize || maxReportLines < held.length then .error .malformed
  else .ok held

def checkedDump (dump : MountDump) : Except DeviceStorageFailure MountDump :=
  if dump.primaryStorageConflict || dump.volumes.any (·.contradictory) ||
      dump.disks.any (·.contradictory) then .error .malformed
  else .ok dump

def parseMountDump (stdout : String) : Except DeviceStorageFailure MountDump := do
  let held ← boundedLines stdout
  let state ← (effects .other held).foldlM applyEffect ⟨.empty, none, none⟩
  checkedDump state.dump

inductive ShellVolumeState where
  | mounted
  | mountedRo
  | notMounted
  | unknown
  deriving DecidableEq

abbrev ShellVolumeList := OrderedMap Text (Option ShellVolumeState)

inductive ShellStateLookup where
  | missing
  | conflicting
  | known (state : ShellVolumeState)
  deriving DecidableEq

def ShellVolumeList.state (list : ShellVolumeList) (id : Text) : ShellStateLookup :=
  match list.get? id with
  | none => .missing
  | some none => .conflicting
  | some (some state) => .known state

def shellState (raw : Text) : ShellVolumeState :=
  let lower := String.ofList (toAsciiLowercase raw)
  if lower = "mounted" then .mounted
  else if lower ∈ ["mounted_ro", "mountedro", "mounted_read_only"] then .mountedRo
  else if lower ∈ ["unmounted", "ejecting", "removed", "bad_removal", "checking", "unmountable",
      "formatting"] then .notMounted
  else .unknown

def readShellLine (line : Text) : Option (Text × ShellVolumeState) :=
  let trimmed := trim line
  if trimmed = [] || trimmed.getLast? = some ':' then none
  else
    match splitWhitespace trimmed with
    | [id, rawState] => some (id, shellState rawState)
    | [id, rawState, _] => some (id, shellState rawState)
    | _ => none

def recordShellState (list : ShellVolumeList) (entry : Text × ShellVolumeState) : ShellVolumeList :=
  match list.get? entry.1 with
  | none => list.insert entry.1 (some entry.2)
  | some (some previous) =>
      if previous = entry.2 then list else list.insert entry.1 none
  | some none => list.insert entry.1 none

def parseShellLines (held : List Text) : ShellVolumeList :=
  (held.filterMap readShellLine).foldl recordShellState .empty

def parseShellVolumes (stdout : String) : Except DeviceStorageFailure ShellVolumeList := do
  let held ← boundedLines stdout
  pure (parseShellLines held)

end EmuChef.Storage
