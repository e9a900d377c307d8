import EmuChef.Lib.Json
import EmuChef.Lib.Retention
import EmuChef.Lib.Split

/-! Opaque handles for devices and reviewed plans, as one app session hands them out. -/

namespace EmuChef.App

def maxReviews : Nat := 16
def maxTombstones : Nat := 64
def maxDeviceIdentities : Nat := 32

-- Times are in nanoseconds.
def reviewIdleTtl : Nat := 30 * 60 * 10 ^ 9
def reviewAbsoluteTtl : Nat := 2 * 60 * 60 * 10 ^ 9

def maxEpoch : Nat := 2 ^ 64 - 1

def nextEpoch (epoch : Nat) : Nat := max (min (epoch + 1) maxEpoch) 1

structure DeviceRecord where
  handle : String
  serial : String
  state : String
  model : Option String
  transportId : Option String
  sessionEpoch : Nat
  facts : Option Json
  factsSessionEpoch : Option Nat

structure DeviceDto where
  deviceHandle : String
  state : String
  displayName : String
  maskedSerial : String
  deriving DecidableEq

structure QualificationContextKey where
  deviceHandle : String
  sessionEpoch : Nat
  runtimeGeneration : Nat
  platformToolsRevision : Nat
  qualificationRevision : Nat
  capabilityFingerprint : String
  deriving DecidableEq

structure AdbInstallationIdentity where
  path : String
  version : String
  managedRelativePath : Option String
  deriving DecidableEq

structure ReviewedPlanSnapshot where
  response : Json
  target : Json
  catalogIdentity : Json
  planDigest : String
  deviceHandle : String
  qualificationContext : Option QualificationContextKey
  platformToolsIdentity : Option AdbInstallationIdentity
  created : Nat
  lastAccess : Nat

structure ReviewTombstone where
  handle : String
  code : String
  deriving DecidableEq

structure ParsedInventoryDevice where
  serial : String
  state : String
  model : Option String
  transportId : Option String
  deriving DecidableEq

structure SessionHandles where
  devicesByHandle : OrderedMap String DeviceRecord
  handleBySerial : OrderedMap String String
  identityOrder : List String
  reviews : OrderedMap String ReviewedPlanSnapshot
  reviewOrder : List String
  tombstones : List ReviewTombstone
  deviceGeneration : Nat
  sessionEpochByHandle : OrderedMap String Nat
  qualificationContextByHandle : OrderedMap String QualificationContextKey
  lastInventoryCount : Option Nat
  /-- How many UUIDs were drawn so far. -/
  drawn : Nat

def SessionHandles.initial : SessionHandles :=
  ⟨.empty, .empty, [], .empty, [], [], 0, .empty, .empty, none, 0⟩

def stableHandleError (code message : String) : String :=
  (Json.object [("code", .string code), ("message", .string message)]).render

def deviceUnknown : String := stableHandleError "device_unknown" "This device is no longer available."

def deviceChanged : String :=
  stableHandleError "device_changed"
    "The selected device changed. Refresh device discovery and try again."

def deviceNotProbed : String :=
  stableHandleError "device_not_probed" "Read the device information again."

def reviewInvalid (code : String) : String :=
  stableHandleError code "This reviewed plan is no longer valid. Generate a new review."

def reviewUnknown : String :=
  stableHandleError "review_unknown" "This reviewed plan handle is unknown."

namespace SessionHandles

def pushTombstone (handles : SessionHandles) (handle code : String) : SessionHandles :=
  let kept :=
    if handles.tombstones.length ≥ maxTombstones then handles.tombstones.tail else handles.tombstones
  { handles with tombstones := kept ++ [⟨handle, code⟩] }

def removeReview (handles : SessionHandles) (handle code : String) : SessionHandles :=
  pushTombstone
    { handles with
      reviews := handles.reviews.erase handle
      reviewOrder := handles.reviewOrder.filter fun candidate => candidate ≠ handle }
    handle code

-- The order in which a hash map lists its keys only decides the order of the tombstones;
-- here it is the order of insertion.
def removeReviews (handles : SessionHandles) (code : String) (removed : List String) : SessionHandles :=
  removed.foldl (fun handles handle => removeReview handles handle code) handles

def reviewsWhere (handles : SessionHandles) (predicate : ReviewedPlanSnapshot → Bool) : List String :=
  (handles.reviews.entries.filter fun entry => predicate entry.2).map Prod.fst

def invalidateReviewsForDeviceIf (handles : SessionHandles) (deviceHandle code : String)
    (predicate : ReviewedPlanSnapshot → Bool) : SessionHandles :=
  handles.removeReviews code
    (handles.reviewsWhere fun review => review.deviceHandle = deviceHandle && predicate review)

def invalidateReviewsForDevice (handles : SessionHandles) (deviceHandle code : String) :
    SessionHandles :=
  handles.invalidateReviewsForDeviceIf deviceHandle code fun _ => true

def isExpired (now : Nat) (review : ReviewedPlanSnapshot) : Bool :=
  now - review.lastAccess ≥ reviewIdleTtl || now - review.created ≥ reviewAbsoluteTtl

def expireReviews (handles : SessionHandles) (now : Nat) : SessionHandles :=
  handles.removeReviews "review_expired" (handles.reviewsWhere (isExpired now))

def evictReviews (handles : SessionHandles) : List String → Option SessionHandles
  | [] =>
      -- With an empty queue and a full map the loop would go round for ever.
      if handles.reviews.keys.length < maxReviews then some { handles with reviewOrder := [] } else none
  | oldest :: rest =>
      if handles.reviews.keys.length < maxReviews then
        some { handles with reviewOrder := oldest :: rest }
      else
        evictReviews
          (pushTombstone
            { handles with reviews := handles.reviews.erase oldest, reviewOrder := rest }
            oldest "review_stale")
          rest

def reviewName (uuid : Nat → String) (number : Nat) : String := "review_" ++ uuid number

/-- `now` is the clock when the expired reviews are dropped, `later` when the review is stored. -/
def insertReview (uuid : Nat → String) (handles : SessionHandles) (snapshot : ReviewedPlanSnapshot)
    (now later : Nat) : Option (String × SessionHandles) := do
  let expired := handles.expireReviews now
  let handles ← expired.evictReviews expired.reviewOrder
  let handle := reviewName uuid handles.drawn
  return (handle,
    { handles with
      reviewOrder := handles.reviewOrder ++ [handle]
      reviews := handles.reviews.insert handle { snapshot with created := later, lastAccess := later }
      drawn := handles.drawn + 1 })

def tombstone? (handles : SessionHandles) (handle : String) : Option ReviewTombstone :=
  handles.tombstones.find? fun item => item.handle = handle

def review (handles : SessionHandles) (handle : String) (now later : Nat) :
    Except String ReviewedPlanSnapshot × SessionHandles :=
  let handles := handles.expireReviews now
  match handles.tombstone? handle with
  | some tombstone => (.error (reviewInvalid tombstone.code), handles)
  | none =>
      match handles.reviews.get? handle with
      | none => (.error reviewUnknown, handles)
      | some found =>
          let touched := { found with lastAccess := later }
          (.ok touched, { handles with reviews := handles.reviews.insert handle touched })

def discardReview (handles : SessionHandles) (handle : String) (now : Nat) :
    Except String Unit × SessionHandles :=
  let handles := handles.expireReviews now
  if handles.reviews.contains handle then (.ok (), handles.removeReview handle "review_stale")
  else
    match handles.tombstone? handle with
    | some tombstone => (.error (reviewInvalid tombstone.code), handles)
    | none => (.error reviewUnknown, handles)

def invalidateReview (handles : SessionHandles) (handle code : String) : SessionHandles :=
  if handles.reviews.contains handle then handles.removeReview handle code else handles

def deviceName (uuid : Nat → String) (number : Nat) : String := "device_" ++ uuid number

def epoch? (handles : SessionHandles) (handle : String) : Option Nat :=
  handles.sessionEpochByHandle.get? handle

def advanceEpoch (handles : SessionHandles) (handle : String) : SessionHandles :=
  { handles with
    sessionEpochByHandle :=
      handles.sessionEpochByHandle.insert handle (nextEpoch ((handles.epoch? handle).getD 1)) }

def enterEpoch (handles : SessionHandles) (handle : String) : SessionHandles :=
  { handles with
    sessionEpochByHandle :=
      handles.sessionEpochByHandle.insert handle ((handles.epoch? handle).getD 1) }

def loseContinuity (handles : SessionHandles) (handle code : String) : SessionHandles :=
  let handles := handles.advanceEpoch handle
  invalidateReviewsForDevice
    { handles with
      qualificationContextByHandle := handles.qualificationContextByHandle.erase handle }
    handle code

def evictIdentities (handles : SessionHandles) : List String → SessionHandles
  | [] => { handles with identityOrder := [] }
  | oldest :: rest =>
      if handles.handleBySerial.keys.length < maxDeviceIdentities then
        { handles with identityOrder := oldest :: rest }
      else
        evictIdentities { handles with handleBySerial := handles.handleBySerial.erase oldest } rest

def handleForSerial (uuid : Nat → String) (handles : SessionHandles) (serial : String) :
    String × SessionHandles :=
  match handles.handleBySerial.get? serial with
  | some handle =>
      (handle,
        { handles with
          identityOrder :=
            (handles.identityOrder.filter fun candidate => candidate ≠ serial) ++ [serial] })
  | none =>
      let handles := handles.evictIdentities handles.identityOrder
      let handle := deviceName uuid handles.drawn
      (handle,
        { handles with
          handleBySerial := handles.handleBySerial.insert serial handle
          identityOrder := handles.identityOrder ++ [serial]
          drawn := handles.drawn + 1 })

def parseDevice (device : Json) : Except String ParsedInventoryDevice :=
  match (device.field? "serial").bind Json.asStr with
  | none => .error "ADB inventory device omitted its serial."
  | some serial =>
      match (device.field? "state").bind Json.asStr with
      | none => .error "ADB inventory device omitted its state."
      | some state =>
          .ok ⟨serial, state, (device.field? "model").bind Json.asStr,
            (device.field? "transportId").bind Json.asStr⟩

def parseInventory (inventory : Json) : Except String (List ParsedInventoryDevice) :=
  match (inventory.field? "devices").bind Json.asArray with
  | none => .error "ADB inventory response was invalid."
  | some raw => raw.mapM parseDevice

def continuityLost (previous : DeviceRecord) (device : ParsedInventoryDevice) : Bool :=
  !(previous.state = "available" && device.state = "available" && previous.model = device.model &&
    previous.transportId.isSome && previous.transportId = device.transportId)

/-- What the loop over an inventory carries: the session and the devices present so far. -/
structure Reconciling where
  handles : SessionHandles
  present : OrderedMap String DeviceRecord

def reconcileDevice (uuid : Nat → String) (forced : List String) (loop : Reconciling)
    (device : ParsedInventoryDevice) : Reconciling :=
  let named := loop.handles.handleForSerial uuid device.serial
  let handle := named.1
  let entered := named.2.enterEpoch handle
  let previous := entered.devicesByHandle.get? handle
  let lost := (previous.any fun previous => continuityLost previous device) && handle ∉ forced
  let handles := if lost then entered.loseContinuity handle "device_qualification_changed" else entered
  let epoch := (handles.epoch? handle).getD 1
  let kept := previous.filter fun record => record.sessionEpoch = epoch
  ⟨handles,
    loop.present.insert handle
      ⟨handle, device.serial, device.state, device.model, device.transportId, epoch,
        kept.bind (·.facts), kept.bind (·.factsSessionEpoch)⟩⟩

def replaceLetters (pattern replacement : List Char) : Nat → List Char → List Char
  | _, [] => []
  | skip + 1, _ :: rest => replaceLetters pattern replacement skip rest
  | 0, letter :: rest =>
      if (Split.stripLead pattern (letter :: rest)).isSome then
        replacement ++ replaceLetters pattern replacement (pattern.length - 1) rest
      else letter :: replaceLetters pattern replacement 0 rest

def replaceText (text pattern replacement : String) : String :=
  if pattern = "" then
    String.ofList ((text.toList.flatMap fun letter => replacement.toList ++ [letter]) ++ replacement.toList)
  else String.ofList (replaceLetters pattern.toList replacement.toList 0 text.toList)

def maskSerial (serial : String) : String :=
  let letters := serial.toList
  if letters.length ≤ 4 then "••••"
  else "••••-" ++ String.ofList (letters.drop (letters.length - 4))

def deviceDto (record : DeviceRecord) : DeviceDto where
  deviceHandle := record.handle
  state := record.state
  displayName :=
    match record.model with
    | some model => replaceText model record.serial "Android device"
    | none => "Android device"
  maskedSerial := maskSerial record.serial

def cardinalityTransition (handles : SessionHandles) (inventoryCount : Nat) : Bool :=
  handles.lastInventoryCount.any fun previous => previous > 1 || inventoryCount > 1

def forcedEpochHandles (handles : SessionHandles) (inventoryCount : Nat) : List String :=
  if handles.cardinalityTransition inventoryCount then
    (handles.sessionEpochByHandle.keys ++ handles.devicesByHandle.keys).dedup
  else []

def disappeared (handles : SessionHandles) (present : OrderedMap String DeviceRecord)
    (forced : List String) : List String :=
  (handles.devicesByHandle.keys.filter fun handle => !present.contains handle).filter
    fun handle => handle ∉ forced

def reconcile (uuid : Nat → String) (handles : SessionHandles) (parsed : List ParsedInventoryDevice) :
    SessionHandles :=
  let forced := handles.forcedEpochHandles parsed.length
  let handles := forced.foldl
    (fun handles handle => handles.loseContinuity handle "device_qualification_changed") handles
  let loop := parsed.foldl (reconcileDevice uuid forced) ⟨handles, .empty⟩
  let handles := (loop.handles.disappeared loop.present forced).foldl
    (fun handles handle => handles.loseContinuity handle "review_stale") loop.handles
  { handles with
    devicesByHandle := loop.present
    lastInventoryCount := some parsed.length
    deviceGeneration := nextEpoch handles.deviceGeneration }

def updateDevices (uuid : Nat → String) (handles : SessionHandles) (inventory : Json) :
    Except String (List DeviceDto) × SessionHandles :=
  match parseInventory inventory with
  | .error message => (.error message, handles)
  | .ok parsed =>
      let handles := handles.reconcile uuid parsed
      (.ok ((handles.devicesByHandle.values.map deviceDto).mergeSort
        fun left right => left.deviceHandle ≤ right.deviceHandle), handles)

def device (handles : SessionHandles) (handle : String) : Except String DeviceRecord :=
  match handles.devicesByHandle.get? handle with
  | some record => .ok record
  | none => .error deviceUnknown

def qualificationDevices (handles : SessionHandles) : List DeviceRecord :=
  handles.devicesByHandle.values.mergeSort fun left right => left.handle ≤ right.handle

def setFactsForEpoch (handles : SessionHandles) (handle : String) (expectedEpoch : Nat) (facts : Json) :
    Except String Unit × SessionHandles :=
  match handles.devicesByHandle.get? handle with
  | none => (.error deviceUnknown, handles)
  | some record =>
      if record.state ≠ "available" || record.sessionEpoch ≠ expectedEpoch then
        (.error deviceChanged, handles)
      else
        let changed := record.facts.any fun current => !current.equal facts
        let handles :=
          if changed then handles.invalidateReviewsForDevice handle "review_stale" else handles
        (.ok (), { handles with
          devicesByHandle := handles.devicesByHandle.insert handle
            { record with facts := some facts, factsSessionEpoch := some expectedEpoch } })

def facts (handles : SessionHandles) (handle : String) : Except String Json := do
  let record ← handles.device handle
  if record.factsSessionEpoch ≠ some record.sessionEpoch then throw deviceNotProbed
  match record.facts with
  | some facts => return facts
  | none => throw deviceNotProbed

def factsWithEpoch (handles : SessionHandles) (handle : String) : Except String (Json × Nat) := do
  let record ← handles.device handle
  let facts ← handles.facts handle
  match record.factsSessionEpoch with
  | some epoch => return (facts, epoch)
  | none => throw deviceNotProbed

def qualificationContext (handles : SessionHandles) (handle : String) : Option QualificationContextKey :=
  handles.qualificationContextByHandle.get? handle

def setQualificationContext (handles : SessionHandles) (context : QualificationContextKey) :
    Bool × SessionHandles :=
  let changed := (handles.qualificationContext context.deviceHandle).any fun previous => previous ≠ context
  let handles :=
    if changed then
      handles.invalidateReviewsForDevice context.deviceHandle "device_qualification_changed"
    else handles
  (changed, { handles with
    qualificationContextByHandle :=
      handles.qualificationContextByHandle.insert context.deviceHandle context })

def clearQualificationContext (handles : SessionHandles) (handle : String) : Bool × SessionHandles :=
  let removed := (handles.qualificationContext handle).isSome
  let handles :=
    { handles with
      qualificationContextByHandle := handles.qualificationContextByHandle.erase handle }
  (removed,
    if removed then handles.invalidateReviewsForDevice handle "device_qualification_changed" else handles)

def invalidateRuntimeAuthorityPreservingIdentities (handles : SessionHandles) : SessionHandles :=
  let handles := handles.removeReviews "review_stale" handles.reviews.keys
  { handles with
    reviewOrder := []
    devicesByHandle := .empty
    qualificationContextByHandle := .empty
    lastInventoryCount := none
    sessionEpochByHandle := handles.sessionEpochByHandle.mapValues fun _ epoch => nextEpoch epoch }

def invalidateAll (handles : SessionHandles) : SessionHandles :=
  { handles.invalidateRuntimeAuthorityPreservingIdentities with
    handleBySerial := .empty
    identityOrder := [] }

def invalidateIdentityAuthority (handles : SessionHandles) (deviceHandle : String) : SessionHandles :=
  let handles :=
    { handles with
      devicesByHandle := handles.devicesByHandle.erase deviceHandle
      qualificationContextByHandle := handles.qualificationContextByHandle.erase deviceHandle }
  let handles := (handles.invalidateReviewsForDevice deviceHandle "review_stale").advanceEpoch deviceHandle
  { handles with deviceGeneration := nextEpoch handles.deviceGeneration }

end SessionHandles

/-- A call on the handles, or time that passes. `delay` is the time between the two readings of
the clock that a call makes. -/
inductive HandleCall where
  | wait (elapsed : Nat)
  | updateDevices (inventory : Json)
  | setFactsForEpoch (handle : String) (expectedEpoch : Nat) (facts : Json)
  | setQualificationContext (context : QualificationContextKey)
  | clearQualificationContext (handle : String)
  | insertReview (snapshot : ReviewedPlanSnapshot) (delay : Nat)
  | review (handle : String) (delay : Nat)
  | discardReview (handle : String)
  | invalidateReview (handle code : String)
  | invalidateAll
  | invalidateRuntimeAuthorityPreservingIdentities
  | invalidateReviewsForDevice (deviceHandle code : String)
  | invalidateReviewsForDeviceIf (deviceHandle code : String) (predicate : ReviewedPlanSnapshot → Bool)
  | invalidateIdentityAuthority (deviceHandle : String)

structure Session where
  handles : SessionHandles
  clock : Nat

def Session.call (uuid : Nat → String) (session : Session) : HandleCall → Session
  | .wait elapsed => { session with clock := session.clock + elapsed }
  | .updateDevices inventory =>
      { session with handles := (session.handles.updateDevices uuid inventory).2 }
  | .setFactsForEpoch handle expectedEpoch facts =>
      { session with handles := (session.handles.setFactsForEpoch handle expectedEpoch facts).2 }
  | .setQualificationContext context =>
      { session with handles := (session.handles.setQualificationContext context).2 }
  | .clearQualificationContext handle =>
      { session with handles := (session.handles.clearQualificationContext handle).2 }
  | .insertReview snapshot delay =>
      let later := session.clock + delay
      match session.handles.insertReview uuid snapshot session.clock later with
      | some (_, handles) => ⟨handles, later⟩
      | none => session
  | .review handle delay =>
      let later := session.clock + delay
      ⟨(session.handles.review handle session.clock later).2, later⟩
  | .discardReview handle =>
      { session with handles := (session.handles.discardReview handle session.clock).2 }
  | .invalidateReview handle code =>
      { session with handles := session.handles.invalidateReview handle code }
  | .invalidateAll => { session with handles := session.handles.invalidateAll }
  | .invalidateRuntimeAuthorityPreservingIdentities =>
      { session with handles := session.handles.invalidateRuntimeAuthorityPreservingIdentities }
  | .invalidateReviewsForDevice deviceHandle code =>
      { session with handles := session.handles.invalidateReviewsForDevice deviceHandle code }
  | .invalidateReviewsForDeviceIf deviceHandle code predicate =>
      { session with
        handles := session.handles.invalidateReviewsForDeviceIf deviceHandle code predicate }
  | .invalidateIdentityAuthority deviceHandle =>
      { session with handles := session.handles.invalidateIdentityAuthority deviceHandle }

def Session.initial : Session := ⟨.initial, 0⟩

def Session.run (uuid : Nat → String) (session : Session) (calls : List HandleCall) : Session :=
  calls.foldl (Session.call uuid) session

end EmuChef.App
