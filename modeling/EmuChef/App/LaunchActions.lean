import EmuChef.App.Handles

/-! The execution handles of the application and the one-shot launch actions kept beside them. -/

namespace EmuChef.App

inductive ExecutionKind where
  | simulated
  | real
  deriving DecidableEq

structure ExecutionMapping where
  kind : ExecutionKind
  publicHandle : Nat
  sidecarId : String
  reviewHandle : String
  review : ReviewedPlanSnapshot

def ExecutionMapping.isNamed (mapping : ExecutionMapping) (kind : ExecutionKind)
    (publicHandle : Nat) : Bool :=
  mapping.kind = kind && mapping.publicHandle = publicHandle

structure LaunchActionRecord where
  actionHandle : Nat
  label : String
  mapping : ExecutionMapping

structure ExecutionHandleStore where
  startReserved : Option ExecutionKind
  active : Option ExecutionMapping
  latestTerminal : Option ExecutionMapping
  latestTerminalReport : Option Json
  latestLost : Option (Nat × Option ExecutionMapping)
  launchActions : List LaunchActionRecord
  launchAttemptsInFlight : List Nat
  successfulLaunches : List Nat
  /-- How many UUIDs were drawn so far. -/
  drawn : Nat

def ExecutionHandleStore.empty (drawn : Nat) : ExecutionHandleStore :=
  ⟨none, none, none, none, none, [], [], [], drawn⟩

namespace ExecutionHandleStore

variable (store : ExecutionHandleStore)

def reset : ExecutionHandleStore := empty store.drawn

def reserveStart (kind : ExecutionKind) : Option ExecutionHandleStore :=
  if store.startReserved.isSome || store.active.isSome then none
  else some { store with startReserved := some kind }

def releaseStart : ExecutionHandleStore := { store with startReserved := none }

def bindStarted (kind : ExecutionKind) (sidecarId reviewHandle : String)
    (review : ReviewedPlanSnapshot) : ExecutionHandleStore :=
  { store with
    startReserved := none
    active := some { kind, publicHandle := store.drawn, sidecarId, reviewHandle, review }
    drawn := store.drawn + 1 }

def mapping (kind : ExecutionKind) (publicHandle : Nat) : Option ExecutionMapping :=
  (store.active.filter fun mapping => mapping.isNamed kind publicHandle).or
    (store.latestTerminal.filter fun mapping => mapping.isNamed kind publicHandle)

def discardLaunchActionsForExecution (publicHandle : Nat) : ExecutionHandleStore :=
  { store with
    launchActions := store.launchActions.filter fun action =>
      action.mapping.publicHandle ≠ publicHandle
    launchAttemptsInFlight := store.launchAttemptsInFlight.filter (· ≠ publicHandle) }

def forgetLaunches (publicHandle : Nat) : ExecutionHandleStore :=
  let store := store.discardLaunchActionsForExecution publicHandle
  { store with successfulLaunches := store.successfulLaunches.filter (· ≠ publicHandle) }

def forgetTerminalLaunches : ExecutionHandleStore :=
  match store.latestTerminal with
  | some previous => store.forgetLaunches previous.publicHandle
  | none => store

def markTerminalWithReport (kind : ExecutionKind) (publicHandle : Nat) (report : Json) :
    Option ExecutionHandleStore :=
  if store.active.any fun mapping => mapping.isNamed kind publicHandle then
    some { store.forgetTerminalLaunches with
      latestTerminal := store.active, active := none, latestTerminalReport := some report }
  else none

def isLost (publicHandle : Nat) : Bool :=
  store.latestLost.any fun lost => lost.1 = publicHandle

def terminalRetained (kind : ExecutionKind) (publicHandle : Nat) : Bool :=
  store.isLost publicHandle ||
    (store.latestTerminal.any (fun mapping => mapping.isNamed kind publicHandle) &&
      store.latestTerminalReport.isSome)

def ownsActiveMapping (expected : ExecutionMapping) : Bool :=
  store.active.any fun current =>
    current.kind = expected.kind && current.publicHandle = expected.publicHandle &&
      current.sidecarId = expected.sidecarId && current.reviewHandle = expected.reviewHandle &&
      current.review.deviceHandle = expected.review.deviceHandle &&
      current.review.planDigest = expected.review.planDigest

def forgetMapping (kind : ExecutionKind) (publicHandle : Nat) : ExecutionHandleStore :=
  if store.active.any fun mapping => mapping.isNamed kind publicHandle then
    { store.forgetLaunches publicHandle with active := none }
  else if store.latestTerminal.any fun mapping => mapping.isNamed kind publicHandle then
    { store.forgetLaunches publicHandle with latestTerminal := none, latestTerminalReport := none }
  else store

def forgetActive (kind : ExecutionKind) (publicHandle : Nat) : ExecutionHandleStore :=
  if store.active.any fun mapping => mapping.isNamed kind publicHandle then
    { store.forgetLaunches publicHandle with active := none }
  else store

def markLost (publicHandle : Nat) (mapping : Option ExecutionMapping) : ExecutionHandleStore :=
  { store.forgetMapping .real publicHandle with latestLost := some (publicHandle, mapping) }

def retainedLaunchAction (publicHandle : Nat) : Option (Nat × String) :=
  if publicHandle ∈ store.successfulLaunches ∨ publicHandle ∈ store.launchAttemptsInFlight then none
  else (store.launchActions.find? fun action => action.mapping.publicHandle = publicHandle).map
    fun action => (action.actionHandle, action.label)

def insertAction (label : String) (mapping : ExecutionMapping) : ExecutionHandleStore :=
  { store with
    launchActions := { actionHandle := store.drawn, label, mapping } :: store.launchActions
    drawn := store.drawn + 1 }

variable (eligibleLaunchLabel : ExecutionMapping → Json → Option String)

def launchAction (mapping : ExecutionMapping) (report : Json) :
    Option (Nat × String) × ExecutionHandleStore :=
  if mapping.publicHandle ∈ store.successfulLaunches ∨
      mapping.publicHandle ∈ store.launchAttemptsInFlight then (none, store)
  else match store.launchActions.find? fun action =>
      action.mapping.publicHandle = mapping.publicHandle with
    | some existing => (some (existing.actionHandle, existing.label), store)
    | none => match eligibleLaunchLabel mapping report with
      | none => (none, store)
      | some label => (some (store.drawn, label), store.insertAction label mapping)

def consumeLaunchAction (actionHandle : Nat) : Option (LaunchActionRecord × ExecutionHandleStore) :=
  (store.launchActions.find? fun action => action.actionHandle = actionHandle).bind fun action =>
    if action.mapping.publicHandle ∈ store.launchAttemptsInFlight then none
    else some (action, { store with
      launchActions := store.launchActions.filter fun other => other.actionHandle ≠ actionHandle
      launchAttemptsInFlight := action.mapping.publicHandle :: store.launchAttemptsInFlight })

/-- The failed attempt still belongs to the retained execution, which still offers its launch. -/
def reissues (consumed : LaunchActionRecord) : Bool :=
  consumed.mapping.publicHandle ∉ store.successfulLaunches &&
    !store.isLost consumed.mapping.publicHandle &&
    store.latestTerminal.any (fun mapping =>
      mapping.isNamed consumed.mapping.kind consumed.mapping.publicHandle) &&
    store.latestTerminalReport.any fun report =>
      eligibleLaunchLabel consumed.mapping report = some consumed.label

def completeFailedLaunch (consumed : LaunchActionRecord) : ExecutionHandleStore :=
  let store := { store with
    launchAttemptsInFlight :=
      store.launchAttemptsInFlight.filter (· ≠ consumed.mapping.publicHandle) }
  if store.reissues eligibleLaunchLabel consumed &&
      !store.launchActions.any (fun action =>
        action.mapping.publicHandle = consumed.mapping.publicHandle) then
    store.insertAction consumed.label consumed.mapping
  else store

def markLaunchSucceeded (publicHandle : Nat) : ExecutionHandleStore :=
  { store with
    successfulLaunches := publicHandle :: store.successfulLaunches }.discardLaunchActionsForExecution
      publicHandle

/-- The store after the terminal report of a real execution was read, for the mapping that the reader
had captured before. -/
def retainTerminalRealExecution (mapping : ExecutionMapping) (report : Json) : ExecutionHandleStore :=
  if store.terminalRetained .real mapping.publicHandle || !store.ownsActiveMapping mapping then store
  else
    let offered := store.launchAction eligibleLaunchLabel mapping report
    if (eligibleLaunchLabel mapping report).isSome && offered.1.isNone then offered.2
    else (offered.2.markTerminalWithReport .real mapping.publicHandle report).getD offered.2

end ExecutionHandleStore

/-- The store with the launch attempts that run, and what happened before: the actions that started an
attempt, and the executions with a successful one. -/
structure LaunchWorld where
  store : ExecutionHandleStore
  attempts : List LaunchActionRecord
  started : List Nat
  launched : List Nat

def LaunchWorld.initial : LaunchWorld := ⟨.empty 0, [], [], []⟩

/-- One locked operation on the store. A failed attempt also stands for one dropped by unwinding. -/
inductive LaunchEvent where
  | reserveStart (kind : ExecutionKind)
  | releaseStart
  | bindStarted (kind : ExecutionKind) (sidecarId reviewHandle : String)
      (review : ReviewedPlanSnapshot)
  | retainReal (mapping : ExecutionMapping) (report : Json)
  | retainSimulated (publicHandle : Nat) (report : Json)
  | forgetSimulated (publicHandle : Nat)
  | loseExecution (publicHandle : Nat)
  | loseRuntime (publicHandle : Nat)
  | reset
  | poll (publicHandle : Nat)
  | consume (actionHandle : Nat)
  | succeed (attempt : Nat)
  | fail (attempt : Nat)

namespace LaunchWorld

variable (eligibleLaunchLabel : ExecutionMapping → Json → Option String) (world : LaunchWorld)

def withStore (store : ExecutionHandleStore) : LaunchWorld := { world with store := store }

def attempt? (actionHandle : Nat) : Option LaunchActionRecord :=
  world.attempts.find? fun attempt => attempt.actionHandle = actionHandle

def without (actionHandle : Nat) : List LaunchActionRecord :=
  world.attempts.filter fun attempt => attempt.actionHandle ≠ actionHandle

/-- What an event makes of the world, where it can happen. A handle is lost only after it was drawn. -/
def step : LaunchEvent → Option LaunchWorld
  | .reserveStart kind => (world.store.reserveStart kind).map world.withStore
  | .releaseStart => some (world.withStore world.store.releaseStart)
  | .bindStarted kind sidecarId reviewHandle review =>
    if world.store.startReserved = some kind then
      some (world.withStore (world.store.bindStarted kind sidecarId reviewHandle review))
    else none
  | .retainReal mapping report =>
    if mapping.kind = .real then
      some (world.withStore
        (world.store.retainTerminalRealExecution eligibleLaunchLabel mapping report))
    else none
  | .retainSimulated publicHandle report =>
    (world.store.markTerminalWithReport .simulated publicHandle report).map world.withStore
  | .forgetSimulated publicHandle =>
    some (world.withStore (world.store.forgetActive .simulated publicHandle))
  | .loseExecution publicHandle =>
    if publicHandle < world.store.drawn then
      some (world.withStore ((world.store.forgetMapping .real publicHandle).markLost publicHandle
        (world.store.mapping .real publicHandle)))
    else none
  | .loseRuntime publicHandle =>
    if publicHandle < world.store.drawn then
      some (world.withStore (world.store.reset.markLost publicHandle
        (world.store.mapping .real publicHandle)))
    else none
  | .reset => some (world.withStore world.store.reset)
  | .poll _ => some world
  | .consume actionHandle => (world.store.consumeLaunchAction actionHandle).map fun consumed =>
    { world with
      store := consumed.2
      attempts := consumed.1 :: world.attempts
      started := actionHandle :: world.started }
  | .succeed actionHandle => (world.attempt? actionHandle).map fun attempt =>
    { world with
      store := world.store.markLaunchSucceeded attempt.mapping.publicHandle
      attempts := world.without actionHandle
      launched := attempt.mapping.publicHandle :: world.launched }
  | .fail actionHandle => (world.attempt? actionHandle).map fun attempt =>
    { world with
      store := world.store.completeFailedLaunch eligibleLaunchLabel attempt
      attempts := world.without actionHandle }

inductive Reachable : LaunchWorld → Prop
  | initial : Reachable initial
  | step {world next : LaunchWorld} {event : LaunchEvent} :
      Reachable world → world.step eligibleLaunchLabel event = some next → Reachable next

end LaunchWorld

end EmuChef.App
