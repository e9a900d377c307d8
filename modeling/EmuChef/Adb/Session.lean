import EmuChef.Adb.DeviceEvidence
import EmuChef.Lib.Program

/-! The ADB device of one session: its identity guard, its reviewed root authority and the guarded
operations. -/

namespace EmuChef.Adb

open Program (request)

structure TargetDeviceBinding where
  serial : String
  manufacturer : Option String
  model : Option String
  androidApiLevel : Option Int
  deriving DecidableEq

inductive RootShellRoute where
  | suCommand
  | suZero
  deriving DecidableEq

/-- What a session issues to the device. The last four are marks without a response: a new
configuration, the start of an operation's body and what a guarded operation returns. -/
inductive SessionOperation where
  | command (args : List String) (check : Bool) (operation : ProcessOperation)
  | shell (args : List String) (privileged : Bool) (mode : RootShellMode) (check : Bool)
      (operation : ProcessOperation)
  | rootProbe (mode : RootShellMode)
  | configureIdentity (target : Option TargetDeviceBinding)
  | configureAuthority (reviewedRootAuthorized : Bool)
  | body
  | returned (succeeded : Bool)
  deriving DecidableEq

def SessionResponse : SessionOperation → Type
  | .command .. | .shell .. | .rootProbe _ => Except AdbCommandError AdbCommandResult
  | .configureIdentity _ | .configureAuthority _ | .body | .returned _ => Unit

abbrev SessionProgram (α : Type) := Program SessionOperation SessionResponse α

abbrev SessionEvent := Event SessionOperation SessionResponse

def mark (operation : SessionOperation) : SessionProgram (SessionResponse operation) :=
  request operation

def runCommand (args : List String) (check : Bool) (operation : ProcessOperation) :
    SessionProgram (Except AdbCommandError AdbCommandResult) :=
  request (SessionOperation.command args check operation)

def sendShell (args : List String) (privileged : Bool) (mode : RootShellMode) (check : Bool)
    (operation : ProcessOperation) : SessionProgram (Except AdbCommandError AdbCommandResult) :=
  request (SessionOperation.shell args privileged mode check operation)

def runRootProbeWithMode (mode : RootShellMode) :
    SessionProgram (Except AdbCommandError AdbCommandResult) :=
  request (SessionOperation.rootProbe mode)

inductive DeviceCommandEffect where
  | readOnly
  | mutating
  deriving DecidableEq

structure RootAuthorityGuard where
  reviewedRootAuthorized : Bool
  trustworthyMutationCompleted : Bool
  deriving DecidableEq

namespace RootAuthorityGuard

def configure (reviewedRootAuthorized : Bool) : RootAuthorityGuard :=
  { reviewedRootAuthorized, trustworthyMutationCompleted := false }

def isTrustworthy {α : Type} : Except AdbCommandError α → Bool
  | .ok _ | .error (.commandFailed ..) => true
  | .error _ => false

def recordResult {α : Type} (guard : RootAuthorityGuard) (effect : DeviceCommandEffect)
    (result : Except AdbCommandError α) : RootAuthorityGuard :=
  if effect = .mutating ∧ isTrustworthy result then { guard with trustworthyMutationCompleted := true }
  else guard

@[simp] theorem recordResult_authorized {α : Type} (guard : RootAuthorityGuard)
    (effect : DeviceCommandEffect) (result : Except AdbCommandError α) :
    (guard.recordResult effect result).reviewedRootAuthorized = guard.reviewedRootAuthorized := by
  unfold recordResult
  split_ifs <;> rfl

end RootAuthorityGuard

structure IdentityTarget where
  serial : String
  manufacturer : String
  model : String
  androidApiLevel : Nat
  deriving DecidableEq

inductive ReviewedIdentityTarget where
  | ready (target : IdentityTarget)
  | insufficient
  deriving DecidableEq

structure IdentityGuard where
  enabled : Bool
  target : Option ReviewedIdentityTarget
  baseline : Option DeviceIdentityFingerprint
  deriving DecidableEq

def getpropArguments : List String := ["shell", "getprop"]

def androidIdArguments : List String := ["shell", "settings", "get", "secure", "android_id"]

def runIdentityCommand (args : List String) :
    SessionProgram (Except AdbCommandError AdbCommandResult) :=
  runCommand args true .probe

def identityOutput : Except AdbCommandError AdbCommandResult → Except AdbCommandError (Option String)
  | .ok result => .ok (some result.stdout)
  | .error (.commandFailed ..) => .ok none
  | .error error => .error error

def collectSample :
    SessionProgram (Except AdbCommandError (Option DeviceIdentityFingerprint)) := do
  let getprop ← runIdentityCommand getpropArguments
  match identityOutput getprop with
  | .error error => pure (.error error)
  | .ok output =>
      match output.bind parseGetpropSample with
      | none => pure (.ok none)
      | some properties => do
          let androidId ← runIdentityCommand androidIdArguments
          match identityOutput androidId with
          | .error error => pure (.error error)
          | .ok output =>
              pure (.ok ((output.bind parseAndroidIdOutput).bind properties.intoFingerprint))

def collectFingerprint :
    SessionProgram (Except AdbCommandError (Option DeviceIdentityFingerprint)) := do
  match ← collectSample with
  | .error error => pure (.error error)
  | .ok none => pure (.ok none)
  | .ok (some first) =>
      match ← collectSample with
      | .error error => pure (.error error)
      | .ok none => pure (.ok none)
      | .ok (some second) =>
          if compareSamples first second = .same then pure (.ok (some first)) else pure (.ok none)

def matchesReviewedTarget (fingerprint : DeviceIdentityFingerprint) (target : IdentityTarget) : Bool :=
  target.manufacturer = fingerprint.manufacturer && target.model = fingerprint.model &&
    target.androidApiLevel = fingerprint.androidApiLevel

def reviewedTarget (binding : TargetDeviceBinding) : ReviewedIdentityTarget :=
  let serial := trim binding.serial.toList
  let level := (binding.androidApiLevel.filter fun value => 0 < value ∧ value < 2 ^ 32).map Int.toNat
  match serial, binding.manufacturer.bind (normalizeText ·.toList),
      binding.model.bind (normalizeText ·.toList), level with
  | _ :: _, some manufacturer, some model, some androidApiLevel =>
      .ready { serial := String.ofList serial, manufacturer, model, androidApiLevel }
  | _, _, _, _ => .insufficient

namespace IdentityGuard

def disabled : IdentityGuard := ⟨false, none, none⟩

def configure (target : Option TargetDeviceBinding) : IdentityGuard where
  enabled := true
  target := some (target.elim .insufficient reviewedTarget)
  baseline := none

/-- The judgement of an agreed fingerprint, which becomes the baseline when there is none yet. -/
def judge (guard : IdentityGuard) (target : IdentityTarget) (phase : IdentityCheckPhase)
    (fingerprint : DeviceIdentityFingerprint) : IdentityGuard × Except AdbCommandError Unit :=
  match guard.baseline with
  | none =>
      if matchesReviewedTarget fingerprint target then
        ({ guard with baseline := some fingerprint }, .ok ())
      else (guard, .error (.deviceIdentityChanged phase))
  | some baseline =>
      match compareSamples baseline fingerprint with
      | .same => (guard, .ok ())
      | .changed => (guard, .error (.deviceIdentityChanged phase))
      | .unverified => (guard, .error (.deviceIdentityUnverified phase))

def compare (guard : IdentityGuard) (target : IdentityTarget) (phase : IdentityCheckPhase) :
    SessionProgram (IdentityGuard × Except AdbCommandError Unit) := do
  match ← collectFingerprint with
  | .error error => pure (guard, .error error)
  | .ok none => pure (guard, .error (.deviceIdentityUnverified phase))
  | .ok (some fingerprint) => pure (guard.judge target phase fingerprint)

def check (guard : IdentityGuard) (serial : Option String) (phase : IdentityCheckPhase) :
    SessionProgram (IdentityGuard × Except AdbCommandError Unit) :=
  if guard.enabled = false then pure (guard, .ok ())
  else
    match guard.target, serial with
    | some (.ready target), some serial =>
        if serial = target.serial then guard.compare target phase
        else pure (guard, .error (.deviceIdentityChanged phase))
    | _, _ => pure (guard, .error (.deviceIdentityUnverified phase))

end IdentityGuard

structure RealAdbDevice where
  serial : Option String
  lastError : Option AdbCommandError
  identity : IdentityGuard
  rootAuthority : RootAuthorityGuard
  rootShellMode : RootShellMode
  deriving DecidableEq

namespace RealAdbDevice

def new (serial : Option String) : RealAdbDevice :=
  { serial, lastError := none, identity := .disabled, rootAuthority := ⟨false, false⟩
    rootShellMode := .suCommand }

def configureIdentityGuard (device : RealAdbDevice) (target : Option TargetDeviceBinding) :
    RealAdbDevice :=
  { device with identity := if target.isSome then .configure target else .disabled }

def configureRootAuthority (device : RealAdbDevice) (reviewedRootAuthorized : Bool) :
    RealAdbDevice :=
  { device with rootAuthority := .configure reviewedRootAuthorized }

def configureRootShellRoute (device : RealAdbDevice) (route : Option RootShellRoute) :
    RealAdbDevice :=
  { device with rootShellMode := if route = some .suZero then .suUserId else .suCommand }

def checkIdentity (device : RealAdbDevice) (phase : IdentityCheckPhase) :
    SessionProgram (RealAdbDevice × Except AdbCommandError Unit) := do
  let checked ← device.identity.check device.serial phase
  pure ({ device with identity := checked.1 }, checked.2)

def probeRootTypedWithMode (device : RealAdbDevice) :
    SessionProgram (Except AdbCommandError RootProbeOutcome) := do
  let answer ← runRootProbeWithMode device.rootShellMode
  pure (answer.map classifyRootResult)

def rootProbeError : RootProbeOutcome → Except AdbCommandError Unit
  | .granted => .ok ()
  | .denied => .error .rootDenied
  | .unavailable => .error .rootUnavailable
  | .checkFailed _ _ => .error .rootCheckFailed

def checkRootUnchecked (device : RealAdbDevice) : SessionProgram (Except AdbCommandError Unit) :=
  match device.serial with
  | none => pure (.error .rootCheckFailed)
  | some _ => do
      let outcome ← device.probeRootTypedWithMode
      pure (outcome.bind rootProbeError)

/-- A probe that no longer grants root leads to an identity check first: a changed device is
reported before a lost authority. -/
def settleProbe (device : RealAdbDevice) (outcome : RootProbeOutcome) :
    SessionProgram (RealAdbDevice × Except AdbCommandError Unit) :=
  match classifyProbe outcome with
  | .ok () => pure (device, .ok ())
  | .error error =>
      if error = .rootAuthorityRevoked ∨ error = .rootAuthorityUnverified then do
        let checked ← device.checkIdentity .preOperation
        pure (checked.1, checked.2.bind fun _ => .error error)
      else pure (device, .error error)

def revalidateRootAuthorityUnchecked (device : RealAdbDevice) :
    SessionProgram (RealAdbDevice × Except AdbCommandError Unit) :=
  if device.rootAuthority.reviewedRootAuthorized = false then
    pure (device, .error .rootAuthorityUnverified)
  else
    match device.serial with
    | none => pure (device, .error .rootAuthorityUnverified)
    | some _ => do
        match ← device.probeRootTypedWithMode with
        | .error error => pure (device, .error error)
        | .ok outcome => device.settleProbe outcome

def runShellWithPrivilegeUnchecked (device : RealAdbDevice) (args : List String)
    (check privileged : Bool) (operation : ProcessOperation) :
    SessionProgram (RealAdbDevice × Except AdbCommandError AdbCommandResult) :=
  if privileged then do
    let revalidated ← device.revalidateRootAuthorityUnchecked
    match revalidated.2 with
    | .error error => pure (revalidated.1, .error error)
    | .ok () => do
        let result ← sendShell args true revalidated.1.rootShellMode check operation
        pure (revalidated.1, result)
  else do
    let result ← sendShell args false device.rootShellMode check operation
    pure (device, result)

end RealAdbDevice

inductive BodyOperation where
  | command (args : List String) (check : Bool) (operation : ProcessOperation)
  | shell (args : List String) (check privileged : Bool) (operation : ProcessOperation)
  | checkRoot
  deriving DecidableEq

def BodyResponse : BodyOperation → Type
  | .command .. | .shell .. => Except AdbCommandError AdbCommandResult
  | .checkRoot => Except AdbCommandError Unit

abbrev Body (α : Type) := Program BodyOperation BodyResponse (Except AdbCommandError α)

namespace RealAdbDevice

def perform (device : RealAdbDevice) :
    (operation : BodyOperation) → SessionProgram (RealAdbDevice × BodyResponse operation)
  | .command args check operation => do
      let result ← runCommand args check operation
      pure (device, result)
  | .shell args check privileged operation =>
      device.runShellWithPrivilegeUnchecked args check privileged operation
  | .checkRoot => do
      let result ← device.checkRootUnchecked
      pure (device, result)

def runBody {α : Type} : Program BodyOperation BodyResponse α → RealAdbDevice →
    SessionProgram (RealAdbDevice × α)
  | .done value, device => pure (device, value)
  | .call operation next, device => do
      let performed ← device.perform operation
      runBody (next performed.2) performed.1

variable {α : Type}

def recordResult (device : RealAdbDevice) (effect : DeviceCommandEffect)
    (result : Except AdbCommandError α) : RealAdbDevice :=
  { device with rootAuthority := device.rootAuthority.recordResult effect result }

def keepError (device : RealAdbDevice) : Except AdbCommandError α → RealAdbDevice
  | .ok _ => device
  | .error error => { device with lastError := some error }

def shouldPostCheck : Except AdbCommandError α → Bool
  | .ok _ => true
  | .error error => error.allowsPostIdentityProbe

def finishGuarded (device : RealAdbDevice) (result : Except AdbCommandError α) :
    SessionProgram (RealAdbDevice × Except AdbCommandError α) :=
  if shouldPostCheck result then do
    let checked ← device.checkIdentity .postOperation
    match checked.2 with
    | .error error => pure ({ checked.1 with lastError := some error }, .error error)
    | .ok () => pure (checked.1.keepError result, result)
  else pure (device.keepError result, result)

def guardedTyped (device : RealAdbDevice) (effect : DeviceCommandEffect) (body : Body α) :
    SessionProgram (RealAdbDevice × Except AdbCommandError α) := do
  let checked ← device.checkIdentity .preOperation
  match checked.2 with
  | .error error => pure ({ checked.1 with lastError := some error }, .error error)
  | .ok () => do
      let _ ← mark .body
      let performed ← runBody body checked.1
      (performed.1.recordResult effect performed.2).finishGuarded performed.2

end RealAdbDevice

inductive SessionCall (α : Type) where
  | configureIdentity (target : Option TargetDeviceBinding)
  | configureAuthority (reviewedRootAuthorized : Bool)
  | configureRoute (route : Option RootShellRoute)
  | guarded (effect : DeviceCommandEffect) (body : Body α)

variable {α : Type}

def runCall (device : RealAdbDevice) : SessionCall α → SessionProgram RealAdbDevice
  | .configureIdentity target => do
      let _ ← mark (.configureIdentity target)
      pure (device.configureIdentityGuard target)
  | .configureAuthority reviewedRootAuthorized => do
      let _ ← mark (.configureAuthority reviewedRootAuthorized)
      pure (device.configureRootAuthority reviewedRootAuthorized)
  | .configureRoute route => pure (device.configureRootShellRoute route)
  | .guarded effect body => do
      let outcome ← device.guardedTyped effect body
      let _ ← mark (.returned outcome.2.toBool)
      pure outcome.1

def runSession : RealAdbDevice → List (SessionCall α) → SessionProgram RealAdbDevice
  | device, [] => pure device
  | device, call :: calls => do
      let next ← runCall device call
      runSession next calls

end EmuChef.Adb
