import Mathlib.Data.List.Basic

/-! Typed failures of device operations and the step failures made from them. -/

namespace EmuChef

inductive IdentityCheckPhase where
  | preOperation
  | postOperation
  deriving DecidableEq

inductive DeviceOperationKind where
  | timedOut
  | commandFailed
  | processFailed
  | deviceOffline
  | deviceUnauthorized
  | deviceDisconnected
  | deviceStorageExhausted
  | adbServerUnavailable
  | transportReset
  | transportFailure
  | deviceIdentityChanged (phase : IdentityCheckPhase)
  | deviceIdentityUnverified (phase : IdentityCheckPhase)
  | rootAuthorityRevoked
  | rootAuthorityUnverified
  | rootDenied
  | rootUnavailable
  | installSigningRejected
  | installVersionRejected
  | installRejected
  | other
  deriving DecidableEq

structure DeviceOperationError where
  kind : DeviceOperationKind
  message : String
  deriving DecidableEq

inductive StepFailureKind where
  | operationTimedOut
  | operationCommandFailed
  | operationProcessFailed
  | deviceOffline
  | deviceUnauthorized
  | deviceDisconnected
  | deviceStorageExhausted
  | adbServerUnavailable
  | transportReset
  | transportFailure
  | deviceIdentityChanged (phase : IdentityCheckPhase)
  | deviceIdentityUnverified (phase : IdentityCheckPhase)
  | rootAuthorityRevoked
  | rootAuthorityUnverified
  | rootDenied
  | rootUnavailable
  | installSigningRejected
  | installVersionRejected
  | installRejected
  | operationFailed
  deriving DecidableEq

def StepFailureKind.requiresDeviceFailStop : StepFailureKind → Bool
  | operationTimedOut | deviceOffline | deviceUnauthorized | deviceDisconnected
  | deviceStorageExhausted | adbServerUnavailable | transportReset | transportFailure
  | deviceIdentityChanged _ | deviceIdentityUnverified _
  | rootAuthorityRevoked | rootAuthorityUnverified => true
  | _ => false

def DeviceOperationKind.requiresDeviceFailStop : DeviceOperationKind → Bool
  | timedOut | deviceOffline | deviceUnauthorized | deviceDisconnected
  | deviceStorageExhausted | adbServerUnavailable | transportReset | transportFailure
  | deviceIdentityChanged _ | deviceIdentityUnverified _
  | rootAuthorityRevoked | rootAuthorityUnverified => true
  | _ => false

def StepFailureKind.ofDeviceOperation : DeviceOperationKind → StepFailureKind
  | .timedOut => operationTimedOut
  | .commandFailed => operationCommandFailed
  | .processFailed => operationProcessFailed
  | .deviceOffline => deviceOffline
  | .deviceUnauthorized => deviceUnauthorized
  | .deviceDisconnected => deviceDisconnected
  | .deviceStorageExhausted => deviceStorageExhausted
  | .adbServerUnavailable => adbServerUnavailable
  | .transportReset => transportReset
  | .transportFailure => transportFailure
  | .deviceIdentityChanged phase => deviceIdentityChanged phase
  | .deviceIdentityUnverified phase => deviceIdentityUnverified phase
  | .rootAuthorityRevoked => rootAuthorityRevoked
  | .rootAuthorityUnverified => rootAuthorityUnverified
  | .rootDenied => rootDenied
  | .rootUnavailable => rootUnavailable
  | .installSigningRejected => installSigningRejected
  | .installVersionRejected => installVersionRejected
  | .installRejected => installRejected
  | .other => operationFailed

end EmuChef
