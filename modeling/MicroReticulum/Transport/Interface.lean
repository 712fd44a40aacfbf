import Mathlib.Data.Rat.Defs

/-!
# Interfaces

The configuration of an interface that the transport layer reads. An interface is a shared handle
in the source and compared by identity; here `id` is that identity and the other fields are the
settings behind it. What sending on it answers is not part of the record, since it belongs to the
interface's driver.
-/

namespace MicroReticulum.Transport

/-- `Type::Interface::modes` -/
inductive InterfaceMode where
  | none | full | pointToPoint | accessPoint | roaming | boundary | gateway
  deriving DecidableEq, Repr

structure Interface where
  id : Nat
  mode : InterfaceMode := .full
  /-- `OUT()` -/
  out : Bool := true
  /-- `HW_MTU()`, zero when unknown -/
  hwMtu : UInt16 := 0
  /-- `AUTOCONFIGURE_MTU()` -/
  autoconfigureMtu : Bool := false
  /-- `FIXED_MTU()` -/
  fixedMtu : Bool := false
  /-- `is_connected_to_shared_instance()` of the interface -/
  isConnectedToSharedInstance : Bool := false
  /-- there is a `parent_interface()`, and it is a local shared instance -/
  parentIsSharedInstance : Bool := false
  /-- `ifac_identity()` is set -/
  ifacIdentity : Bool := false
  announceRateTarget : ℚ := 0
  announceRateGrace : Nat := 0
  announceRatePenalty : ℚ := 0
  bitrate : Nat := 0
  /-- the value of a float -/
  announceCap : ℚ := 0
  deriving DecidableEq

/-- `operator ==` of two handles, either of which may be empty. -/
def sameInterface (a b : Option Interface) : Bool := a.map Interface.id = b.map Interface.id

/-- `Transport::is_local_client_interface` -/
def isLocalClientInterface (i : Interface) : Bool := i.parentIsSharedInstance

/-- `Transport::interface_to_shared_instance` -/
def interfaceToSharedInstance (i : Interface) : Bool := i.isConnectedToSharedInstance

end MicroReticulum.Transport
