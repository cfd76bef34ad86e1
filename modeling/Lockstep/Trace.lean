import Lockstep.Time
import Lockstep.Fault
import Lockstep.Unit.Lines
import Lockstep.Unit.RunState
import Lockstep.Unit.Suspension

/-! Events of a run in the order of execution. -/
namespace Lockstep

inductive TraceEvent where
  | sliceStart (unit : DeviceId) (time : Time) (cycles : Nat)
  | sliceEnd (unit : DeviceId) (time : Time) (consumed : Nat)
  | timerFired (owner : DeviceId) (param : Nat) (time : Time)
  | inputLineChanged (unit : DeviceId) (line : Nat) (state : LineState)
  | interruptAccepted (unit : DeviceId) (line : Nat) (vector : Option Nat) (time : Time)
  | unitTrapped (unit : DeviceId) (cause : Trap) (time : Time)
  | suspended (unit : DeviceId) (reason : Suspension)
  | resumed (unit : DeviceId) (reason : Suspension)
  | unmappedAccess (unit : Option DeviceId) (space : Bus.SpaceKind) (address : Nat) (write : Bool)
  deriving DecidableEq, Repr

end Lockstep
