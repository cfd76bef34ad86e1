import Lockstep.Reply
import Lockstep.Trace

/-! What happened at a machine's devices, in order. Ports, peripherals and
processors write an entry when they are called; a command carried out for them
is entered after it returns, below what it caused. -/
namespace Lockstep

inductive Activity where
  | read (label : String) (offset : Nat) (width : Bus.Width)
  | write (label : String) (offset : Nat) (width : Bus.Width) (value : Nat)
  | command (name : String) (reply : Reply)
  | vector (line vector : Nat)
  | constructed (tag : String) (clock : ClockRate) (parent : Option DeviceId)
  | started (name : String) (device : DeviceId)
  | reset (name : String)
  | stopped (name : String)
  | timer (name : String) (fired : Timer.Fired) (position : Option Nat) (now : Time)
  | unitReset (name : String)
  | run (name : String) (unit cycles requested : Nat)
  | traced (sink : String) (event : TraceEvent)

end Lockstep
