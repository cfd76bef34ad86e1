import Lockstep.Timer.Queue
import Lockstep.Unit.RunState
import Lockstep.Fault

/-! What can be seen of a machine at one point in time. Processors stand in
scheduling order, timers in firing order with the disarmed last, banks and memory
by tag. -/
namespace Lockstep

structure UnitSnapshot where
  tag : String
  localTime : Time
  totalCycles : Nat
  runState : RunState
  suspension : Nat
  registers : List (RegisterId × Nat)
  deriving DecidableEq, Repr

structure BankSelection where
  tag : String
  selected : Nat
  deriving DecidableEq, Repr

structure MemoryImage where
  tag : String
  bytes : List UInt8
  deriving DecidableEq, Repr

structure Snapshot where
  time : Time
  units : List UnitSnapshot
  timers : List Timer.Info
  banks : List BankSelection
  memory : List MemoryImage
  deriving DecidableEq, Repr

namespace Snapshot

def unit? (s : Snapshot) (tag : String) : Option UnitSnapshot := s.units.find? (·.tag == tag)

def memory? (s : Snapshot) (tag : String) : Option (List UInt8) :=
  (s.memory.find? (·.tag == tag)).map (·.bytes)

end Snapshot

def UnitSnapshot.register? (u : UnitSnapshot) (id : RegisterId) : Option Nat :=
  u.registers.lookup id

end Lockstep
