import Lockstep.Bus.Handler
import Lockstep.Config
import Lockstep.Diag
import Lockstep.Timer.Queue
import Lockstep.Unit.Lines
import Lockstep.Unit.RunState
import Lockstep.Unit.Suspension

/-! Answers of a machine to its commands, one constructor for each shape. -/
namespace Lockstep

structure SpaceInfo where
  name : String
  shape : Bus.Shape
  frozen : Bool
  unmappedReads : Nat
  unmappedWrites : Nat
  deriving DecidableEq, Repr

structure BlockInfo where
  tag : String
  length : Nat
  deriving DecidableEq, Repr

structure BankInfo where
  tag : String
  count : Nat
  selected : Nat
  readOnly : Bool
  window : Nat
  targetTag : String
  targetOffset : Nat
  deriving DecidableEq, Repr

structure HandlerInfo where
  text : String
  kind : Bus.HandlerKind
  label : String
  deriving DecidableEq, Repr

structure NodeInfo where
  tag : String
  typeName : String
  clock : ClockRate
  parent : Option DeviceId
  children : List DeviceId
  deriving DecidableEq, Repr

structure SliceStatus where
  remaining : Int
  consumed : Nat
  stop : Bool
  now : Time
  active : List Bool
  deriving DecidableEq, Repr

inductive Occupant where
  | registers (pc a x : Nat)
  | named (name : String)
  | any (isUnit : Bool)
  deriving DecidableEq, Repr

inductive Reply where
  | ok
  | absent
  | flag (value : Bool)
  | count (value : Nat)
  | word (value : Nat)
  | time (value : Time)
  | timer (position : Nat) (id : Timer.Id)
  | device (id : DeviceId)
  | devices (ids : List DeviceId)
  | suspension (reasons : Suspension)
  | line (state : LineState)
  | runState (state : RunState)
  | range (info : Bus.RangeInfo)
  | ranges (infos : List Bus.RangeInfo)
  | space (info : SpaceInfo)
  | block (info : BlockInfo)
  | bank (info : BankInfo)
  | stretches (rows : List (Nat × List UInt8))
  | handler (info : HandlerInfo)
  | text (value : String)
  | config (settings : Config)
  | diag (counters : Diag)
  | node (info : NodeInfo)
  | status (view : SliceStatus)
  | list (replies : List Reply)
  | borrowed (who : Occupant) (inner : Reply)
  | fault (cause : Fault)

namespace Reply

def ofOption {α : Type} (f : α → Reply) : Option α → Reply
  | some a => f a
  | none => .absent

def ofAccess : Except AccessError Reply → Reply
  | .ok r => r
  | .error e => .fault (.access e)

def ofConfig : Except ConfigError Reply → Reply
  | .ok r => r
  | .error e => .fault (.config e)

def number? : Reply → Option Nat
  | .count n | .word n => some n
  | .time t => some t.attos
  | .device id => some id.index
  | .suspension reasons => some reasons.bits
  | _ => none

def driven? : Reply → Option Nat
  | .word n => some n
  | _ => none

end Reply

end Lockstep
