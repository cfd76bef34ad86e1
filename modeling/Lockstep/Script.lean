import Lockstep.Journal

/-! Commands to a machine and the scripts that issue them. A script is a tree: it
sends a command and goes on as the reply demands, so it can stand for any
callback. Commands may map ports, and a port's callbacks are scripts again. -/
namespace Lockstep

structure SpaceId where
  index : Nat
  deriving DecidableEq, Repr, Inhabited

inductive Route where
  | direct (id : SpaceId)
  | owned (device : DeviceId) (kind : Bus.SpaceKind)
  deriving DecidableEq, Repr

inductive Target (κ : Type) where
  | ram (block : String) (offset : Nat)
  | rom (block : String) (offset : Nat)
  | bank (tag : String)
  | port (port : κ)
  | unmapped

inductive DeviceClass where
  | acc8 | peripheral | sequencer
  deriving DecidableEq, Repr

mutual

/-- A device's side of a mapped range. A side that is absent drives nothing or
drops the write; the value read is the word that the script replies. -/
inductive Port where
  | mk (label : String) (reads writes : Bool)
      (onRead : (offset : Nat) → Bus.Width → Script)
      (onWrite : (offset : Nat) → Bus.Width → (value : Nat) → Script)

inductive Command where
  -- buses
  | read (route : Route) (address : Nat) (width : Bus.Width)
  | write (route : Route) (address : Nat) (width : Bus.Width) (value : Nat)
  | map (override : Bool) (route : Route) (first last : Nat) (target : Target Port)
  | freeze (route : Route)
  | ranges (route : Route)
  | rangeAt (route : Route) (address : Nat)
  | floating (route : Route) (address : Nat) (width : Bus.Width)
  | describeSpace (route : Route)
  -- memory
  | peek (block : String) (offset : Nat)
  | poke (block : String) (offset : Nat) (value : UInt8)
  | load (block : String) (offset : Nat) (bytes : List UInt8)
  | dump (block : String)
  | describeBlock (block : String)
  | describeBank (bank : String)
  | selectBank (bank : String) (index : Nat)
  | switchBank (bank : String) (index : Nat)
  | describeTarget (target : Target Port)
  | describePort (port : Port)
  -- time and timers
  | now
  | executing
  | settings
  | schedule (owner : DeviceId) (delay period : Time) (param : Nat)
  | scheduleCycles (owner : DeviceId) (cycles param : Nat)
  | allocateTimer (owner : DeviceId) (param : Nat)
  | adjustTimer (position : Nat) (delay period : Time)
  | cancelTimer (position : Nat)
  | removeTimer (position : Nat)
  | timerEnabled (position : Nat)
  | timerFireTime (position : Nat)
  | untilNextTimer
  -- processors
  | driveLine (unit : DeviceId) (line : Nat) (state : LineState) (vector : Option Nat)
  | lineState (unit : DeviceId) (line : Nat)
  | requestYield
  | suspend (unit : DeviceId) (reasons : Suspension)
  | resume (unit : DeviceId) (reasons : Suspension)
  | spinUntilInterrupt (unit : DeviceId)
  | driveReset (unit : DeviceId) (asserted : Bool)
  | boostInterleave (quantum duration : Time)
  | quantumAt (time : Time)
  | unitTime (unit : DeviceId)
  | unitCycles (unit : DeviceId)
  | suspension (unit : DeviceId)
  | units
  | getRegister (unit : DeviceId) (id : RegisterId)
  | setRegister (unit : DeviceId) (id : RegisterId) (value : Nat)
  | runState (unit : DeviceId)
  -- devices
  | findDevice (tag : String)
  | requireDevice (requestedBy : DeviceId) (tag : String)
  | describeDevice (device : DeviceId)
  | deviceCount
  | borrow (device : DeviceId) (as : Option DeviceClass) (body : Script)
  | hold (device : DeviceId)
  -- diagnostics
  | counters
  | emit (event : TraceEvent)
  -- a callback's own memory and its entries in the journal
  | newCell
  | getCell (cell : Nat)
  | setCell (cell value : Nat)
  | note (entry : Activity)

inductive Script where
  | done (reply : Reply)
  | step (command : Command) (next : Reply → Script)

end

namespace Port

def label : Port → String | .mk label .. => label
def reads : Port → Bool | .mk _ reads .. => reads
def writes : Port → Bool | .mk _ _ writes .. => writes
def onRead : Port → Nat → Bus.Width → Script | .mk _ _ _ onRead _ => onRead
def onWrite : Port → Nat → Bus.Width → Nat → Script | .mk _ _ _ _ onWrite => onWrite

end Port

namespace Script

def ok : Script := .done .ok

instance : Inhabited Script := ⟨.ok⟩

def perform (c : Command) : Script := .step c .done

def noting (entry : Activity) (rest : Script) : Script := .step (.note entry) fun _ => rest

def andThen : Script → (Reply → Script) → Script
  | .done reply, k => k reply
  | .step c next, k => .step c fun reply => (next reply).andThen k

def gather : List Script → List Reply → Script
  | [], replies => .done (.list replies.reverse)
  | s :: rest, replies => s.andThen fun reply => gather rest (reply :: replies)

end Script

structure Task where
  name : String
  body : Script

def Task.runAll : List Task → (last : Reply) → Script
  | [], last => .done last
  | t :: rest, _ => t.body.andThen fun reply =>
      .noting (.command t.name reply) (runAll rest reply)

end Lockstep
