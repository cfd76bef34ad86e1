import Lockstep.Script

/-! A device without a processor, described by what it does when the machine
calls it. The start hook runs in the order of addition and may refuse. -/
namespace Lockstep

structure SpaceSpec where
  name : String
  shape : Bus.Shape
  deriving DecidableEq, Repr

structure Peripheral where
  name : String
  spaces : List SpaceSpec := []
  start : DeviceId → Script := fun _ => .ok
  reset : Script := .ok
  timer : Timer.Fired → (position : Option Nat) → Script := fun _ _ => .ok
  stop : List Activity := []

structure Probe where
  name : String
  spaces : List SpaceSpec := []
  requires : List String := []
  onStart : List Task := []
  startError : Option String := none
  onReset : List Task := []
  onTimer : (param : Nat) → (position : Nat) → List Task := fun _ _ => []

namespace Probe

def requireAll (device : DeviceId) : List String → Script → Script
  | [], rest => rest
  | tag :: tags, rest => .step (.requireDevice device tag) fun
      | .fault cause => .done (.fault cause)
      | _ => requireAll device tags rest

def start (p : Probe) (device : DeviceId) : Script :=
  .noting (.started p.name device) <| requireAll device p.requires <|
    (Task.runAll p.onStart .ok).andThen fun _ =>
      match p.startError with
      | some reason => .done (.fault (.config (.device p.name reason)))
      | none => .ok

def reset (p : Probe) : Script := .noting (.reset p.name) (Task.runAll p.onReset .ok)

def timer (p : Probe) (fired : Timer.Fired) (position : Option Nat) : Script :=
  .step .now fun
    | .time now => .noting (.timer p.name fired position now)
        (Task.runAll (p.onTimer fired.param (position.getD 0)) .ok)
    | reply => .done reply

def peripheral (p : Probe) : Peripheral :=
  { name := p.name, spaces := p.spaces, start := p.start, reset := p.reset, timer := p.timer
    stop := [.stopped p.name] }

end Probe

end Lockstep
