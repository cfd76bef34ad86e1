import Lockstep.Script
import Lockstep.Unit.Register

/-! A processor that plays rounds of fixed steps, one round in each slice and the
last round for ever. Its registers are declared with it. -/
namespace Lockstep

structure SequencerRegister where
  register : Register
  initial : Option Nat
  value : Option Nat
  deriving DecidableEq, Repr

inductive Inquiry where
  | consumeUntilStop (cycles : Nat)
  | status
  | acknowledge (line : Nat)
  deriving DecidableEq, Repr

inductive Beat where
  | consume (cycles : Nat)
  | publish
  | setRegister (id : RegisterId) (value : Nat)
  | setRunState (state : RunState)
  | finish (cycles : Nat)
  | inquire (name : String) (inquiry : Inquiry)
  | perform (task : Task)

structure Sequencer where
  name : String
  rounds : List (List Beat)
  lines : Nat
  registers : List SequencerRegister
  runnable : Bool
  runState : RunState := .stopped
  round : Nat := 0

namespace Sequencer

def find? (s : Sequencer) (id : RegisterId) : Option SequencerRegister :=
  s.registers.find? (·.register.id == id)

def get? (s : Sequencer) (id : RegisterId) : Option Nat := (s.find? id).bind (·.value)

def replaceFirst (id : RegisterId) (value : Nat) : List SequencerRegister → List SequencerRegister
  | [] => []
  | r :: rest =>
      if r.register.id = id then { r with value := some value } :: rest
      else r :: replaceFirst id value rest

def put (s : Sequencer) (id : RegisterId) (value : Nat) : Sequencer :=
  { s with registers := replaceFirst id value s.registers }

def set (s : Sequencer) (id : RegisterId) (value : Nat) : Except RegisterError Sequencer :=
  match s.find? id with
  | none => .error (.unknownId id)
  | some r =>
      if r.register.writable then .ok (s.put id (value % r.register.size))
      else .error (.readOnly id)

def reset (s : Sequencer) : Sequencer :=
  { s with
    registers := s.registers.map fun r => { r with value := r.initial }
    runState := .running }

def beats (s : Sequencer) : List Beat := (s.rounds[min s.round (s.rounds.length - 1)]?).getD []

end Sequencer

end Lockstep
