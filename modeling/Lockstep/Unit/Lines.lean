/-! Interrupt input lines of one processor. Other devices drive them at any time;
the processor samples them between instructions. `κ` is the type of the source
that supplies vectors in place of the stored ones. -/
namespace Lockstep

inductive LineState where
  | clear | assert | hold
  deriving DecidableEq, Repr, Inhabited

namespace LineState

def isActive (s : LineState) : Bool := s != .clear

def name : LineState → String
  | .clear => "Clear"
  | .assert => "Assert"
  | .hold => "Hold"

def ofName? (s : String) : Option LineState := [clear, assert, hold].find? (·.name == s)

end LineState

structure InputLine where
  state : LineState := .clear
  vector : Option Nat := none
  deriving DecidableEq, Repr, Inhabited

structure InputLines (κ : Type) where
  lines : Array InputLine
  source : Option κ := none

inductive VectorAnswer (κ : Type) where
  | ask (source : κ)
  | stored (vector : Option Nat)

namespace InputLines
variable {κ : Type}

def ofCount (count : Nat) : InputLines κ := { lines := Array.replicate count {} }

def count (l : InputLines κ) : Nat := l.lines.size

def state? (l : InputLines κ) (line : Nat) : Option LineState := (l.lines[line]?).map (·.state)

def isActive (l : InputLines κ) (line : Nat) : Bool := (l.state? line).elim false (·.isActive)

def anyActive (l : InputLines κ) : Bool := l.lines.any (·.state.isActive)

def vector? (l : InputLines κ) (line : Nat) : Option Nat := (l.lines[line]?).bind (·.vector)

def set? (l : InputLines κ) (line : Nat) (state : LineState) (vector : Option Nat) :
    Option (InputLines κ) :=
  if line < l.count then
    some { l with lines := l.lines.modify line fun e => ⟨state, vector.or e.vector⟩ }
  else none

def acknowledge? (l : InputLines κ) (line : Nat) : Option (InputLines κ × VectorAnswer κ) :=
  (l.lines[line]?).map fun e =>
    let answer := match l.source with
      | some source => .ask source
      | none => .stored e.vector
    let state := if e.state = .hold then .clear else e.state
    ({ l with lines := l.lines.modify line fun e => { e with state } }, answer)

def clear (l : InputLines κ) : InputLines κ := { l with lines := l.lines.map fun _ => {} }

end InputLines

end Lockstep
