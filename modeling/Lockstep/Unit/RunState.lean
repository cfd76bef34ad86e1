/-! Execution states of a processor and the causes of a trap. -/
namespace Lockstep

inductive Trap where
  | illegalInstruction | invalidVector | lockup
  deriving DecidableEq, Repr

namespace Trap

def code : Trap → Nat
  | .illegalInstruction => 1
  | .invalidVector => 2
  | .lockup => 3

def ofCode? : Nat → Option Trap
  | 1 => some .illegalInstruction
  | 2 => some .invalidVector
  | 3 => some .lockup
  | _ => none

def name : Trap → String
  | .illegalInstruction => "IllegalInstruction"
  | .invalidVector => "InvalidVector"
  | .lockup => "Lockup"

def message : Trap → String
  | .illegalInstruction => "illegal instruction"
  | .invalidVector => "interrupt vector out of range"
  | .lockup => "processor lockup"

theorem ofCode?_code (t : Trap) : ofCode? t.code = some t := by cases t <;> rfl

end Trap

inductive RunState where
  | stopped
  | running
  | waiting
  | trapped (cause : Trap)
  deriving DecidableEq, Repr, Inhabited

namespace RunState

def trap? : RunState → Option Trap
  | .trapped cause => some cause
  | _ => none

def isTrapped (s : RunState) : Bool := s.trap?.isSome

def code : RunState → Nat
  | .stopped => 0
  | .running => 1
  | .waiting => 2
  | .trapped cause => 128 + cause.code

def name : RunState → String
  | .stopped => "Stopped"
  | .running => "Running"
  | .waiting => "WaitingForInterrupt"
  | .trapped cause => "Trapped:" ++ cause.name

def all : List RunState :=
  [.stopped, .running, .waiting, .trapped .illegalInstruction, .trapped .invalidVector,
    .trapped .lockup]

def ofName? (s : String) : Option RunState := all.find? (·.name == s)

theorem code_injective {a b : RunState} (h : a.code = b.code) : a = b := by
  rcases a with _ | _ | _ | ⟨_ | _ | _⟩ <;> rcases b with _ | _ | _ | ⟨_ | _ | _⟩ <;>
    simp_all [code, Trap.code]

end RunState

end Lockstep
