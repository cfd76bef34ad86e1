import Lockstep.Word

/-! Counters of a machine's work. Each stops at the largest word. -/
namespace Lockstep

structure Diag where
  slices : Nat := 0
  cycles : Nat := 0
  overrunCycles : Nat := 0
  timersFired : Nat := 0
  interruptsAccepted : Nat := 0
  yields : Nat := 0
  traps : Nat := 0
  unmappedReads : Nat := 0
  unmappedWrites : Nat := 0
  deriving DecidableEq, Repr, Inhabited

namespace Diag

def slice (d : Diag) (requested consumed : Nat) : Diag :=
  { d with
    slices := Word.add d.slices 1
    cycles := Word.add d.cycles consumed
    overrunCycles := Word.add d.overrunCycles (consumed - requested) }

def timer (d : Diag) : Diag := { d with timersFired := Word.add d.timersFired 1 }

def interrupt (d : Diag) : Diag := { d with interruptsAccepted := Word.add d.interruptsAccepted 1 }

def yielded (d : Diag) : Diag := { d with yields := Word.add d.yields 1 }

def trap (d : Diag) : Diag := { d with traps := Word.add d.traps 1 }

def unmapped (d : Diag) (write : Bool) : Diag :=
  if write then { d with unmappedWrites := Word.add d.unmappedWrites 1 }
  else { d with unmappedReads := Word.add d.unmappedReads 1 }

def rows (d : Diag) : List (String × Nat) :=
  [("slices", d.slices), ("cycles", d.cycles), ("overrun_cycles", d.overrunCycles),
    ("timers_fired", d.timersFired), ("interrupts_accepted", d.interruptsAccepted),
    ("yields", d.yields), ("traps", d.traps), ("unmapped_reads", d.unmappedReads),
    ("unmapped_writes", d.unmappedWrites)]

end Diag

end Lockstep
