import Lockstep.Word
import Lockstep.Fault

/-! Registers as a processor lists them: a number, a name, a width in bits, and
whether they accept writes. -/
namespace Lockstep

structure Register where
  id : RegisterId
  name : String
  bits : Nat
  writable : Bool := true
  deriving DecidableEq, Repr

namespace Register

def size (r : Register) : Nat := Nat.pow 2 (min r.bits 64)

def mask (r : Register) : Nat := r.size - 1

end Register

end Lockstep
