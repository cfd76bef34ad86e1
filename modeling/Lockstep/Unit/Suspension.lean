/-! Why a processor is left out of scheduling. It is live while no reason holds.
Reasons have a bit each, in the order of the fields. -/
namespace Lockstep

structure Suspension where
  halt : Bool := false
  reset : Bool := false
  spin : Bool := false
  debugger : Bool := false
  disabled : Bool := false
  trapped : Bool := false
  deriving DecidableEq, Repr, Inhabited

namespace Suspension

def ofBits (n : Nat) : Suspension :=
  ⟨n.testBit 0, n.testBit 1, n.testBit 2, n.testBit 3, n.testBit 4, n.testBit 5⟩

def bits (s : Suspension) : Nat :=
  s.halt.toNat + 2 * s.reset.toNat + 4 * s.spin.toNat + 8 * s.debugger.toNat +
    16 * s.disabled.toNat + 32 * s.trapped.toNat

def zip (f : Bool → Bool → Bool) (a b : Suspension) : Suspension :=
  ⟨f a.halt b.halt, f a.reset b.reset, f a.spin b.spin, f a.debugger b.debugger,
    f a.disabled b.disabled, f a.trapped b.trapped⟩

def union (a b : Suspension) : Suspension := zip (· || ·) a b

def diff (a b : Suspension) : Suspension := zip (fun x y => x && !y) a b

def inter (a b : Suspension) : Suspension := zip (· && ·) a b

def isEmpty (s : Suspension) : Bool := s == {}

def contains (a b : Suspension) : Bool := (b.diff a).isEmpty

def intersects (a b : Suspension) : Bool := !(a.inter b).isEmpty

theorem ofBits_bits (s : Suspension) : ofBits s.bits = s := by
  obtain ⟨a, b, c, d, e, f⟩ := s
  cases a <;> cases b <;> cases c <;> cases d <;> cases e <;> cases f <;> decide

end Suspension

end Lockstep
