/-! Counts of one 64-bit word, held as naturals. Every sum stops at the
largest word instead of wrapping. -/
namespace Lockstep.Word

def largest : Nat := 0xFFFF_FFFF_FFFF_FFFF

def clamp (n : Nat) : Nat := min n largest

def add (a b : Nat) : Nat := clamp (a + b)

def mul (a b : Nat) : Nat := clamp (a * b)

theorem clamp_le (n : Nat) : clamp n ≤ largest := Nat.min_le_right ..

theorem clamp_of_le {n : Nat} (h : n ≤ largest) : clamp n = n := Nat.min_eq_left h

theorem clamp_mono {a b : Nat} (h : a ≤ b) : clamp a ≤ clamp b := by
  simp only [clamp]; omega

end Lockstep.Word
