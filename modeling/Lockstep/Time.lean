import Lockstep.Word

/-! Simulated time in attoseconds, and the clock rates that turn cycles into it.
A time has 128 bits; sums and products stop at the last one, which reads as
"never". A rate divides the second with truncation, so a rate above one cycle
per attosecond has an empty period and counts no cycles. -/
namespace Lockstep

def Time.last : Nat := 0xFFFF_FFFF_FFFF_FFFF_FFFF_FFFF_FFFF_FFFF

structure Time where
  attos : Nat
  bounded : attos ≤ Time.last
  deriving DecidableEq, Repr

namespace Time

def perSecond : Nat := 1000000000000000000
def perMilli : Nat := perSecond / 1000
def perMicro : Nat := perSecond / 1000000
def perNano : Nat := perSecond / 1000000000

def ofAttos (n : Nat) : Time := ⟨min n last, Nat.min_le_right ..⟩

def zero : Time := ⟨0, Nat.zero_le _⟩
def never : Time := ⟨last, Nat.le_refl _⟩

def ofNanos (n : Nat) : Time := ofAttos (n * perNano)
def ofMicros (n : Nat) : Time := ofAttos (n * perMicro)
def ofMillis (n : Nat) : Time := ofAttos (n * perMilli)
def ofSecs (n : Nat) : Time := ofAttos (n * perSecond)

def ofHz? (hz : Nat) : Option Time :=
  if hz = 0 then none else some (ofAttos (perSecond / hz))

def nanos (t : Time) : Nat := t.attos / perNano
def micros (t : Time) : Nat := t.attos / perMicro

instance : Inhabited Time := ⟨zero⟩
instance : LE Time := ⟨fun a b => a.attos ≤ b.attos⟩
instance : LT Time := ⟨fun a b => a.attos < b.attos⟩
instance (a b : Time) : Decidable (a ≤ b) := inferInstanceAs (Decidable (a.attos ≤ b.attos))
instance (a b : Time) : Decidable (a < b) := inferInstanceAs (Decidable (a.attos < b.attos))
instance : Min Time := minOfLe
instance : Max Time := maxOfLe
instance : Ord Time := ⟨fun a b => compare a.attos b.attos⟩

instance : Add Time := ⟨fun a b => ofAttos (a.attos + b.attos)⟩
instance : Sub Time := ⟨fun a b => ⟨a.attos - b.attos, Nat.le_trans (Nat.sub_le ..) a.bounded⟩⟩

def add? (a b : Time) : Option Time :=
  if h : a.attos + b.attos ≤ last then some ⟨a.attos + b.attos, h⟩ else none

def scale (t : Time) (n : Nat) : Time := ofAttos (t.attos * n)

def isZero (t : Time) : Bool := t.attos == 0
def isNever (t : Time) : Bool := t.attos == last

def text (t : Time) : String :=
  if t.isNever then "never" else
    let fraction := toString (t.attos % perSecond)
    toString (t.attos / perSecond) ++ "." ++
      "".pushn '0' (18 - fraction.length) ++ fraction ++ "s"

theorem ext {a b : Time} (h : a.attos = b.attos) : a = b := by
  cases a; cases b; simp_all

theorem le_def {a b : Time} : a ≤ b ↔ a.attos ≤ b.attos := Iff.rfl

theorem lt_def {a b : Time} : a < b ↔ a.attos < b.attos := Iff.rfl

@[simp] theorem attos_zero : zero.attos = 0 := rfl

@[simp] theorem attos_never : never.attos = last := rfl

@[simp] theorem attos_ofAttos (n : Nat) : (ofAttos n).attos = min n last := rfl

@[simp] theorem attos_add (a b : Time) :
    (a + b).attos = min (a.attos + b.attos) last := rfl

@[simp] theorem attos_sub (a b : Time) : (a - b).attos = a.attos - b.attos := rfl

@[simp] theorem attos_scale (t : Time) (n : Nat) :
    (t.scale n).attos = min (t.attos * n) last := rfl

theorem attos_min (a b : Time) : (min a b).attos = min a.attos b.attos := by
  simp only [min, le_def]; split <;> rfl

theorem attos_max (a b : Time) : (max a b).attos = max a.attos b.attos := by
  simp only [max, le_def]; split <;> rfl

end Time

structure ClockRate where
  hz : Nat
  deriving DecidableEq, Repr, Inhabited

namespace ClockRate

def ofKhz (n : Nat) : ClockRate := ⟨n * 1000⟩
def ofMhz (n : Nat) : ClockRate := ⟨n * 1000000⟩

def isZero (c : ClockRate) : Bool := c.hz == 0

def period? (c : ClockRate) : Option Time := Time.ofHz? c.hz

def span (c : ClockRate) (n : Nat) : Time :=
  match c.period? with
  | some p => p.scale n
  | none => .never

def cyclesWithin (c : ClockRate) (t : Time) : Nat :=
  match c.period? with
  | some p => Word.clamp (t.attos / p.attos)
  | none => 0

def cyclesCovering (c : ClockRate) (t : Time) : Nat :=
  match c.period? with
  | some p => if p.attos = 0 then 0 else Word.clamp ((t.attos + p.attos - 1) / p.attos)
  | none => 0

def text (c : ClockRate) : String := toString c.hz ++ " Hz"

end ClockRate

end Lockstep
