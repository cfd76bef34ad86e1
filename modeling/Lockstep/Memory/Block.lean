/-! Tagged byte buffers of a fixed length. Accesses past the end read nothing
and write nothing. -/
namespace Lockstep.Memory

structure Block where
  tag : String
  bytes : Array UInt8
  deriving DecidableEq, Repr, Inhabited

namespace Block

def filled (tag : String) (length : Nat) (fill : UInt8) : Block := ⟨tag, Array.replicate length fill⟩

def zeroed (tag : String) (length : Nat) : Block := filled tag length 0

def length (b : Block) : Nat := b.bytes.size

def get? (b : Block) (offset : Nat) : Option UInt8 := b.bytes[offset]?

def set (b : Block) (offset : Nat) (value : UInt8) : Block :=
  { b with bytes := b.bytes.setIfInBounds offset value }

def setAll (b : Block) (offset : Nat) : List UInt8 → Block
  | [] => b
  | value :: rest => (b.set offset value).setAll (offset + 1) rest

def room (b : Block) (offset count : Nat) : Nat := min count (b.length - offset)

def extend (value : UInt8) : Nat × List (Nat × List UInt8) → Nat × List (Nat × List UInt8)
  | (past, rows) =>
      let index := past - 1
      if value == 0 then (index, rows) else
        match rows with
        | (start, bytes) :: rest =>
            if start = past then (index, (index, value :: bytes) :: rest)
            else (index, (index, [value]) :: rows)
        | [] => (index, [(index, [value])])

def stretches (b : Block) : List (Nat × List UInt8) :=
  (b.bytes.foldr extend (b.length, [])).2

@[simp] theorem length_set (b : Block) (offset : Nat) (value : UInt8) :
    (b.set offset value).length = b.length := by simp [set, length]

theorem get?_set (b : Block) (offset other : Nat) (value : UInt8) :
    (b.set offset value).get? other =
      if offset = other ∧ other < b.length then some value else b.get? other := by
  simp only [set, get?, length, Array.getElem?_setIfInBounds]
  by_cases h : offset = other
  · by_cases inside : other < b.bytes.size <;> simp [h, inside]
  · simp [h]

@[simp] theorem length_setAll (b : Block) (offset : Nat) (values : List UInt8) :
    (b.setAll offset values).length = b.length := by
  induction values generalizing b offset with
  | nil => rfl
  | cons value rest ih => simp [setAll, ih]

end Block

end Lockstep.Memory
