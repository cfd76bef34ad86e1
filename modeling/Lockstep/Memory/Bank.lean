import Lockstep.Word
import Lockstep.Fault

/-! Banks: a window whose backing bytes are chosen among entries at run time. An
entry is a block and the offset of the window in it; the selected entry always
exists. -/
namespace Lockstep.Memory

structure BlockId where
  index : Nat
  deriving DecidableEq, Repr, Inhabited

structure BankId where
  index : Nat
  deriving DecidableEq, Repr, Inhabited

structure Bank where
  tag : String
  entries : Array (BlockId × Nat)
  selected : Nat
  readOnly : Bool
  selected_lt : selected < entries.size
  deriving DecidableEq, Repr

namespace Bank

def count (b : Bank) : Nat := b.entries.size

def target (b : Bank) : BlockId × Nat :=
  have := b.selected_lt
  b.entries[b.selected]

def select (b : Bank) (index : Nat) : Except BankError Bank :=
  if h : index < b.entries.size then .ok { b with selected := index, selected_lt := h }
  else .error (.entryOutOfRange b.tag index b.count)

def window (b : Bank) (lengthOf : BlockId → Nat) : Nat :=
  ((b.entries.toList.map fun (block, offset) => lengthOf block - offset).min?).getD 0

def strides (block : BlockId) (stride count : Nat) : List (BlockId × Nat) :=
  (List.range count).map fun index => (block, Word.mul index stride)

theorem tag_select {b c : Bank} {index : Nat} (h : b.select index = .ok c) : c.tag = b.tag := by
  unfold select at h
  split at h <;> cases h
  rfl

end Bank

end Lockstep.Memory
