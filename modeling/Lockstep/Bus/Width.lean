import Lockstep.Word

/-! Widths of bus accesses and the byte orders that assemble their values. A
width wider than a byte is two accesses of the next narrower one. -/
namespace Lockstep.Bus

inductive Width where
  | byte | word | dword | qword
  deriving DecidableEq, Repr, Inhabited

namespace Width

def rank : Width → Nat
  | .byte => 0 | .word => 1 | .dword => 2 | .qword => 3

def ofRank : Nat → Width
  | 0 => .byte
  | 1 => .word
  | 2 => .dword
  | _ => .qword

def bytes : Width → Nat
  | .byte => 1 | .word => 2 | .dword => 4 | .qword => 8

def name : Width → String
  | .byte => "Byte" | .word => "Word" | .dword => "DWord" | .qword => "QWord"

def bits (w : Width) : Nat := 8 * w.bytes

def size (w : Width) : Nat := Nat.pow 2 w.bits

def mask (w : Width) : Nat := w.size - 1

def half? : Width → Option Width
  | .byte => none
  | .word => some .byte
  | .dword => some .word
  | .qword => some .dword

def ofBytes? : Nat → Option Width
  | 1 => some .byte
  | 2 => some .word
  | 4 => some .dword
  | 8 => some .qword
  | _ => none

theorem bytes_half {w half : Width} (h : w.half? = some half) : w.bytes = 2 * half.bytes := by
  cases w <;> cases h <;> rfl

theorem ofRank_rank (w : Width) : ofRank w.rank = w := by cases w <;> rfl

theorem ofBytes?_bytes (w : Width) : ofBytes? w.bytes = some w := by cases w <;> rfl

end Width

inductive ByteOrder where
  | little | big
  deriving DecidableEq, Repr, Inhabited

namespace ByteOrder

def join (order : ByteOrder) (half : Width) (lower higher : Nat) : Nat :=
  match order with
  | .little => lower + higher * half.size
  | .big => lower * half.size + higher

def part (order : ByteOrder) (half : Width) (value : Nat) : Nat × Nat :=
  let low := value % half.size
  let high := value / half.size % half.size
  match order with
  | .little => (low, high)
  | .big => (high, low)

def assemble (order : ByteOrder) (bytes : List UInt8) : Nat :=
  match order with
  | .little => bytes.foldr (fun b value => b.toNat + 256 * value) 0
  | .big => bytes.foldl (fun value b => 256 * value + b.toNat) 0

def byteAt (order : ByteOrder) (count value index : Nat) : UInt8 :=
  match order with
  | .little => UInt8.ofNat (value >>> (8 * index))
  | .big => UInt8.ofNat (value >>> (8 * (count - 1 - index)))

end ByteOrder

end Lockstep.Bus
