import Lockstep.Bus.Width

/-! The shape of an address space: its role, how many address bits it decodes,
its data bus, and what an undriven bus shows. -/
namespace Lockstep.Bus

inductive SpaceKind where
  | program | data | io | opcodes
  deriving DecidableEq, Repr, Inhabited

namespace SpaceKind

def all : List SpaceKind := [.program, .data, .io, .opcodes]

def text : SpaceKind → String
  | .program => "program"
  | .data => "data"
  | .io => "io"
  | .opcodes => "opcodes"

def title : SpaceKind → String
  | .program => "Program"
  | .data => "Data"
  | .io => "Io"
  | .opcodes => "Opcodes"

def fallback? : SpaceKind → Option SpaceKind
  | .opcodes => some .program
  | _ => none

end SpaceKind

inductive OpenBus where
  | fixed (pattern : UInt8)
  | lastDriven
  | addressLowByte
  deriving DecidableEq, Repr

instance : Inhabited OpenBus := ⟨.fixed 0xFF⟩

structure Shape where
  kind : SpaceKind
  addressBits : Nat
  dataWidth : Width
  byteOrder : ByteOrder
  openBus : OpenBus := .fixed 0xFF
  deriving DecidableEq, Repr

namespace Shape

def size (s : Shape) : Nat := Nat.pow 2 (min s.addressBits 64)

def maxAddress (s : Shape) : Nat := s.size - 1

def wrap (s : Shape) (address : Nat) : Nat := address % s.size

theorem size_pos (s : Shape) : 0 < s.size := Nat.pow_pos (by decide)

theorem wrap_lt (s : Shape) (address : Nat) : s.wrap address < s.size :=
  Nat.mod_lt _ s.size_pos

end Shape

end Lockstep.Bus
