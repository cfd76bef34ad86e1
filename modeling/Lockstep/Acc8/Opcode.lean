/-! The instruction set of the acc8 processor: the byte of each opcode, how many
operand bytes follow it, and its base cost in cycles. A byte of no opcode is an
illegal instruction. -/
namespace Lockstep.Acc8

inductive Opcode where
  | nop
  | ldaImm | ldaAbs | ldaAbsX
  | staAbs | staAbsX
  | ldxImm | inx
  | addImm | addAbs | subImm | cmpImm
  | jmp | bne | beq | jsr | rts
  | input | output
  | ei | di | reti
  | halt
  deriving DecidableEq, Repr

namespace Opcode

def all : List Opcode :=
  [.nop, .ldaImm, .ldaAbs, .ldaAbsX, .staAbs, .staAbsX, .ldxImm, .inx, .addImm, .addAbs, .subImm,
    .cmpImm, .jmp, .bne, .beq, .jsr, .rts, .input, .output, .ei, .di, .reti, .halt]

def byte : Opcode → UInt8
  | .nop => 0x00
  | .ldaImm => 0x10
  | .ldaAbs => 0x11
  | .ldaAbsX => 0x12
  | .staAbs => 0x20
  | .staAbsX => 0x21
  | .ldxImm => 0x30
  | .inx => 0x31
  | .addImm => 0x40
  | .addAbs => 0x41
  | .subImm => 0x42
  | .cmpImm => 0x43
  | .jmp => 0x50
  | .bne => 0x51
  | .beq => 0x52
  | .jsr => 0x53
  | .rts => 0x54
  | .input => 0x60
  | .output => 0x61
  | .ei => 0x70
  | .di => 0x71
  | .reti => 0x72
  | .halt => 0x7F

def decode? : UInt8 → Option Opcode
  | 0x00 => some .nop
  | 0x10 => some .ldaImm
  | 0x11 => some .ldaAbs
  | 0x12 => some .ldaAbsX
  | 0x20 => some .staAbs
  | 0x21 => some .staAbsX
  | 0x30 => some .ldxImm
  | 0x31 => some .inx
  | 0x40 => some .addImm
  | 0x41 => some .addAbs
  | 0x42 => some .subImm
  | 0x43 => some .cmpImm
  | 0x50 => some .jmp
  | 0x51 => some .bne
  | 0x52 => some .beq
  | 0x53 => some .jsr
  | 0x54 => some .rts
  | 0x60 => some .input
  | 0x61 => some .output
  | 0x70 => some .ei
  | 0x71 => some .di
  | 0x72 => some .reti
  | 0x7F => some .halt
  | _ => none

def name : Opcode → String
  | .nop => "Nop"
  | .ldaImm => "LdaImm"
  | .ldaAbs => "LdaAbs"
  | .ldaAbsX => "LdaAbsX"
  | .staAbs => "StaAbs"
  | .staAbsX => "StaAbsX"
  | .ldxImm => "LdxImm"
  | .inx => "Inx"
  | .addImm => "AddImm"
  | .addAbs => "AddAbs"
  | .subImm => "SubImm"
  | .cmpImm => "CmpImm"
  | .jmp => "Jmp"
  | .bne => "Bne"
  | .beq => "Beq"
  | .jsr => "Jsr"
  | .rts => "Rts"
  | .input => "In"
  | .output => "Out"
  | .ei => "Ei"
  | .di => "Di"
  | .reti => "Reti"
  | .halt => "Halt"

def operands : Opcode → Nat
  | .ldaImm | .ldxImm | .addImm | .subImm | .cmpImm | .bne | .beq | .input | .output => 1
  | .ldaAbs | .ldaAbsX | .staAbs | .staAbsX | .addAbs | .jmp | .jsr => 2
  | .nop | .inx | .rts | .ei | .di | .reti | .halt => 0

def cycles : Opcode → Nat
  | .ei | .di | .halt => 1
  | .nop | .ldaImm | .ldxImm | .inx | .addImm | .subImm | .cmpImm | .bne | .beq => 2
  | .jmp => 3
  | .ldaAbs | .staAbs | .addAbs | .input | .output => 4
  | .ldaAbsX | .staAbsX | .rts => 5
  | .jsr | .reti => 6

theorem decode?_byte (op : Opcode) : decode? op.byte = some op := by cases op <;> rfl

theorem mem_all (op : Opcode) : op ∈ all := by cases op <;> decide

theorem cycles_pos (op : Opcode) : 0 < op.cycles := by cases op <;> decide

end Opcode

def interruptCycles : Nat := 7
def branchPenalty : Nat := 1
def illegalCycles : Nat := 1

end Lockstep.Acc8
