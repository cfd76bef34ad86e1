import Lockstep.Acc8.Opcode
import Lockstep.Bus.Shape
import Lockstep.Unit.Register
import Lockstep.Unit.RunState

/-! The acc8 processor: an accumulator, an index register, a stack page, one
maskable and one non-maskable interrupt. Instructions run against any bus, in
any monad: the processor knows nothing of the machine around it. -/
namespace Lockstep

namespace Acc8

structure Options where
  resetPc : Option UInt16 := none
  illegalFatal : Bool := false
  deriving DecidableEq, Repr, Inhabited

structure Flags where
  zero : Bool := false
  carry : Bool := false
  interrupts : Bool := false
  deriving DecidableEq, Repr, Inhabited

namespace Flags

def mask : Nat := 7

def ofByte (b : UInt8) : Flags := ⟨b.toNat.testBit 0, b.toNat.testBit 1, b.toNat.testBit 2⟩

def toByte (f : Flags) : UInt8 :=
  UInt8.ofNat (f.zero.toNat + 2 * f.carry.toNat + 4 * f.interrupts.toNat)

theorem ofByte_toByte (f : Flags) : ofByte f.toByte = f := by
  obtain ⟨z, c, i⟩ := f
  cases z <;> cases c <;> cases i <;> decide

end Flags

def irqLine : Nat := 0
def nmiLine : Nat := 1
def lineCount : Nat := 2
def resetVector : UInt16 := 0xFFFE
def vectorBase : UInt16 := 0xFFF0
def vectorCount : Nat := 8
def stackPage : UInt16 := 0x0100
def typeName : String := "acc8"

def pcId : RegisterId := ⟨0⟩
def aId : RegisterId := ⟨1⟩
def xId : RegisterId := ⟨2⟩
def spId : RegisterId := ⟨3⟩
def flagsId : RegisterId := ⟨4⟩

def registers : List Register :=
  [⟨pcId, "PC", 16, true⟩, ⟨aId, "A", 8, true⟩, ⟨xId, "X", 8, true⟩, ⟨spId, "SP", 8, true⟩,
    ⟨flagsId, "FLAGS", 8, true⟩]

def programShape : Bus.Shape :=
  { kind := .program, addressBits := 16, dataWidth := .byte, byteOrder := .little }

def ioShape : Bus.Shape :=
  { kind := .io, addressBits := 8, dataWidth := .byte, byteOrder := .little }

structure Port (m : Type → Type) where
  read : UInt16 → m UInt8
  write : UInt16 → UInt8 → m Unit
  input : UInt8 → m UInt8
  output : UInt8 → UInt8 → m Unit

end Acc8

structure Acc8 where
  tag : String
  options : Acc8.Options
  pc : UInt16
  a : UInt8
  x : UInt8
  sp : UInt8
  flags : Acc8.Flags
  runState : RunState
  fetchResetVector : Bool
  nmiLatched : Bool
  deriving DecidableEq, Repr, Inhabited

namespace Acc8

def reset (cpu : Acc8) : Acc8 :=
  { cpu with
    pc := cpu.options.resetPc.getD 0, a := 0, x := 0, sp := 0xFF, flags := {}
    runState := .running
    fetchResetVector := cpu.options.resetPc.isNone
    nmiLatched := false }

def new (tag : String) (options : Options) : Acc8 :=
  { reset ⟨tag, options, 0, 0, 0, 0, {}, .stopped, false, false⟩ with runState := .stopped }

def get? (cpu : Acc8) (id : RegisterId) : Option Nat :=
  if id = pcId then some cpu.pc.toNat
  else if id = aId then some cpu.a.toNat
  else if id = xId then some cpu.x.toNat
  else if id = spId then some cpu.sp.toNat
  else if id = flagsId then some cpu.flags.toByte.toNat
  else none

def set (cpu : Acc8) (id : RegisterId) (value : Nat) : Except RegisterError Acc8 :=
  if id = pcId then .ok { cpu with pc := UInt16.ofNat value, fetchResetVector := false }
  else if id = aId then .ok { cpu with a := UInt8.ofNat value }
  else if id = xId then .ok { cpu with x := UInt8.ofNat value }
  else if id = spId then .ok { cpu with sp := UInt8.ofNat value }
  else if id = flagsId then .ok { cpu with flags := .ofByte (UInt8.ofNat value) }
  else .error (.unknownId id)

def trapped (cpu : Acc8) (cause : Trap) : Acc8 := { cpu with runState := .trapped cause }

def setZero (cpu : Acc8) (value : UInt8) : Acc8 :=
  { cpu with flags := { cpu.flags with zero := value == 0 } }

def loadA (cpu : Acc8) (value : UInt8) : Acc8 := { cpu with a := value }.setZero value

def loadX (cpu : Acc8) (value : UInt8) : Acc8 := { cpu with x := value }.setZero value

def add (cpu : Acc8) (operand : UInt8) : Acc8 :=
  let carry := decide (256 ≤ cpu.a.toNat + operand.toNat)
  let sum := cpu.a + operand
  { cpu with a := sum, flags := { cpu.flags with carry } }.setZero sum

def compare (cpu : Acc8) (operand : UInt8) : Acc8 :=
  { cpu with flags := { cpu.flags with carry := decide (operand ≤ cpu.a) } }.setZero (cpu.a - operand)

def sub (cpu : Acc8) (operand : UInt8) : Acc8 :=
  { cpu.compare operand with a := cpu.a - operand }

def displace (pc : UInt16) (offset : UInt8) : UInt16 :=
  if offset < 128 then pc + offset.toUInt16 else pc + offset.toUInt16 - 256

def address (low high : UInt8) : UInt16 := UInt16.ofNat (low.toNat + 256 * high.toNat)

def lowByte (v : UInt16) : UInt8 := UInt8.ofNat v.toNat

def highByte (v : UInt16) : UInt8 := UInt8.ofNat (v.toNat / 256)

def pending (cpu : Acc8) (nmi irq : Bool) : Acc8 × Option Nat :=
  if nmi && !cpu.nmiLatched then ({ cpu with nmiLatched := true }, some nmiLine)
  else
    ({ cpu with nmiLatched := nmi },
      if irq && cpu.flags.interrupts then some irqLine else none)

section
variable {m : Type → Type} [Monad m]

@[specialize] def readWord (port : Port m) (target : UInt16) : m UInt16 := do
  let low ← port.read target
  let high ← port.read (target + 1)
  return address low high

@[specialize] def fetch (port : Port m) (cpu : Acc8) : m (UInt8 × Acc8) := do
  let value ← port.read cpu.pc
  return (value, { cpu with pc := cpu.pc + 1 })

@[specialize] def fetchWord (port : Port m) (cpu : Acc8) : m (UInt16 × Acc8) := do
  let (low, cpu) ← fetch port cpu
  let (high, cpu) ← fetch port cpu
  return (address low high, cpu)

@[specialize] def push (port : Port m) (value : UInt8) (cpu : Acc8) : m Acc8 := do
  port.write (stackPage + cpu.sp.toUInt16) value
  return { cpu with sp := cpu.sp - 1 }

@[specialize] def pull (port : Port m) (cpu : Acc8) : m (UInt8 × Acc8) := do
  let cpu := { cpu with sp := cpu.sp + 1 }
  let value ← port.read (stackPage + cpu.sp.toUInt16)
  return (value, cpu)

@[specialize] def pushWord (port : Port m) (value : UInt16) (cpu : Acc8) : m Acc8 := do
  let cpu ← push port (highByte value) cpu
  push port (lowByte value) cpu

@[specialize] def pullWord (port : Port m) (cpu : Acc8) : m (UInt16 × Acc8) := do
  let (low, cpu) ← pull port cpu
  let (high, cpu) ← pull port cpu
  return (address low high, cpu)

@[specialize] def execute (port : Port m) (op : Opcode) (cpu : Acc8) : m (Acc8 × Bool) := do
  match op with
  | .nop => return (cpu, false)
  | .ldaImm =>
      let (value, cpu) ← fetch port cpu
      return (cpu.loadA value, false)
  | .ldaAbs =>
      let (target, cpu) ← fetchWord port cpu
      return (cpu.loadA (← port.read target), false)
  | .ldaAbsX =>
      let (target, cpu) ← fetchWord port cpu
      return (cpu.loadA (← port.read (target + cpu.x.toUInt16)), false)
  | .staAbs =>
      let (target, cpu) ← fetchWord port cpu
      port.write target cpu.a
      return (cpu, false)
  | .staAbsX =>
      let (target, cpu) ← fetchWord port cpu
      port.write (target + cpu.x.toUInt16) cpu.a
      return (cpu, false)
  | .ldxImm =>
      let (value, cpu) ← fetch port cpu
      return (cpu.loadX value, false)
  | .inx => return (cpu.loadX (cpu.x + 1), false)
  | .addImm =>
      let (value, cpu) ← fetch port cpu
      return (cpu.add value, false)
  | .addAbs =>
      let (target, cpu) ← fetchWord port cpu
      return (cpu.add (← port.read target), false)
  | .subImm =>
      let (value, cpu) ← fetch port cpu
      return (cpu.sub value, false)
  | .cmpImm =>
      let (value, cpu) ← fetch port cpu
      return (cpu.compare value, false)
  | .jmp =>
      let (target, cpu) ← fetchWord port cpu
      return ({ cpu with pc := target }, false)
  | .bne =>
      let (offset, cpu) ← fetch port cpu
      if cpu.flags.zero then return (cpu, false)
      else return ({ cpu with pc := displace cpu.pc offset }, true)
  | .beq =>
      let (offset, cpu) ← fetch port cpu
      if cpu.flags.zero then return ({ cpu with pc := displace cpu.pc offset }, true)
      else return (cpu, false)
  | .jsr =>
      let (target, cpu) ← fetchWord port cpu
      let cpu ← pushWord port cpu.pc cpu
      return ({ cpu with pc := target }, false)
  | .rts =>
      let (target, cpu) ← pullWord port cpu
      return ({ cpu with pc := target }, false)
  | .input =>
      let (number, cpu) ← fetch port cpu
      return (cpu.loadA (← port.input number), false)
  | .output =>
      let (number, cpu) ← fetch port cpu
      port.output number cpu.a
      return (cpu, false)
  | .ei => return ({ cpu with flags := { cpu.flags with interrupts := true } }, false)
  | .di => return ({ cpu with flags := { cpu.flags with interrupts := false } }, false)
  | .reti =>
      let (flags, cpu) ← pull port cpu
      let cpu := { cpu with flags := .ofByte flags }
      let (target, cpu) ← pullWord port cpu
      return ({ cpu with pc := target }, false)
  | .halt => return ({ cpu with runState := .waiting }, false)

@[specialize] def step (port : Port m) (cpu : Acc8) : m (Acc8 × Nat) := do
  let start := cpu.pc
  let (byte, cpu) ← fetch port cpu
  match Opcode.decode? byte with
  | none =>
      if cpu.options.illegalFatal then
        return ({ cpu with pc := start }.trapped .illegalInstruction, illegalCycles)
      else return (cpu, illegalCycles)
  | some op =>
      let (cpu, taken) ← execute port op cpu
      return (cpu, op.cycles + if taken then branchPenalty else 0)

@[specialize] def enter (port : Port m) (vector : Nat) (cpu : Acc8) : m Acc8 := do
  if vectorCount ≤ vector then return cpu.trapped .invalidVector
  let cpu ← pushWord port cpu.pc cpu
  let cpu ← push port cpu.flags.toByte cpu
  let cpu := { cpu with flags := { cpu.flags with interrupts := false } }
  let pc ← readWord port (vectorBase + UInt16.ofNat (2 * vector))
  return { cpu with pc, runState := .running }

end

end Acc8

end Lockstep
