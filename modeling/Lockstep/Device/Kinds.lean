import Lockstep.Acc8.Processor
import Lockstep.Device.Peripheral
import Lockstep.Device.Sequencer
import Lockstep.Device.Tree

/-! The kinds of devices and what a machine asks of any of them: its spaces and,
for a processor, its registers, input lines and run state. -/
namespace Lockstep

inductive Device where
  | acc8 (cpu : Acc8)
  | peripheral (p : Peripheral)
  | sequencer (s : Sequencer)

namespace Device

def kind : Device → DeviceClass
  | .acc8 _ => .acc8
  | .peripheral _ => .peripheral
  | .sequencer _ => .sequencer

def isUnit : Device → Bool
  | .peripheral _ => false
  | _ => true

def isRunnable : Device → Bool
  | .acc8 _ => true
  | .peripheral _ => false
  | .sequencer s => s.runnable

def spaces : Device → List SpaceSpec
  | .acc8 cpu =>
      [⟨Tag.join cpu.tag Acc8.programShape.kind.text, Acc8.programShape⟩,
        ⟨Tag.join cpu.tag Acc8.ioShape.kind.text, Acc8.ioShape⟩]
  | .peripheral p => p.spaces
  | .sequencer _ => []

def spaceOf? (d : Device) (kind : Bus.SpaceKind) : Option SpaceSpec :=
  d.spaces.find? (·.shape.kind == kind)

def registers : Device → List Register
  | .acc8 _ => Acc8.registers
  | .peripheral _ => []
  | .sequencer s => s.registers.map (·.register)

def lineCount : Device → Nat
  | .acc8 _ => Acc8.lineCount
  | .peripheral _ => 0
  | .sequencer s => s.lines

def getRegister? (d : Device) (id : RegisterId) : Option Nat :=
  match d with
  | .acc8 cpu => cpu.get? id
  | .peripheral _ => none
  | .sequencer s => s.get? id

def setRegister (d : Device) (id : RegisterId) (value : Nat) : Except RegisterError Device :=
  match d with
  | .acc8 cpu => (cpu.set id value).map .acc8
  | .peripheral _ => .error (.unknownId id)
  | .sequencer s => (s.set id value).map .sequencer

def runState? : Device → Option RunState
  | .acc8 cpu => some cpu.runState
  | .peripheral _ => none
  | .sequencer s => some s.runState

def registerValues (d : Device) : List (RegisterId × Nat) :=
  d.registers.filterMap fun r => (d.getRegister? r.id).map fun value => (r.id, value)

def resetUnit : Device → Device × List Activity
  | .acc8 cpu => (.acc8 cpu.reset, [])
  | .sequencer s =>
      if s.runnable then (.sequencer s.reset, [.unitReset s.name]) else (.sequencer s, [])
  | d => (d, [])

def occupant : Device → Occupant
  | .acc8 cpu => .registers cpu.pc.toNat cpu.a.toNat cpu.x.toNat
  | .peripheral p => .named p.name
  | .sequencer s => .named s.name

end Device

end Lockstep
