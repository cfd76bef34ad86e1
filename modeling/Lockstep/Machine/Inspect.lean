import Lockstep.Machine.State
import Lockstep.Snapshot.Fingerprint

/-! Snapshots of a machine. A processor that is in use shows no registers and counts
as stopped. -/
namespace Lockstep.Machine

def unitSnapshot (m : Machine) (p : Processor) : UnitSnapshot :=
  let device := (m.idle p.device).toOption
  { tag := m.tree.tag p.device
    localTime := p.localTime
    totalCycles := p.totalCycles
    runState := (device.bind (·.runState?)).getD .stopped
    suspension := p.suspension.bits
    registers := device.elim [] (·.registerValues) }

def snapshot (m : Machine) : Snapshot :=
  { time := m.timers.now
    units := m.units.toList.map m.unitSnapshot
    timers := m.timers.entries
    banks := (m.memory.bankTags.values.filterMap m.memory.bank?).map fun b => ⟨b.tag, b.selected⟩
    memory := (m.memory.blockTags.values.filterMap m.memory.block?).map fun b =>
      ⟨b.tag, b.bytes.toList⟩ }

end Lockstep.Machine
