import Lockstep.Device.Port
import Lockstep.Machine.Access
import Lockstep.Machine.Control

/-! Scripts carried out on a machine. Commands that touch a bus may call ports,
whose scripts go through `call`; `invoke` ties the knot at a bounded depth. -/
namespace Lockstep

namespace Machine

def attempt (f : Machine → Except AccessError Machine) : Run Reply := do
  match f (← get) with
  | .ok m =>
      set m
      return .ok
  | .error e => return .fault (.access e)

def replaceMemory (changed : Except BankError Memory) : Run Reply := do
  match changed with
  | .ok memory =>
      modify fun m => { m with memory }
      return .ok
  | .error e => return .fault (.bank e)

def onSpace (route : Route) (f : SpaceId → Run Reply) : Run Reply := do
  match (← get).resolve route with
  | .ok id => f id
  | .error e => return .fault (.config e)

def onTimer (position : Nat) (f : Machine → Timer.Id → Machine × Reply) : Run Reply := do
  let m ← get
  match m.handles[position]? with
  | some id =>
      let (m, reply) := f m id
      set m
      return reply
  | none => return .absent

def look (f : Machine → Reply) : Run Reply := return f (← get)

def handler? (m : Machine) : Target Port → Option (Bus.Handler Port)
  | .ram block offset => (m.memory.blockId? block).map fun id => .ram id offset
  | .rom block offset => (m.memory.blockId? block).map fun id => .rom id offset
  | .bank tag => (m.memory.bankId? tag).map .bank
  | .port p => some (.port p)
  | .unmapped => some .unmapped

def map (m : Machine) (override : Bool) (id : SpaceId) (first last : Nat)
    (handler : Bus.Handler Port) : Except ConfigError Machine :=
  match m.space? id with
  | none => .ok m
  | some space => do
      let space ←
        if override then space.override m.memory first last handler
        else space.install m.memory first last handler
      return m.modifySpace id fun _ => space

def spaceInfo (s : Bus.Space Port) : SpaceInfo :=
  ⟨s.name, s.shape, s.frozen, s.unmappedReads, s.unmappedWrites⟩

def blockInfo (b : Memory.Block) : BlockInfo := ⟨b.tag, b.length⟩

def bankInfo (m : Machine) (b : Memory.Bank) : BankInfo :=
  ⟨b.tag, b.count, b.selected, b.readOnly, m.memory.window b,
    (m.memory.block? b.target.1).elim "" (·.tag), b.target.2⟩

def handlerInfo (m : Machine) (h : Bus.Handler Port) : HandlerInfo :=
  ⟨h.text m.memory Port.label, h.kind, h.label m.memory Port.label⟩

def nodeInfo {δ : Type} (n : Node δ) : NodeInfo :=
  ⟨n.tag, n.typeName, n.clock, n.parent, n.children⟩

def rangeInfo (m : Machine) (e : Bus.Entry Port) : Bus.RangeInfo := e.info m.memory Port.label

def require (m : Machine) (requestedBy : DeviceId) (tag : String) :
    Except ConfigError DeviceId :=
  match m.tree.findFrom? requestedBy tag with
  | some id => .ok id
  | none => .error (.missingDevice (m.tree.tag requestedBy) tag)

def borrowable (m : Machine) (id : DeviceId) (as : Option DeviceClass) :
    Except AccessError Device := do
  let device ← m.idle id
  match as with
  | some kind => if device.kind = kind then return device else throw (.wrongType (m.tree.tag id))
  | none => return device

end Machine

open Machine in
mutual

def Command.run (call : Callback) : Command → Run Reply
  | .read route address width => onSpace route fun id => do
      return .word (← Machine.read call id address width)
  | .write route address width value => onSpace route fun id => do
      Machine.write call id address width value
      return .ok
  | .map override route first last target => onSpace route fun id => do
      let m ← get
      match m.handler? target with
      | none => return .absent
      | some handler =>
          match m.map override id first last handler with
          | .ok m =>
              set m
              return .ok
          | .error e => return .fault (.config e)
  | .freeze route => onSpace route fun id => do
      modify (·.modifySpace id (·.freeze))
      return .ok
  | .ranges route => onSpace route fun id => look fun m =>
      .ranges ((m.space? id).elim [] fun s => s.entries.map m.rangeInfo)
  | .rangeAt route address => onSpace route fun id => look fun m =>
      .ofOption (.range ∘ m.rangeInfo) ((m.space? id).bind (·.lookup? address))
  | .floating route address width => onSpace route fun id => look fun m =>
      .ofOption (fun s => .word (s.floating address width)) (m.space? id)
  | .describeSpace route => onSpace route fun id => look fun m =>
      .ofOption (.space ∘ spaceInfo) (m.space? id)
  | .peek block offset => look fun m =>
      .ofOption (fun b => .count b.toNat) ((m.memory.blockTagged? block).bind (·.get? offset))
  | .poke block offset value => do
      match (← get).memory.blockId? block with
      | none => return .absent
      | some id =>
          let inside := decide (offset < (← get).memory.blockLength id)
          modify fun m => { m with memory := m.memory.write id offset [value] }
          return .flag inside
  | .load block offset bytes => do
      match (← get).memory.blockId? block with
      | none => return .absent
      | some id =>
          let copied := ((← get).memory.block? id).elim 0 (·.room offset bytes.length)
          modify fun m => { m with memory := m.memory.write id offset bytes }
          return .count copied
  | .dump block => look fun m =>
      .ofOption (fun b => .stretches b.stretches) (m.memory.blockTagged? block)
  | .describeBlock block => look fun m =>
      .ofOption (.block ∘ blockInfo) (m.memory.blockTagged? block)
  | .describeBank bank => look fun m =>
      .ofOption (.bank ∘ m.bankInfo) (m.memory.bankTagged? bank)
  | .selectBank bank index => do
      let memory := (← get).memory
      match memory.bankId? bank with
      | none => return .absent
      | some id => replaceMemory (memory.selectBank id index)
  | .switchBank bank index => do replaceMemory ((← get).memory.switch bank index)
  | .describeTarget target => look fun m =>
      .ofOption (.handler ∘ m.handlerInfo) (m.handler? target)
  | .describePort port => return .text port.text
  | .now => look fun m => .time m.now
  | .executing => look fun m => .ofOption .device m.executing?
  | .settings => look fun m => .config m.config
  | .schedule owner delay period param => do
      let (m, id) := (← get).schedule owner delay period param
      let (m, reply) := m.issue id
      set m
      return reply
  | .scheduleCycles owner cycles param => do
      let (m, id) := (← get).scheduleCycles owner cycles param
      let (m, reply) := m.issue id
      set m
      return reply
  | .allocateTimer owner param => do
      let (m, id) := (← get).allocateTimer owner param
      let (m, reply) := m.issue id
      set m
      return reply
  | .adjustTimer position delay period => onTimer position fun m id =>
      let (m, adjusted) := m.adjustTimer id delay period
      (m, .flag adjusted)
  | .cancelTimer position => onTimer position fun m id =>
      let (m, armed) := m.cancelTimer id
      (m, .flag armed)
  | .removeTimer position => onTimer position fun m id => (m.removeTimer id, .ok)
  | .timerEnabled position => onTimer position fun m id => (m, .flag (m.timers.isEnabled id))
  | .timerFireTime position => onTimer position fun m id =>
      (m, .ofOption .time (m.timers.fireTime? id))
  | .untilNextTimer => look fun m => .ofOption .time m.timers.untilNext?
  | .driveLine unit line state vector => attempt (·.driveLine unit line state vector)
  | .lineState unit line => look fun m =>
      .ofOption .line ((m.unit unit).toOption.bind fun (_, p) => p.lines.state? line)
  | .requestYield => do
      modify (·.requestYield)
      return .ok
  | .suspend unit reasons => attempt (·.suspend unit reasons)
  | .resume unit reasons => attempt (·.resume unit reasons)
  | .spinUntilInterrupt unit => attempt (·.spinUntilInterrupt unit)
  | .driveReset unit asserted => attempt (·.driveReset unit asserted)
  | .boostInterleave quantum duration => do
      modify (·.boostInterleave quantum duration)
      return .ok
  | .quantumAt time => look fun m => .time (m.quantumAt time)
  | .unitTime unit => look fun m =>
      .ofOption (fun (_, p) => .time p.localTime) (m.unit unit).toOption
  | .unitCycles unit => look fun m =>
      .ofOption (fun (_, p) => .word p.totalCycles) (m.unit unit).toOption
  | .suspension unit => look fun m =>
      .ofOption (fun (_, p) => .suspension p.suspension) (m.unit unit).toOption
  | .units => look fun m => .devices (m.units.toList.map (·.device))
  | .getRegister unit id => look fun m => .ofAccess ((m.getRegister unit id).map .word)
  | .setRegister unit id value => attempt (·.setRegister unit id value)
  | .runState unit => look fun m => .ofOption .runState (m.runState? unit)
  | .findDevice tag => look fun m => .ofOption .device (m.tree.find? tag)
  | .requireDevice requestedBy tag => look fun m =>
      .ofConfig ((m.require requestedBy tag).map .device)
  | .describeDevice device => look fun m => .ofOption (.node ∘ nodeInfo) (m.tree.get? device)
  | .deviceCount => look fun m => .count m.tree.size
  | .borrow id as body => do
      match (← get).borrowable id as with
      | .error e => return .fault (.access e)
      | .ok device =>
          modify (·.setBusy id true)
          let inner ← Script.run call body
          modify (·.setBusy id false)
          return .borrowed (if as.isSome then device.occupant else .any device.isUnit) inner
  | .hold id => do
      match (← get).idle id with
      | .ok _ =>
          modify (·.setBusy id true)
          return .flag true
      | .error _ => return .flag false
  | .counters => look fun m => .diag m.diag
  | .emit event => do
      modify (·.trace event)
      return .ok
  | .newCell => do
      let (m, cell) := (← get).newCell
      set m
      return .count cell
  | .getCell cell => look fun m => .word ((m.cells[cell]?).getD 0)
  | .setCell cell value => do
      modify fun m => { m with cells := m.cells.setIfInBounds cell value }
      return .ok
  | .note entry => do
      modify (·.enter entry)
      return .ok

def Script.run (call : Callback) : Script → Run Reply
  | .done reply => return reply
  | .step command next => do
      let reply ← Command.run call command
      Script.run call (next reply)

end

namespace Machine

def invoke : (depth : Nat) → Script → Run Reply
  | 0, _ => fun _ => none
  | depth + 1, script => script.run (invoke depth)

end Machine

end Lockstep
