import Lockstep.Machine.State

/-! What devices do to timers and to each other's processors. Arming a timer inside
the running slice ends the slice early, as does suspending its processor. A
processor that becomes live again is brought up to the present. -/
namespace Lockstep.Machine

def cutBefore (m : Machine) (time : Time) : Machine :=
  match m.frame with
  | some f => if time < f.finish then m.requestYield else m
  | none => m

def schedule (m : Machine) (owner : DeviceId) (delay period : Time) (param : Nat) :
    Machine × Timer.Id :=
  let time := m.now + delay
  let (timers, id) := m.timers.scheduleAt owner time period param
  ({ m with timers }.cutBefore time, id)

def scheduleCycles (m : Machine) (owner : DeviceId) (cycles param : Nat) : Machine × Timer.Id :=
  let clock := (m.tree.get? owner).elim ⟨0⟩ (·.clock)
  m.schedule owner (clock.span cycles) .zero param

def allocateTimer (m : Machine) (owner : DeviceId) (param : Nat) : Machine × Timer.Id :=
  let (timers, id) := m.timers.allocate owner param
  ({ m with timers }, id)

def adjustTimer (m : Machine) (id : Timer.Id) (delay period : Time) : Machine × Bool :=
  let time := m.now + delay
  match m.timers.adjustAt id time period with
  | (timers, true) => ({ m with timers }.cutBefore time, true)
  | (_, false) => (m, false)

def cancelTimer (m : Machine) (id : Timer.Id) : Machine × Bool :=
  let (timers, armed) := m.timers.cancel id
  ({ m with timers }, armed)

def removeTimer (m : Machine) (id : Timer.Id) : Machine := { m with timers := m.timers.remove id }

def suspend (m : Machine) (device : DeviceId) (reasons : Suspension) :
    Except AccessError Machine := do
  let (index, unit) ← m.unit device
  let before := unit.suspension
  let m := m.modifyUnit index fun p => { p with suspension := before.union reasons }
  let m := if before.contains reasons then m else m.trace (.suspended device reasons)
  return match m.frame with
    | some f => if f.unit = index then m.requestYield else m
    | none => m

def resume (m : Machine) (device : DeviceId) (reasons : Suspension) :
    Except AccessError Machine := do
  let (index, unit) ← m.unit device
  if !unit.suspension.intersects reasons then return m
  let after := unit.suspension.diff reasons
  let now := m.now
  let m := m.modifyUnit index fun p =>
    let p := { p with suspension := after }
    if after.isEmpty then p.catchUp now else p
  return m.trace (.resumed device reasons)

def driveLine (m : Machine) (device : DeviceId) (line : Nat) (state : LineState)
    (vector : Option Nat) : Except AccessError Machine := do
  let (index, unit) ← m.unit device
  match unit.lines.set? line state vector with
  | none => throw (.unknownInputLine (m.tree.tag device) line)
  | some lines =>
      let m := m.modifyUnit index fun p => { p with lines }
      let m := m.trace (.inputLineChanged device line state)
      if state.isActive && unit.suspension.spin then m.resume device { spin := true } else return m

def spinUntilInterrupt (m : Machine) (device : DeviceId) : Except AccessError Machine := do
  let (_, unit) ← m.unit device
  if unit.lines.anyActive then return m else m.suspend device { spin := true }

def resetUnit (m : Machine) (index : Nat) : Except AccessError Machine :=
  match m.units[index]? with
  | none => .ok m
  | some unit => do
      let device ← m.idle unit.device
      let (device, entries) := device.resetUnit
      let m := (m.withDevice unit.device device).enterAll entries
      return m.modifyUnit index fun p =>
        { p with lines := p.lines.clear, suspension := p.suspension.diff { trapped := true } }

def driveReset (m : Machine) (device : DeviceId) (asserted : Bool) : Except AccessError Machine :=
  if asserted then m.suspend device { reset := true }
  else do
    let (index, unit) ← m.unit device
    if !unit.suspension.reset then return m
    let m ← m.resetUnit index
    m.resume device { reset := true }

def boostInterleave (m : Machine) (quantum duration : Time) : Machine :=
  { m with boost := some ⟨quantum, m.now + duration⟩ }.requestYield

def quantumAt (m : Machine) (time : Time) : Time :=
  match m.boost with
  | some b => if time < b.expires then min b.quantum m.config.quantum else m.config.quantum
  | none => m.config.quantum

def getRegister (m : Machine) (device : DeviceId) (id : RegisterId) : Except AccessError Nat := do
  if m.executing? = some device then
    let (_, unit) ← m.unit device
    match unit.published? id with
    | some value => return value
    | none => throw (.register (.unknownId id))
  else
    let d ← m.idle device
    if !d.isUnit then throw (.notExecutionUnit (m.tree.tag device))
    match d.getRegister? id with
    | some value => return value
    | none => throw (.register (.unknownId id))

def setRegister (m : Machine) (device : DeviceId) (id : RegisterId) (value : Nat) :
    Except AccessError Machine := do
  let d ← m.idle device
  if !d.isRunnable then throw (.notExecutionUnit (m.tree.tag device))
  match d.setRegister id value with
  | .ok d => return m.withDevice device d
  | .error e => throw (.register e)

def runState? (m : Machine) (device : DeviceId) : Option RunState :=
  (m.idle device).toOption.bind (·.runState?)

end Lockstep.Machine
