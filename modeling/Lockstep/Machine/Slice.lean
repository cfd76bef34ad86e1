import Lockstep.Machine.Interpreter

/-! What a processor does in its slice. It consumes cycles of the budget, stops at
the first instruction boundary where the budget is spent or a yield is pending,
and publishes its registers at each boundary for others to see. -/
namespace Lockstep.Machine

def budgetLimit : Nat := 0x7FFF_FFFF_FFFF_FFFF

def charge (m : Machine) (cycles : Nat) : Machine :=
  { m with budget := max (m.budget - (min cycles budgetLimit : Nat)) (-(budgetLimit + 1 : Nat)) }

def consume (cycles : Nat) : Run Unit := modify (·.charge cycles)

def consumed (m : Machine) : Nat := m.frame.elim 0 m.consumedIn

def mustStop (m : Machine) (unit : Nat) : Bool :=
  decide (m.budget ≤ 0) || (m.units[unit]?).elim false (·.yieldRequested)

def lineActive (m : Machine) (unit line : Nat) : Bool :=
  (m.units[unit]?).elim false (·.lines.isActive line)

def publish (unit : Nat) (registers : RegisterId → Option Nat) : Run Unit :=
  modify (·.modifyUnit unit (·.publish registers))

def noteInterrupt (m : Machine) (unit line : Nat) (vector : Option Nat) : Machine :=
  let m := m.count (·.interrupt)
  match m.units[unit]? with
  | some p => m.trace (.interruptAccepted p.device line vector m.now)
  | none => m

def acknowledge (call : Callback) (unit line : Nat) : Run (Option Nat) := do
  let vector ← match ((← get).units[unit]?).bind (·.lines.acknowledge? line) with
    | none => pure none
    | some (lines, answer) =>
        modify (·.modifyUnit unit fun p => { p with lines })
        match answer with
        | .stored vector => pure vector
        | .ask source => do
            let reply ← call (source line)
            pure (some (reply.driven?.getD 0))
  modify (·.noteInterrupt unit line vector)
  return vector

def acc8Port (call : Callback) (program io : SpaceId) : Acc8.Port Run where
  read a := do return UInt8.ofNat (← read call program a.toNat .byte)
  write a v := write call program a.toNat .byte v.toNat
  input a := do return UInt8.ofNat (← read call io a.toNat .byte)
  output a v := write call io a.toNat .byte v.toNat

/-- Instructions and interrupt entries until the slice ends. Each costs at least one
cycle, so a bound on the budget bounds their number. -/
def acc8Loop (call : Callback) (unit : Nat) (port : Acc8.Port Run) :
    (bound : Nat) → Acc8 → Run Acc8
  | 0, cpu => return cpu
  | bound + 1, cpu => do
      if (← get).mustStop unit then return cpu
      publish unit cpu.get?
      let m ← get
      match cpu.pending (m.lineActive unit Acc8.nmiLine) (m.lineActive unit Acc8.irqLine) with
      | (cpu, some line) =>
          let vector ← acknowledge call unit line
          let cpu ← cpu.enter port (vector.getD line)
          consume Acc8.interruptCycles
          if cpu.runState.isTrapped then return cpu
          acc8Loop call unit port bound cpu
      | (cpu, none) =>
          if cpu.runState = .waiting then
            consume m.budget.toNat
            return cpu
          let (cpu, cycles) ← cpu.step port
          consume cycles
          if cpu.runState.isTrapped then return cpu
          acc8Loop call unit port bound cpu

def runAcc8 (call : Callback) (unit cycles : Nat) (port : Acc8.Port Run) (cpu : Acc8) :
    Run (Acc8 × Nat) := do
  if cycles = 0 || cpu.runState.isTrapped then return (cpu, 0)
  publish unit cpu.get?
  let cpu ←
    if cpu.fetchResetVector then
      let pc ← Acc8.readWord port Acc8.resetVector
      pure { cpu with fetchResetVector := false, pc }
    else pure cpu
  let cpu := if cpu.runState = .stopped then { cpu with runState := .running } else cpu
  let cpu ← acc8Loop call unit port (min cycles budgetLimit) cpu
  return (cpu, consumed (← get))

def roundsUntilStop (m : Machine) (unit cycles : Nat) : Nat :=
  if m.mustStop unit then 0
  else
    let portion := min cycles budgetLimit
    (m.budget.toNat + portion - 1) / portion

def sliceStatus (m : Machine) (unit : Nat) : SliceStatus :=
  ⟨m.budget, m.consumed, m.mustStop unit, m.now,
    (m.units[unit]?).elim [] fun p => p.lines.lines.toList.map (·.state.isActive)⟩

def inquire (call : Callback) (unit : Nat) : Inquiry → Run Reply
  | .consumeUntilStop cycles => do
      let count := (← get).roundsUntilStop unit cycles
      modify fun m => { m with budget := m.budget - (count * min cycles budgetLimit : Nat) }
      return .word count
  | .status => look fun m => .status (m.sliceStatus unit)
  | .acknowledge line => do
      return .ofOption .count (← acknowledge call unit line)

def playBeats (call : Callback) (unit : Nat) : List Beat → Sequencer → Run (Sequencer × Nat)
  | [], s => return (s, consumed (← get))
  | .consume cycles :: rest, s => do
      consume cycles
      playBeats call unit rest s
  | .publish :: rest, s => do
      publish unit s.get?
      playBeats call unit rest s
  | .setRegister id value :: rest, s => playBeats call unit rest (s.put id value)
  | .setRunState state :: rest, s => playBeats call unit rest { s with runState := state }
  | .finish cycles :: _, s => return (s, cycles)
  | .inquire name inquiry :: rest, s => do
      let reply ← inquire call unit inquiry
      modify (·.enter (.command name reply))
      playBeats call unit rest s
  | .perform task :: rest, s => do
      let reply ← call task.body
      modify (·.enter (.command task.name reply))
      playBeats call unit rest s

def runSequencer (call : Callback) (unit cycles : Nat) (s : Sequencer) : Run (Sequencer × Nat) := do
  modify (·.enter (.run s.name unit cycles cycles))
  let beats := if s.rounds.isEmpty then [.consume cycles] else s.beats
  playBeats call unit beats { s with round := s.round + 1 }

def runDevice (call : Callback) (unit cycles : Nat) (id : DeviceId) :
    Device → Run (Option (Device × Nat))
  | .acc8 cpu => do
      let m ← get
      match m.ownedSpace id .program, m.ownedSpace id .io with
      | .ok program, .ok io =>
          let (cpu, count) ← runAcc8 call unit cycles (acc8Port call program io) cpu
          return some (.acc8 cpu, count)
      | _, _ => return none
  | .sequencer s => do
      if s.runnable then
        let (s, count) ← runSequencer call unit cycles s
        return some (.sequencer s, count)
      else return none
  | .peripheral _ => return none

def grant (call : Callback) (unit cycles : Nat) (id : DeviceId) :
    Run (Option (Nat × Option Trap)) := do
  match (← get).idle id with
  | .error _ => return none
  | .ok device =>
      modify (·.setBusy id true)
      let outcome ← runDevice call unit cycles id device
      modify (·.setBusy id false)
      match outcome with
      | none => return none
      | some (device, count) =>
          modify (·.withDevice id device)
          return some (count, device.runState?.bind (·.trap?))

end Lockstep.Machine
