import Lockstep.Machine.Slice

/-! How a machine advances. The live processor that is least advanced goes next, the
first added on a tie. A timer due by its local time fires first; otherwise it
gets a slice that ends at the quantum, the next timer or the target. -/
namespace Lockstep.Machine

def earliest? : List (Nat × Time) → Option (Nat × Time)
  | [] => none
  | row :: rest =>
      match earliest? rest with
      | some best => if best.2 < row.2 then some best else some row
      | none => some row

def liveUnits (m : Machine) : List (Nat × Time) :=
  m.units.toList.zipIdx.filterMap fun (p, index) =>
    if p.isLive then some (index, p.localTime) else none

def leastAdvanced? (m : Machine) : Option (Nat × Time) := earliest? m.liveUnits

def dispatch (call : Callback) (fired : Timer.Fired) : Run Unit := do
  modify fun m => (m.count (·.timer)).trace (.timerFired fired.owner fired.param fired.time)
  let m ← get
  match m.idle fired.owner with
  | .error _ => return
  | .ok device =>
      modify (·.setBusy fired.owner true)
      match device with
      | .peripheral p => discard (call (p.timer fired (m.position? fired.id)))
      | _ => pure ()
      modify (·.setBusy fired.owner false)

def sliceEnd (m : Machine) (start target : Time) : Time :=
  let finish := min (start + m.quantumAt start) target
  match m.timers.nextFireTime? with
  | some next => min finish next
  | none => finish

def settle (m : Machine) (unit cycles consumed : Nat) (trap : Option Trap) (start : Time) :
    Machine :=
  match m.units[unit]? with
  | none => m
  | some p =>
      let charged := if consumed = 0 then cycles else consumed
      let localTime := start + p.period.scale charged
      let m := m.modifyUnit unit fun p =>
        { p with
          localTime
          totalCycles := Word.add p.totalCycles consumed
          yieldRequested := false }
      let m := m.count (·.slice cycles consumed)
      let m := if p.yieldRequested then m.count (·.yielded) else m
      let m := m.trace (.sliceEnd p.device localTime consumed)
      match trap with
      | some cause =>
          if p.suspension.trapped then m
          else
            let m := m.modifyUnit unit fun p =>
              { p with suspension := p.suspension.union { trapped := true } }
            (m.count (·.trap)).trace (.unitTrapped p.device cause localTime)
      | none => m

def runSlice (call : Callback) (unit : Nat) (target : Time) : Run Unit := do
  let m ← get
  match m.units[unit]? with
  | none => return
  | some p =>
      let start := p.localTime
      let finish := m.sliceEnd start target
      let cycles := max (p.clock.cyclesCovering (finish - start)) 1
      modify fun m =>
        { m with
          frame := some ⟨unit, start, cycles, finish⟩
          budget := (min cycles budgetLimit : Nat) }
      modify (·.modifyUnit unit fun p => { p with yieldRequested := false })
      modify (·.trace (.sliceStart p.device start cycles))
      let outcome ← grant call unit cycles p.device
      modify fun m => { m with frame := none }
      match outcome with
      | some (consumed, trap) => modify (·.settle unit cycles consumed trap start)
      | none => modify (·.modifyUnit unit fun p =>
          { p with suspension := p.suspension.union { disabled := true } })

/-- Advances every live processor and the timers to `target`. One timer fires at a
time, since its callback may wake or suspend a processor. -/
def runUntil (call : Callback) (target : Time) : (fuel : Nat) → Run Unit
  | 0 => fun _ => none
  | fuel + 1 => do
      let m ← get
      let pick := m.leastAdvanced?
      let limit := pick.elim target fun (_, localTime) => min localTime target
      match m.timers.popDue limit with
      | some (fired, timers) =>
          set { m with timers }
          dispatch call fired
          runUntil call target fuel
      | none =>
          set { m with timers := m.timers.setNow limit }
          match pick with
          | none => return
          | some (unit, localTime) =>
              if target ≤ localTime then return
              runSlice call unit target
              runUntil call target fuel

def runFor (call : Callback) (span : Time) (fuel : Nat) : Run Unit := do
  runUntil call ((← get).now + span) fuel

def runFrame (call : Callback) (fuel : Nat) : Run Unit := do
  runFor call (← get).config.framePeriod fuel

def runStep (call : Callback) (device : DeviceId) (fuel : Nat) : Run Unit := do
  let m ← get
  let start := match m.unit device with
    | .ok (_, p) => p.localTime
    | .error _ => m.now
  runUntil call (start + .ofAttos 1) fuel

end Lockstep.Machine
