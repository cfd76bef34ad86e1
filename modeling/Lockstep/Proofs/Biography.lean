import Lockstep.Proofs.Changes
import Lockstep.Proofs.Chronicle
import Lockstep.Proofs.Entry

/-! The life of one processor. Of all that a machine does, only a few things concern a processor:
its lines are driven, it is reset, its registers are written while it is in its seat, and in its
slices it goes from boundary to boundary. What a chronicle tells about it is such a life. -/
namespace Lockstep

inductive Phase where
  | seated
  | resting
  | taken (line : Nat)
  | asking (line : Nat) (source : Nat → Script) (machine : Machine)
  | entering (line : Nat) (vector : Option Nat)
  | executing

structure Core where
  lines : InputLines (Nat → Script)
  cpu : Acc8
  phase : Phase

namespace Machine

def linesOf? (m : Machine) (unit : Nat) : Option (InputLines (Nat → Script)) :=
  (m.units[unit]?).map (·.lines)

end Machine

structure Acc8.Alert (cpu : Acc8) : Prop where
  sane : cpu.runState.isTrapped = false
  started : cpu.runState ≠ .stopped
  placed : cpu.fetchResetVector = false

namespace Core

def pending (c : Core) : Acc8 × Option Nat :=
  c.cpu.pending (c.lines.isActive Acc8.nmiLine) (c.lines.isActive Acc8.irqLine)

def awaits (line : Nat) (m : Machine) : VectorAnswer (Nat → Script) → Phase
  | .ask source => .asking line source m
  | .stored vector => .entering line vector

inductive Step (unit : Nat) : Core → List Happening → Core → Prop where
  | driven {c line state vector lines} (heeds : ∀ taken, c.phase ≠ .taken taken)
      (ok : c.lines.set? line state vector = some lines) :
      Step unit c [.driven line state vector] { c with lines }
  | written {c id value cpu} (free : c.phase = .seated) (ok : c.cpu.set id value = .ok cpu) :
      Step unit c [.written id value] { c with cpu }
  | reset {c} (free : c.phase = .seated) :
      Step unit c [.reset] { c with lines := c.lines.clear, cpu := c.cpu.reset }
  | load {c} (free : c.phase = .seated) : Step unit c [] { c with phase := .resting }
  | fetched {c} (pc : UInt16) (rests : c.phase = .resting) :
      Step unit c [] { c with cpu := { c.cpu with fetchResetVector := false, pc } }
  | woken {c} (rests : c.phase = .resting) (stopped : c.cpu.runState = .stopped) :
      Step unit c [] { c with cpu := { c.cpu with runState := .running } }
  | taken {c m cpu line} (rests : c.phase = .resting) (alert : c.cpu.Alert)
      (seen : m.linesOf? unit = some c.lines) (takes : c.pending = (cpu, some line)) :
      Step unit c [.boundary c.cpu m] { c with cpu, phase := .taken line }
  | plain {c m cpu} (rests : c.phase = .resting) (alert : c.cpu.Alert)
      (seen : m.linesOf? unit = some c.lines) (takes : c.pending = (cpu, none)) :
      Step unit c [.boundary c.cpu m] { c with cpu, phase := .executing }
  | accepted {c m line lines answer} (takes : c.phase = .taken line)
      (row : c.lines.acknowledge? line = some (lines, answer)) (seen : m.linesOf? unit = some lines) :
      Step unit c [.accepted line m] { c with lines, phase := awaits line m answer }
  | answered {c m₀ m line source reply} (depth : Nat) (asks : c.phase = .asking line source m₀)
      (ran : Machine.invoke depth (source line) m₀ = some (reply, m))
      (seen : m.linesOf? unit = some c.lines) :
      Step unit c [.answered line reply m]
        { c with phase := .entering line (some (reply.driven?.getD 0)) }
  | entered {c m₀ m line vector cpu} (depth : Nat) (program io : SpaceId)
      (enters : c.phase = .entering line vector)
      (ran : c.cpu.enter (Machine.acc8Port (Machine.invoke depth) program io) (vector.getD line) m₀ =
        some (cpu, m))
      (seen : m.linesOf? unit = some c.lines) :
      Step unit c [.entered line vector cpu m] { c with cpu, phase := .resting }
  | executed {c m₀ m cpu work} (depth : Nat) (program io : SpaceId) (executes : c.phase = .executing)
      (awake : c.cpu.runState ≠ .waiting)
      (ran : c.cpu.stepWork (Machine.acc8Port (Machine.invoke depth) program io) m₀ =
        some ((cpu, work), m))
      (seen : m.linesOf? unit = some c.lines) :
      Step unit c [.executed work cpu m] { c with cpu, phase := .resting }
  | idle {c} (executes : c.phase = .executing) (waits : c.cpu.runState = .waiting) :
      Step unit c [] { c with phase := .resting }
  | shut {c} (rests : c.phase = .resting) : Step unit c [] { c with phase := .seated }

inductive Life (unit : Nat) : Core → List Happening → Core → Prop where
  | still (c : Core) : Life unit c [] c
  | step {c₁ c₂ c₃ first rest} (one : Step unit c₁ first c₂) (more : Life unit c₂ rest c₃) :
      Life unit c₁ (first ++ rest) c₃

namespace Life
variable {unit : Nat} {a b c : Core} {first rest : List Happening}

theorem one (step : Step unit a first b) : Life unit a first b := by
  have life := Life.step step (.still b)
  rwa [List.append_nil] at life

theorem append (before : Life unit a first b) (after : Life unit b rest c) :
    Life unit a (first ++ rest) c := by
  induction before with
  | still => exact after
  | step one _ ih =>
    rw [List.append_assoc]
    exact .step one (ih after)

end Life

end Core

abbrev Absence := Option (Acc8 × Phase)

namespace Machine

def devices (m : Machine) : Array DeviceId := m.units.map (·.device)

end Machine

structure Sight (unit : Nat) (id : DeviceId) (m : Machine) (t : Absence) (c : Core) : Prop where
  device : m.devices[unit]? = some id
  single : ∀ i, m.devices[i]? = some id → i = unit
  lines : m.linesOf? unit = some c.lines
  seat : ∃ cpu, m.cpu? id = some cpu ∧ (t = none → c.cpu = cpu ∧ c.phase = .seated)
  away : ∀ cpu phase, t = some (cpu, phase) →
    c.cpu = cpu ∧ c.phase = phase ∧ m.busyAt id = some true

structure Unfelt (unit : Nat) (id : DeviceId) (a b : Machine) : Prop where
  devices : b.devices = a.devices
  lines : b.linesOf? unit = a.linesOf? unit
  cpu : b.cpu? id = a.cpu? id
  busy : b.busyAt id = a.busyAt id

namespace Machine
variable {a b m : Machine} {unit index : Nat} {f : Processor → Processor}

theorem devicesAt (m : Machine) (i : Nat) :
    m.devices[i]? = (m.units[i]?).map fun p => p.device := by
  rw [devices, Array.getElem?_map]

theorem modifyDevices (units : b.units = (a.modifyUnit index f).units)
    (device : ∀ p, (f p).device = p.device) : b.devices = a.devices := by
  rw [devices, devices, units]
  exact mapModify device a.units index

theorem modifyLines (units : b.units = (a.modifyUnit index f).units) (unit : Nat) :
    b.linesOf? unit =
      if index = unit then (a.units[unit]?).map fun p => (f p).lines else a.linesOf? unit := by
  unfold linesOf?
  rw [units, modifyUnit, Array.getElem?_modify]
  split
  · rw [Option.map_map]
    rfl
  · rfl

end Machine

namespace Unfelt
variable {unit : Nat} {id other : DeviceId} {a b c m m' : Machine}

theorem tree (tree : b.tree = a.tree) (units : b.units = a.units) : Unfelt unit id a b :=
  ⟨by rw [Machine.devices, Machine.devices, units], by rw [Machine.linesOf?, Machine.linesOf?, units],
    by rw [Machine.cpu?, Machine.cpu?, Machine.seat?, Machine.seat?, tree],
    by rw [Machine.busyAt, Machine.busyAt, tree]⟩

theorem refl (m : Machine) : Unfelt unit id m m := .tree rfl rfl

theorem trans (first : Unfelt unit id a b) (rest : Unfelt unit id b c) : Unfelt unit id a c :=
  ⟨rest.devices.trans first.devices, rest.lines.trans first.lines, rest.cpu.trans first.cpu,
    rest.busy.trans first.busy⟩

theorem modify {index : Nat} {f : Processor → Processor} (tree : b.tree = a.tree)
    (units : b.units = (a.modifyUnit index f).units) (device : ∀ p, (f p).device = p.device)
    (lines : index = unit → ∀ p, (f p).lines = p.lines) : Unfelt unit id a b := by
  have same : Unfelt unit id a { b with units := a.units } := .tree tree rfl
  refine ⟨Machine.modifyDevices units device, ?_, same.cpu, same.busy⟩
  rw [Machine.modifyLines units]
  split
  · rename_i here
    exact congrArg (Option.map · _) (funext (lines here))
  · rfl

theorem count (m : Machine) (f : Diag → Diag) : Unfelt unit id m (m.count f) := .tree rfl rfl

theorem trace (m : Machine) (event : TraceEvent) : Unfelt unit id m (m.trace event) :=
  .tree (Machine.traceSame m event).2.1 (Machine.traceUnits m event)

theorem yield (m : Machine) : Unfelt unit id m m.requestYield := by
  unfold Machine.requestYield
  split
  · exact .modify rfl rfl (fun _ => rfl) fun _ _ => rfl
  · exact .refl m

theorem cut (m : Machine) (timers : Timer.Queue) (time : Time) :
    Unfelt unit id m ({ m with timers }.cutBefore time) := by
  have popped : Unfelt unit id m { m with timers } := .tree rfl rfl
  unfold Machine.cutBefore
  split
  · split
    · exact popped.trans (.yield _)
    · exact popped
  · exact popped

theorem suspend {device : DeviceId} {reasons : Suspension}
    (ok : m.suspend device reasons = .ok m') : Unfelt unit id m m' := by
  obtain ⟨index, p, -, units⟩ := Machine.suspendUnits ok
  exact .modify (Machine.treeSteers.suspend ok) units (fun _ => rfl) fun _ _ => rfl

theorem resume {device : DeviceId} {reasons : Suspension}
    (ok : m.resume device reasons = .ok m') : Unfelt unit id m m' := by
  obtain ⟨index, p, -, ⟨-, rfl⟩ | ⟨-, units⟩⟩ := Machine.resumeUnits ok
  · exact .refl _
  · exact .modify (Machine.treeSteers.resume ok) units (fun p => p.liftDevice _ _)
      fun _ p => (p.liftLines _ _).1

theorem elsewhere {f : Seat → Seat} (apart : id ≠ other) :
    Unfelt unit id m { m with tree := m.tree.modify other f } := by
  have seat := Machine.seatModify m other f id
  rw [if_neg apart] at seat
  refine ⟨rfl, rfl, by rw [Machine.cpu?, Machine.cpu?, seat], ?_⟩
  rw [Machine.busyModify]
  unfold Machine.busyAt
  cases m.tree.get? id with
  | none => rfl
  | some node => simp [apart.symm]

theorem touch (h : Machine.Touch a b) : Unfelt unit id a b := by
  cases h with
  | unmapped kind address write => exact (Unfelt.count a _).trans (.trace _ _)
  | drive | countRead | countWrite | store => exact .tree rfl rfl

theorem settle (m : Machine) (index cycles consumed : Nat) (trap : Option Trap) (start : Time) :
    Unfelt unit id m (m.settle index cycles consumed trap start) :=
  .modify (Machine.settleSame m index cycles consumed trap start).2.1 (Machine.settleUnits ..)
    (fun _ => rfl) fun _ _ => rfl

end Unfelt

namespace Sight
variable {unit index : Nat} {id device : DeviceId} {m m' : Machine} {t : Absence} {c : Core}
  {p : Processor}

theorem calm (sight : Sight unit id m t c) (calm : Unfelt unit id m m') : Sight unit id m' t c :=
  ⟨by rw [calm.devices]; exact sight.device, by rw [calm.devices]; exact sight.single,
    by rw [calm.lines]; exact sight.lines, by rw [calm.cpu]; exact sight.seat,
    by rw [calm.busy]; exact sight.away⟩

theorem apart (sight : Sight unit id m t c) (found : m.units[index]? = some p) :
    p.device = id ↔ index = unit := by
  refine ⟨fun here => sight.single index ?_, fun here => ?_⟩
  · rw [Machine.devicesAt, found, Option.map_some, here]
  · subst here
    have own := sight.device
    rw [Machine.devicesAt, found] at own
    exact Option.some.inj own

theorem place (sight : Sight unit id m t c) (found : m.unit device = .ok (index, p)) :
    device = id ↔ index = unit := by
  rw [← Machine.unitFound found]
  exact sight.apart (Machine.unitInv found).2

theorem here (sight : Sight unit id m t c) (found : m.units[unit]? = some p) :
    p.lines = c.lines := by
  have own := sight.lines
  rw [Machine.linesOf?, found] at own
  exact Option.some.inj own

theorem idle {d : Device} (sight : Sight unit id m t c) (idle : m.idle id = .ok d) :
    t = none ∧ d = .acc8 c.cpu ∧ c.phase = .seated := by
  obtain ⟨cpu, found, still⟩ := sight.seat
  have seated : t = none := by
    cases t with
    | none => rfl
    | some row =>
      have busy := (sight.away row.1 row.2 rfl).2.2
      rw [Machine.busyIdle idle] at busy
      cases busy
  obtain ⟨rfl, phase⟩ := still seated
  exact ⟨seated, Machine.idleCpu idle found, phase⟩

theorem relined {f : Processor → Processor} (sight : Sight unit id m t c)
    (lines : InputLines (Nat → Script)) (tree : m'.tree = m.tree)
    (units : m'.units = (m.modifyUnit unit f).units) (device : ∀ p, (f p).device = p.device)
    (after : ∀ p, p.lines = c.lines → (f p).lines = lines) : Sight unit id m' t { c with lines } := by
  have same : Unfelt unit id m { m' with units := m.units } := .tree tree rfl
  have seen := sight.calm same
  have devices := Machine.modifyDevices units device
  refine ⟨by rw [devices]; exact sight.device, by rw [devices]; exact sight.single, ?_, seen.seat,
    seen.away⟩
  obtain ⟨p, found, -⟩ := Option.map_eq_some_iff.mp sight.lines
  rw [Machine.modifyLines units, if_pos rfl, found, Option.map_some, after p (sight.here found)]

theorem indexed (sight : Sight unit id m t c) : m.unitIndex? device = some unit ↔ device = id := by
  refine ⟨fun placed => ?_, ?_⟩
  · have here := Array.of_findIdx?_eq_some placed
    have own := sight.device
    rw [Machine.devicesAt] at own
    obtain ⟨p, found, rfl⟩ := Option.map_eq_some_iff.mp own
    rw [found] at here
    exact (eq_of_beq here).symm
  · rintro rfl
    have own := sight.device
    rw [Machine.devicesAt] at own
    obtain ⟨p, found, same⟩ := Option.map_eq_some_iff.mp own
    cases placed : m.unitIndex? device with
    | none =>
      have none := Array.findIdx?_eq_none_iff.mp placed p (Array.mem_of_getElem? found)
      simp [same] at none
    | some i =>
      have here := Array.of_findIdx?_eq_some placed
      cases row : m.units[i]? with
      | none => simp [row] at here
      | some q =>
        rw [row] at here
        rw [(sight.apart row).mp (eq_of_beq here)]

theorem placed (sight : Sight unit id m none c) (cpu : Acc8) :
    Sight unit id (m.withDevice id (.acc8 cpu)) none { c with cpu } := by
  obtain ⟨old, found, still⟩ := sight.seat
  obtain ⟨seat, row, -⟩ := Machine.cpuInv found
  have seated : (m.withDevice id (.acc8 cpu)).seat? id = some { seat with device := .acc8 cpu } := by
    rw [Machine.withDevice, Machine.seatModify, if_pos rfl, row]
    rfl
  exact ⟨sight.device, sight.single, sight.lines,
    ⟨cpu, Machine.cpuFound seated rfl, fun _ => ⟨rfl, (still rfl).2⟩⟩, fun _ _ h => by cases h⟩

theorem busied {other : DeviceId} {busy : Bool} (sight : Sight unit id m t c)
    (free : other = id → t = none ∨ busy = true) : Sight unit id (m.setBusy other busy) t c := by
  by_cases here : id = other
  · subst here
    have seat := Machine.seatModify m id (fun s => { s with busy }) id
    rw [if_pos rfl] at seat
    refine ⟨sight.device, sight.single, sight.lines, ?_, fun cpu phase gone => ?_⟩
    · obtain ⟨cpu, found, still⟩ := sight.seat
      obtain ⟨seat', row, device⟩ := Machine.cpuInv found
      refine ⟨cpu, ?_, still⟩
      rw [row] at seat
      exact Machine.cpuFound seat device
    · obtain ⟨cpu, phase, held⟩ := sight.away cpu phase gone
      refine ⟨cpu, phase, ?_⟩
      rcases free rfl with rfl | rfl
      · cases gone
      · rw [Machine.busySet, if_pos rfl, held]
        rfl
  · exact sight.calm (.elsewhere here)

theorem moved {cpu cpu' : Acc8} {phase phase' : Phase} (sight : Sight unit id m (some (cpu, phase)) c) :
    Sight unit id m (some (cpu', phase')) { c with cpu := cpu', phase := phase' } := by
  obtain ⟨old, found, -⟩ := sight.seat
  refine ⟨sight.device, sight.single, sight.lines, ⟨old, found, fun h => by cases h⟩,
    fun _ _ h => ?_⟩
  cases h
  exact ⟨rfl, rfl, (sight.away _ _ rfl).2.2⟩

end Sight

end Lockstep
