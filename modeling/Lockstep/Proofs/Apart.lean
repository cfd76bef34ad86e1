import Lockstep.Proofs.Cells
import Lockstep.Proofs.Kept

/-! Machines whose processors share nothing: each has memory of its own, no access calls a
device, and each timer performs one fixed action on one processor. What happens to one
processor then leaves every other as it was. -/
namespace Lockstep

def Action.command (unit : DeviceId) : Action → Command
  | .drive line state vector => .driveLine unit line state vector
  | .suspend reasons => .suspend unit reasons
  | .resume reasons => .resume unit reasons
  | .spin => .spinUntilInterrupt unit
  | .reset asserted => .driveReset unit asserted

inductive Performs : Option Command → Script → Prop where
  | done (reply : Reply) : Performs none (.done reply)
  | now {c : Option Command} {next : Reply → Script} :
      (∀ time, Performs c (next (.time time))) → Performs c (.step .now next)
  | note {c : Option Command} {entry : Activity} {next : Reply → Script} :
      Performs c (next .ok) → Performs c (.step (.note entry) next)
  | act {c : Command} {next : Reply → Script} :
      (∀ reply, Performs none (next reply)) → Performs (some c) (.step c next)

/-- The processor and the action of each timer, by the owner of the timer and its parameter. -/
abbrev Plan := DeviceId → Nat → Option (DeviceId × Action)

def Plan.command (plan : Plan) (owner : DeviceId) (param : Nat) : Option Command :=
  (plan owner param).map fun (unit, action) => action.command unit

def Plan.aimed (plan : Plan) (device owner : DeviceId) (param : Nat) : Option Action :=
  (plan owner param).bind fun (unit, action) => if unit = device then some action else none

def Timer.Queue.alarm? (slots : Array Timer.Slot) (aimed : DeviceId → Nat → Option Action)
    (key : Timer.Key) : Option Alarm := do
  let slot ← slots[key.slot]?
  return ⟨key.time, slot.period, ← aimed slot.owner slot.param⟩

def Timer.Queue.alarms (q : Timer.Queue) (aimed : DeviceId → Nat → Option Action) : List Alarm :=
  q.order.filterMap (alarm? q.slots aimed)

def Processor.fixed (p : Processor) : DeviceId × ClockRate × Option (Nat → Script) :=
  (p.device, p.clock, p.lines.source)

namespace Machine

def seat? (m : Machine) (id : DeviceId) : Option Seat := (m.tree.get? id).map (·.device)

def cpu? (m : Machine) (id : DeviceId) : Option Acc8 :=
  match (m.seat? id).map Seat.device with
  | some (.acc8 cpu) => some cpu
  | _ => none

def wiring? (m : Machine) (id : DeviceId) : Option Wiring := do
  return ⟨← (m.ownedSpace id .program).toOption, ← (m.ownedSpace id .io).toOption⟩

def alarms (m : Machine) (plan : Plan) (device : DeviceId) : List Alarm :=
  m.timers.alarms (plan.aimed device)

def soloOf (m : Machine) (plan : Plan) (p : Processor) (cpu : Acc8) (w : Wiring) : Solo where
  clock := p.clock
  cpu
  lines := p.lines
  suspension := p.suspension
  localTime := p.localTime
  totalCycles := p.totalCycles
  bytes := m.bytes w
  shares := m.shares w
  alarms := m.alarms plan p.device

def solo (m : Machine) (plan : Plan) (index : Nat) : Option Solo := do
  let p ← m.units[index]?
  return m.soloOf plan p (← m.cpu? p.device) (← m.wiring? p.device)

structure Plain (plan : Plan) (m : Machine) : Prop where
  unit : ∀ {i : Nat} {p : Processor}, m.units[i]? = some p → p.lines.source = none ∧
    (∃ cpu, m.cpu? p.device = some cpu) ∧ ∃ w, m.wiring? p.device = some w ∧ m.Wired w
  distinct : ∀ {i j : Nat} {p q : Processor}, m.units[i]? = some p → m.units[j]? = some q →
    p.device = q.device → i = j
  free : ∀ {id : DeviceId} {seat : Seat}, m.seat? id = some seat → seat.busy = false
  planned : ∀ {id : DeviceId} {seat : Seat} {p : Peripheral}, m.seat? id = some seat →
    seat.device = .peripheral p → ∀ (fired : Timer.Fired) (position : Option Nat),
      fired.owner = id → Performs (plan.command id fired.param) (p.timer fired position)
  only : ∀ {id : DeviceId} {param : Nat}, plan id param ≠ none →
    ∃ seat p, m.seat? id = some seat ∧ seat.device = .peripheral p
  apart : ∀ {i j : Nat} {p q : Processor} {v w : Wiring}, m.units[i]? = some p →
    m.units[j]? = some q → i ≠ j → m.wiring? p.device = some v → m.wiring? q.device = some w →
      ∀ {a b : Reach} {c : Cell} {writes : Bool}, m.cell? v a = some (c, writes) →
        m.cell? w b ≠ some (c, true)

structure Beside (index : Nat) (m m' : Machine) : Prop where
  timers : m'.timers = m.timers
  banks : m'.memory.banks = m.memory.banks
  layout : ∀ id, (m'.space? id).map (·.layout) = (m.space? id).map (·.layout)
  others : ∀ {i : Nat}, i ≠ index → m'.units[i]? = m.units[i]?
  fixed : (m'.units[index]?).map (·.fixed) = (m.units[index]?).map (·.fixed)
  seats : ∀ id, m'.seat? id = m.seat? id ∨ ∃ p seat cpu cpu', m.units[index]? = some p ∧
    p.device = id ∧ m.seat? id = some seat ∧ seat.device = .acc8 cpu ∧
      m'.seat? id = some { seat with device := .acc8 cpu' }
  bytes : ∀ c, m'.memory.byte? c = m.memory.byte? c ∨ ∃ p w a, m.units[index]? = some p ∧
    m.wiring? p.device = some w ∧ m.cell? w a = some (c, true)

variable {m m' a b c : Machine} {plan : Plan} {index : Nat}

theorem soloInv {s : Solo} (h : m.solo plan index = some s) : ∃ p cpu w,
    m.units[index]? = some p ∧ m.cpu? p.device = some cpu ∧ m.wiring? p.device = some w ∧
      s = m.soloOf plan p cpu w := by
  obtain ⟨p, found, h⟩ := Option.bind_eq_some_iff.mp h
  obtain ⟨cpu, seated, h⟩ := Option.bind_eq_some_iff.mp h
  obtain ⟨w, wired, h⟩ := Option.bind_eq_some_iff.mp h
  cases h
  exact ⟨p, cpu, w, found, seated, wired, rfl⟩

theorem soloSeen {p : Processor} {s : Solo} (found : m.units[index]? = some p)
    (alone : m.solo plan index = some s) : ∃ cpu w, m.cpu? p.device = some cpu ∧
      m.wiring? p.device = some w ∧ s = m.soloOf plan p cpu w := by
  obtain ⟨q, cpu, w, row, seated, wired, same⟩ := soloInv alone
  rw [found] at row
  cases row
  exact ⟨cpu, w, seated, wired, same⟩

theorem soloFound {p : Processor} {cpu : Acc8} {w : Wiring} (found : m.units[index]? = some p)
    (seated : m.cpu? p.device = some cpu) (wired : m.wiring? p.device = some w) :
    m.solo plan index = some (m.soloOf plan p cpu w) := by
  simp [solo, found, seated, wired]

theorem ownedSeat (m : Machine) (id : DeviceId) (kind : Bus.SpaceKind) :
    (m.ownedSpace id kind).toOption =
      ((m.seat? id).bind (·.spaces.lookup kind)).or
        (kind.fallback?.bind fun kind => (m.seat? id).bind (·.spaces.lookup kind)) := by
  have own : ∀ kind, (m.seat? id).bind (·.spaces.lookup kind) =
      (m.tree.get? id).bind fun node => node.device.spaces.lookup kind := by
    intro kind
    unfold seat?
    cases m.tree.get? id <;> rfl
  simp only [own]
  unfold ownedSpace
  dsimp only
  split
  · rename_i found
    rw [found]
    rfl
  · rename_i none
    rw [none]
    rfl

theorem wiringSame {id : DeviceId}
    (spaces : (m'.seat? id).map (·.spaces) = (m.seat? id).map (·.spaces)) :
    m'.wiring? id = m.wiring? id := by
  have same : ∀ kind, (m'.ownedSpace id kind).toOption = (m.ownedSpace id kind).toOption := by
    intro kind
    have lookups : ∀ kind, (m'.seat? id).bind (·.spaces.lookup kind) =
        (m.seat? id).bind (·.spaces.lookup kind) := by
      intro kind
      have mapped := congrArg (·.bind (·.lookup kind)) spaces
      simp only [Option.bind_map, Function.comp_def] at mapped
      exact mapped
    simp only [ownedSeat, lookups]
  unfold wiring?
  rw [same, same]

namespace Beside

theorem cells (h : Beside index m m') (w : Wiring) : m'.cell? w = m.cell? w :=
  cellSame h.banks h.layout

theorem wiring (h : Beside index m m') (id : DeviceId) : m'.wiring? id = m.wiring? id := by
  refine wiringSame ?_
  rcases h.seats id with same | ⟨p, seat, cpu, cpu', -, -, before, -, after⟩
  · rw [same]
  · rw [before, after]
    rfl

theorem back (h : Beside index m m') {i : Nat} {p' : Processor} (found : m'.units[i]? = some p') :
    ∃ p, m.units[i]? = some p ∧ p'.fixed = p.fixed := by
  by_cases here : i = index
  · subst here
    have fixed := h.fixed
    rw [found, Option.map_some] at fixed
    obtain ⟨p, row, same⟩ := Option.map_eq_some_iff.mp fixed.symm
    exact ⟨p, row, same.symm⟩
  · rw [h.others here] at found
    exact ⟨p', found, rfl⟩

theorem forth (h : Beside index m m') {p : Processor} (found : m.units[index]? = some p) :
    ∃ p', m'.units[index]? = some p' ∧ p'.fixed = p.fixed := by
  have fixed := h.fixed
  rw [found, Option.map_some] at fixed
  exact Option.map_eq_some_iff.mp fixed

theorem refl (index : Nat) (m : Machine) : Beside index m m :=
  ⟨rfl, rfl, fun _ => rfl, fun _ => rfl, rfl, fun _ => .inl rfl, fun _ => .inl rfl⟩

theorem trans (first : Beside index a b) (rest : Beside index b c) : Beside index a c := by
  refine ⟨rest.timers.trans first.timers, rest.banks.trans first.banks,
    fun id => (rest.layout id).trans (first.layout id),
    fun away => (rest.others away).trans (first.others away), rest.fixed.trans first.fixed,
    fun id => ?_, fun cell => ?_⟩
  · rcases rest.seats id with same | ⟨q, seat, cpu, cpu', found, here, before, kind, after⟩
    · rw [same]
      exact first.seats id
    · obtain ⟨p, row, fixed⟩ := first.back found
      have device := (Prod.mk.inj fixed.symm).1
      right
      rcases first.seats id with same | ⟨p', seat', cpu'', cpu''', found', -, before', kind', after'⟩
      · exact ⟨p, seat, cpu, cpu', row, device.trans here, same.symm.trans before, kind, after⟩
      · rw [before] at after'
        cases after'
        exact ⟨p, seat', cpu'', cpu', row, device.trans here, before', kind', after⟩
  · rcases rest.bytes cell with same | ⟨q, w, reach, found, wired, hit⟩
    · rw [same]
      exact first.bytes cell
    · obtain ⟨p, row, fixed⟩ := first.back found
      have device := (Prod.mk.inj fixed.symm).1
      rw [first.wiring, ← device] at wired
      rw [first.cells] at hit
      exact .inr ⟨p, w, reach, row, wired, hit⟩

theorem wired (h : Beside index m m') {w : Wiring} (wired : m.Wired w) : m'.Wired w :=
  ⟨leadsSame (h.layout _) wired.program, leadsSame (h.layout _) wired.io⟩

end Beside

theorem cpuInv {id : DeviceId} {cpu : Acc8} (h : m.cpu? id = some cpu) :
    ∃ seat, m.seat? id = some seat ∧ seat.device = .acc8 cpu := by
  unfold cpu? at h
  split at h
  · rename_i device
    cases h
    exact Option.map_eq_some_iff.mp device
  · cases h

theorem cpuFound {id : DeviceId} {seat : Seat} {cpu : Acc8} (found : m.seat? id = some seat)
    (device : seat.device = .acc8 cpu) : m.cpu? id = some cpu := by
  simp [cpu?, found, device]

theorem processorFixed {p q : Processor} (same : q.fixed = p.fixed) :
    q.device = p.device ∧ q.clock = p.clock ∧ q.lines.source = p.lines.source := by
  obtain ⟨device, rest⟩ := Prod.mk.inj same
  obtain ⟨clock, source⟩ := Prod.mk.inj rest
  exact ⟨device, clock, source⟩

theorem plainBeside (plain : Plain plan m) (h : Beside index m m') : Plain plan m' := by
  refine ⟨fun {i p'} found => ?_, fun {i j p' q'} found found' same => ?_, fun {id seat} found => ?_,
    fun {id seat p} found device => ?_, fun {id param} planned => ?_,
    fun {i j p' q' v w} found found' different wired wired' reach reach' cell writes hit => ?_⟩
  · obtain ⟨p, row, fixed⟩ := h.back found
    obtain ⟨device, -, source⟩ := processorFixed fixed
    obtain ⟨quiet, ⟨cpu, seated⟩, w, wired, leads⟩ := plain.unit row
    rw [device, h.wiring]
    refine ⟨source.trans quiet, ?_, w, wired, leadsSame (h.layout _) leads.program,
      leadsSame (h.layout _) leads.io⟩
    obtain ⟨seat, before, kind⟩ := cpuInv seated
    rcases h.seats p.device with same | ⟨_, other, _, cpu', -, -, before', -, after⟩
    · exact ⟨cpu, cpuFound (same.trans before) kind⟩
    · exact ⟨cpu', cpuFound after rfl⟩
  · obtain ⟨p, row, fixed⟩ := h.back found
    obtain ⟨q, row', fixed'⟩ := h.back found'
    obtain ⟨device, -, -⟩ := processorFixed fixed
    obtain ⟨device', -, -⟩ := processorFixed fixed'
    exact plain.distinct row row' (device.symm.trans (same.trans device'))
  · rcases h.seats id with same | ⟨_, other, _, _, -, -, before, -, after⟩
    · exact plain.free (same.symm.trans found)
    · rw [found] at after
      cases after
      have free := plain.free before
      exact free
  · rcases h.seats id with same | ⟨_, other, _, _, -, -, -, -, after⟩
    · exact plain.planned (same.symm.trans found) device
    · rw [found] at after
      cases after
      cases device
  · obtain ⟨seat, p, before, device⟩ := plain.only planned
    rcases h.seats id with same | ⟨_, other, _, _, -, -, before', device', -⟩
    · exact ⟨seat, p, same.trans before, device⟩
    · rw [before] at before'
      cases before'
      rw [device] at device'
      cases device'
  · obtain ⟨p, row, fixed⟩ := h.back found
    obtain ⟨q, row', fixed'⟩ := h.back found'
    obtain ⟨device, -, -⟩ := processorFixed fixed
    obtain ⟨device', -, -⟩ := processorFixed fixed'
    rw [h.wiring, device] at wired
    rw [h.wiring, device'] at wired'
    rw [h.cells] at hit ⊢
    exact plain.apart row row' different wired wired' hit

theorem soloBeside (plain : Plain plan m) (h : Beside index m m') {other : Nat} {s : Solo}
    (away : other ≠ index) (before : m.solo plan other = some s) : m'.solo plan other = some s := by
  obtain ⟨p, cpu, w, found, seated, wired, rfl⟩ := soloInv before
  have seat : m'.cpu? p.device = some cpu := by
    obtain ⟨seat, before, kind⟩ := cpuInv seated
    rcases h.seats p.device with same | ⟨q, _, _, _, row, device, -⟩
    · exact cpuFound (same.trans before) kind
    · exact absurd (plain.distinct found row device.symm) away
  have bytes : m'.bytes w = m.bytes w := by
    funext a
    unfold Machine.bytes
    rw [h.cells]
    cases hit : m.cell? w a with
    | none => rfl
    | some row =>
      obtain ⟨cell, writes⟩ := row
      rcases h.bytes cell with same | ⟨q, v, b, row, wired', hit'⟩
      · exact same
      · exact absurd hit' (plain.apart found row away wired wired' hit)
  have same : m'.soloOf plan p cpu w = m.soloOf plan p cpu w := by
    unfold soloOf alarms
    rw [bytes, sharesSame (h.cells w), h.timers]
  rw [soloFound ((h.others away).trans found) seat ((h.wiring _).trans wired), same]

end Machine

end Lockstep
