import Lockstep.Proofs.Turns

/-! Whole slices and whole timers of a plain machine. A slice is some number of ticks of its
processor; a timer is the action it performs; and neither shows anywhere else. -/
namespace Lockstep

theorem Suspension.unionTrapped {s : Suspension} (trapped : s.trapped = true) :
    s.union { trapped := true } = s := by
  obtain ⟨a, b, c, d, e, f⟩ := s
  simp_all [Suspension.union, Suspension.zip]

namespace Machine
variable {m m' : Machine} {plan : Plan} {index : Nat} {id : DeviceId} {p : Processor}

theorem notedUnit (h : Noted m m') (index : Nat) (f : Processor → Processor) :
    Noted (m.modifyUnit index f) (m'.modifyUnit index f) := by
  obtain ⟨diag, journal, rfl⟩ := h
  exact ⟨diag, journal, rfl⟩

theorem settleInv (found : m.units[index]? = some p) (cycles consumed : Nat) (trap : Option Trap)
    (start : Time) : ∃ f : Processor → Processor,
      Noted (m.modifyUnit index f) (m.settle index cycles consumed trap start) ∧
      (∀ q, (f q).fixed = q.fixed) ∧
      f p = { p with
        localTime := start + p.period.scale (if consumed = 0 then cycles else consumed)
        totalCycles := Word.add p.totalCycles consumed
        yieldRequested := false
        suspension :=
          if trap.isSome then p.suspension.union { trapped := true } else p.suspension } := by
  have yielded : ∀ s : Machine, Noted s (if p.yieldRequested then s.count (·.yielded) else s) := by
    intro s
    split
    · exact notedCount s _
    · exact ⟨s.diag, s.journal, rfl⟩
  have booked := notedTrans (notedTrans (notedCount (m.modifyUnit index fun q => { q with
    localTime := start + p.period.scale (if consumed = 0 then cycles else consumed)
    totalCycles := Word.add q.totalCycles consumed
    yieldRequested := false }) (·.slice cycles consumed)) (yielded _)) (notedTrace _ (.sliceEnd
      p.device (start + p.period.scale (if consumed = 0 then cycles else consumed)) consumed))
  unfold settle
  rw [found]
  cases trap with
  | none => exact ⟨_, booked, fun _ => rfl, rfl⟩
  | some cause =>
    dsimp only
    cases trapped : p.suspension.trapped with
    | true =>
      refine ⟨_, booked, fun _ => rfl, ?_⟩
      simp [Suspension.unionTrapped trapped]
    | false =>
      have marked := notedTrans (notedTrans (notedUnit booked index fun q => { q with
        suspension := q.suspension.union { trapped := true } }) (notedCount _ (·.trap)))
        (notedTrace _ (.unitTrapped p.device cause
          (start + p.period.scale (if consumed = 0 then cycles else consumed))))
      rw [modifyUnitTwice] at marked
      exact ⟨_, marked, fun _ => rfl, rfl⟩

theorem seatModify (m : Machine) (id : DeviceId) (f : Seat → Seat) (other : DeviceId) :
    ({ m with tree := m.tree.modify id f } : Machine).seat? other =
      if other = id then (m.seat? other).map f else m.seat? other := by
  obtain ⟨i⟩ := other
  obtain ⟨j⟩ := id
  simp only [seat?, Tree.get?, Tree.modify, Array.getElem?_modify, DeviceId.mk.injEq]
  by_cases same : j = i
  · subst same
    cases m.tree.nodes[j]? <;> simp
  · simp [same, Ne.symm same]

theorem busySeen {α : Type} {view : Seat → α} {busy : Bool}
    (blind : ∀ seat, view { seat with busy } = view seat) (m : Machine) (id other : DeviceId) :
    ((m.setBusy id busy).seat? other).map view = (m.seat? other).map view := by
  rw [setBusy, seatModify]
  split
  · rw [Option.map_map]
    exact congrArg (Option.map · _) (funext blind)
  · rfl

theorem idleSeat {seat : Seat} (found : m.seat? id = some seat) (free : seat.busy = false) :
    m.idle id = .ok seat.device := by
  obtain ⟨node, row, rfl⟩ := Option.map_eq_some_iff.mp found
  unfold Machine.idle
  rw [row]
  simp [free]

theorem busyWiring (m : Machine) (id : DeviceId) (busy : Bool) (other : DeviceId) :
    (m.setBusy id busy).wiring? other = m.wiring? other := by
  exact wiringSame (busySeen (fun _ => rfl) m id other)

theorem besideDevice {seat : Seat} {cpu : Acc8} (found : m.units[index]? = some p)
    (seated : m.seat? p.device = some seat) (kind : seat.device = .acc8 cpu) (cpu' : Acc8) :
    Beside index m (m.withDevice p.device (.acc8 cpu')) := by
  refine ⟨rfl, rfl, fun _ => rfl, fun _ => rfl, rfl, fun id => ?_, fun _ => .inl rfl⟩
  rw [Machine.withDevice, seatModify]
  by_cases here : id = p.device
  · subst here
    rw [if_pos rfl, seated]
    exact .inr ⟨p, seat, cpu, cpu', found, rfl, rfl, kind, rfl⟩
  · rw [if_neg here]
    exact .inl rfl

theorem besideBusy (free : ∀ {seat}, m.seat? id = some seat → seat.busy = false)
    (h : Beside index (m.setBusy id true) m') : Beside index m (m'.setBusy id false) := by
  have seat := fun other => seatModify m id (fun s => { s with busy := true }) other
  have seat' := fun other => seatModify m' id (fun s => { s with busy := false }) other
  refine ⟨h.timers, h.banks, h.layout, h.others, h.fixed, fun other => ?_, fun c => ?_⟩
  · have seats := h.seats other
    rw [Machine.setBusy, seat] at seats
    rw [Machine.setBusy, seat']
    by_cases here : other = id
    · subst here
      rw [if_pos rfl] at seats ⊢
      cases before : m.seat? other with
      | none =>
        rw [before] at seats
        rcases seats with same | ⟨_, _, _, _, -, -, found, -, -⟩
        · rw [same]
          exact .inl rfl
        · cases found
      | some seat =>
        have idle := free before
        obtain ⟨device, busy, spaces⟩ := seat
        cases idle
        rw [before] at seats
        rcases seats with same | ⟨p, seat, cpu, cpu', found, owned, taken, kind, after⟩
        · rw [same]
          exact .inl rfl
        · cases taken
          exact .inr ⟨p, _, cpu, cpu', found, owned, rfl, kind, by rw [after]; rfl⟩
    · rw [if_neg here] at seats ⊢
      exact seats
  · rcases h.bytes c with same | ⟨p, w, a, found, wired, hit⟩
    · exact .inl same
    · exact .inr ⟨p, w, a, found, (busyWiring m id true _).symm.trans wired, hit⟩

theorem wiringInv {w : Wiring} (h : m.wiring? id = some w) :
    m.ownedSpace id .program = .ok w.program ∧ m.ownedSpace id .io = .ok w.io := by
  have ok : ∀ {x : Except ConfigError SpaceId} {space : SpaceId}, x.toOption = some space →
      x = .ok space := by
    intro x space h
    cases x with
    | error e => cases h
    | ok a =>
      cases h
      rfl
  obtain ⟨program, found, h⟩ := Option.bind_eq_some_iff.mp h
  obtain ⟨io, found', h⟩ := Option.bind_eq_some_iff.mp h
  cases h
  exact ⟨ok found, ok found'⟩

theorem soloOfSame {a b : Machine} (timers : b.timers = a.timers) (memory : b.memory = a.memory)
    (spaces : b.spaces = a.spaces) (p : Processor) (cpu : Acc8) (w : Wiring) :
    b.soloOf plan p cpu w = a.soloOf plan p cpu w := by
  have same : ({ a with timers := b.timers, memory := b.memory, spaces := b.spaces } :
      Machine).soloOf plan p cpu w = a.soloOf plan p cpu w := by
    rw [timers, memory, spaces]
  exact same

theorem soloNoted (h : Noted m m') : m'.solo plan index = m.solo plan index := by
  obtain ⟨diag, journal, rfl⟩ := h
  rfl

theorem settleSolo {cpu : Acc8} {w : Wiring} (found : m.units[index]? = some p)
    (seated : m.cpu? p.device = some cpu) (wired : m.wiring? p.device = some w)
    (cycles : Nat) {consumed : Nat} (some_ : consumed ≠ 0) :
    (m.settle index cycles consumed cpu.runState.trap? p.localTime).solo plan index =
      some ((m.soloOf plan p cpu w).spend consumed).settle := by
  obtain ⟨f, noted, -, booked⟩ :=
    settleInv found cycles consumed cpu.runState.trap? p.localTime
  have row := unitModified found f
  rw [booked, if_neg some_] at row
  refine ((soloNoted noted).trans (soloFound row seated wired)).trans (congrArg some ?_)
  unfold Solo.settle
  change _ = if cpu.runState.isTrapped then _ else _
  have cause : cpu.runState.trap?.isSome = cpu.runState.isTrapped := rfl
  rw [cause]
  split <;> rfl

end Machine

namespace Grant
open Machine (Beside Plain budgetLimit)

def Regular (g : Grant) : Prop :=
  g.cycles ≤ budgetLimit ∧
    ∀ cpu, g.machine.cpu? g.processor.device = some cpu → cpu.runState.isTrapped = false

variable {g : Grant} {plan : Plan} {m' : Machine} {call : Callback}

theorem openedSame (g : Grant) : Beside g.unit g.machine g.opened ∧
    g.opened.frame = some g.frame ∧ g.opened.memory = g.machine.memory ∧
      g.opened.spaces = g.machine.spaces ∧ g.opened.tree = g.machine.tree ∧
      g.opened.units[g.unit]? = some { g.processor with yieldRequested := false } := by
  have framed : Beside g.unit g.machine { g.machine with
      frame := some g.frame, budget := (min g.cycles budgetLimit : Nat) } :=
    Machine.besideSame rfl rfl rfl rfl rfl
  have entered : Beside g.unit g.machine g.entered :=
    framed.trans (Machine.besideUnit (f := fun p => { p with yieldRequested := false })
      fun _ _ => rfl)
  have found : g.entered.units[g.unit]? = some { g.processor with yieldRequested := false } :=
    Machine.unitModified (m := { g.machine with
      frame := some g.frame, budget := (min g.cycles budgetLimit : Nat) }) g.found _
  obtain ⟨diag, journal, same⟩ :=
    Machine.notedTrace g.entered (.sliceStart g.processor.device g.start g.cycles)
  have opened : g.opened = { g.entered with diag, journal } := same
  rw [opened]
  exact ⟨entered.trans (Machine.besideNoted ⟨diag, journal, rfl⟩), rfl, rfl, rfl, rfl, found⟩

theorem openedWiring (g : Grant) : (g.opened.setBusy g.processor.device true).wiring? g.processor.device =
    g.machine.wiring? g.processor.device :=
  (Machine.busyWiring ..).trans (g.openedSame.1.wiring _)

theorem grantedLived (plain : Plain plan g.machine) (live : g.processor.isLive = true) {u : Unit}
    (h : (Machine.watchGranted call g).result g.machine = some (u, m')) :
    Beside g.unit g.machine m' ∧ m'.frame = none ∧ (g.Regular → ∀ s,
      g.machine.solo plan g.unit = some s → ∃ s', m'.solo plan g.unit = some s' ∧
        Relation.ReflTransGen (Solo.Ticks g.latest) s s') := by
  obtain ⟨quiet, ⟨cpu, seated⟩, w, wiring, wired⟩ := plain.unit g.found
  obtain ⟨seat, seatFound, kind⟩ := Machine.cpuInv seated
  obtain ⟨opened, frame, memory, spaces, tree, found⟩ := g.openedSame
  have seatOpened : g.opened.seat? g.processor.device = some seat := by
    rw [Machine.seat?, tree]
    exact seatFound
  have free := plain.free seatFound
  rw [Machine.grantedSlice] at h
  obtain ⟨outcome, m₁, granted, rfl⟩ := Machine.sliceInv h
  have idle := Machine.idleSeat seatOpened free
  rw [kind] at idle
  obtain ⟨out, m₂, ran, placed⟩ := Machine.grantPlaced idle granted
  -- the processor runs in the machine in which its device is in use
  have wiringBusy := g.openedWiring.trans wiring
  have wiredBusy : (g.opened.setBusy g.processor.device true).Wired w :=
    ⟨Machine.leadsSame (opened.layout _) wired.program,
      Machine.leadsSame (opened.layout _) wired.io⟩
  obtain ⟨program, io⟩ := Machine.wiringInv wiringBusy
  unfold Machine.runDevice at ran
  dsimp only at ran
  rw [Run.getBind, program, io] at ran
  obtain ⟨⟨cpu', count⟩, m₃, runs, same⟩ := Run.bindInv ran
  cases same
  obtain ⟨-, same, -⟩ | ⟨_, _, rfl, same, rfl⟩ := placed
  · cases same
  cases same
  obtain ⟨beside, lived⟩ := acc8Runs plan live wiredBusy wiringBusy quiet frame
    g.openedBudget found runs
  have freed := Machine.besideBusy (m := g.opened) (fun found => by
    rw [seatOpened] at found
    cases found
    exact free) beside
  have plain₁ := Machine.plainBeside (Machine.plainBeside plain opened) freed
  obtain ⟨p₁, found₁, fixed₁⟩ := freed.forth found
  have device : p₁.device = g.processor.device := (Machine.processorFixed fixed₁).1
  obtain ⟨-, ⟨cpu₁, seated₁⟩, -⟩ := plain₁.unit found₁
  obtain ⟨seat₁, seatFound₁, kind₁⟩ := Machine.cpuInv seated₁
  have placed := Machine.besideDevice found₁ seatFound₁ kind₁ cpu'
  rw [device] at placed seatFound₁
  have paused : Beside g.unit g.machine { (m₂.setBusy g.processor.device false).withDevice
      g.processor.device (.acc8 cpu') with frame := none } :=
    ((opened.trans freed).trans placed).trans (Machine.besideSame rfl rfl rfl rfl rfl)
  obtain ⟨f, noted, fixed, booked⟩ := Machine.settleInv (m := { (m₂.setBusy g.processor.device
    false).withDevice g.processor.device (.acc8 cpu') with frame := none }) found₁ g.cycles count
    ((Device.acc8 cpu').runState?.bind (·.trap?)) g.start
  have settled := (paused.trans (Machine.besideUnit fun q _ => fixed q)).trans
    (Machine.besideNoted noted)
  refine ⟨settled, ?_, fun regular s alone => ?_⟩
  · obtain ⟨diag, journal, same⟩ := noted
    exact (congrArg Machine.frame same).trans rfl
  · obtain ⟨cpu₀, w₀, seated₀, wiring₀, rfl⟩ := Machine.soloSeen g.found alone
    rw [seated] at seated₀
    cases seated₀
    rw [wiring] at wiring₀
    cases wiring₀
    obtain ⟨some_, s', ticks, run⟩ := lived (regular.2 cpu seated) regular.1
    obtain ⟨lines, published, -, found₂, rfl⟩ := run.seated
    cases found₁.symm.trans found₂
    have seat₂ := Machine.seatModify (m₂.setBusy g.processor.device false) g.processor.device
      (fun s => { s with device := .acc8 cpu' }) g.processor.device
    rw [if_pos rfl, seatFound₁] at seat₂
    rw [Machine.soloOfSame (b := g.opened.setBusy g.processor.device true) (a := g.machine)
      opened.timers memory spaces] at ticks
    refine ⟨_, ?_, ticks⟩
    exact Machine.settleSolo (m := { (m₂.setBusy g.processor.device
      false).withDevice g.processor.device (.acc8 cpu') with frame := none }) found₁
      (Machine.cpuFound seat₂ rfl) ((paused.wiring _).trans wiring) g.cycles some_

end Grant

end Lockstep
