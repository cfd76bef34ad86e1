import Lockstep.Proofs.Cabling
import Lockstep.Proofs.Conservation
import Lockstep.Proofs.Doings
import Lockstep.Proofs.Standing
import Lockstep.Proofs.Stops

/-! Processors that wait and processors in traps. One that waits asks for nothing until it accepts an
interrupt. One in a trap does nothing in its slices, whatever the host and callbacks do, until it is
reset; each slice marks it as trapped again, or disables it where its device is in use. -/
namespace Lockstep

/-- The log of a slice in which nothing is asked for while the processor waits, unless it has accepted
an interrupt, and in which a trap is the end. -/
inductive Guarded : (waiting : Bool) → List Doing → Prop where
  | done {waiting} : Guarded waiting []
  | boundary {waiting cpu m rest} (after : Guarded (decide (cpu.runState = .waiting)) rest) :
      Guarded waiting (.boundary cpu m :: rest)
  | accepts {waiting line m rest} (after : Guarded false rest) :
      Guarded waiting (.accepts line m :: rest)
  | asks {request m rest} (after : Guarded false rest) : Guarded false (.asks request m :: rest)
  | does {waiting work cpu rest} (ends : cpu.runState.isTrapped = true → rest = [])
      (after : Guarded (decide (cpu.runState = .waiting)) rest) :
      Guarded waiting (.does work cpu :: rest)

theorem Guarded.asked {log rest : List Doing}
    (asks : ∀ d ∈ log, ∃ request m, d = .asks request m ∧ True) (after : Guarded false rest) :
    Guarded false (log ++ rest) := by
  induction log with
  | nil => exact after
  | cons d log ih =>
    rw [List.forall_mem_cons] at asks
    obtain ⟨⟨request, m, rfl, -⟩, rest⟩ := asks
    exact .asks (ih rest)

theorem Acc8.Port.asksRelated (port : Port Run) :
    Port.Related (fun _ w (_ : Run _) => w.Asks fun _ => True) port.announced port :=
  announcedAsks fun _ _ _ _ _ _ => trivial

namespace Machine
open Watch (of)
variable {call : Callback} {unit : Nat} {port : Acc8.Port Run} {cpu : Acc8}

theorem turnGuarded (cpu : Acc8) (m : Machine) :
    ((Recorder.doings call).turn unit port.announced cpu).Ensures m fun log r => ∀ waiting rest,
      (∀ waiting, Guarded waiting rest) →
      ((∀ cpu' m', r ≠ some ((cpu', true), m')) → rest = []) → Guarded waiting (log ++ rest) := by
  have last : ∀ (work : Acc8.Work) (cpu : Acc8) (m : Machine) (waiting : Bool) (rest : List Doing),
      (∀ waiting, Guarded waiting rest) →
      ((∀ cpu' m', some ((cpu, !cpu.runState.isTrapped), m) ≠ some ((cpu', true), m')) → rest = []) →
      Guarded waiting (.does work cpu :: rest) := by
    intro work cpu m waiting rest after ends
    refine .does (fun trapped => ends fun cpu' m' same => ?_) (after _)
    simp [trapped] at same
  -- the latch may move at a boundary, the run state does not
  have state : ∀ {m₁ cpu' taken}, Recorder.Boundary unit cpu m m₁ cpu' taken →
      cpu'.runState = cpu.runState := fun {m₁ _ _} boundary => by
    have same := Acc8.pendingSame cpu (m₁.lineActive unit Acc8.nmiLine) (m₁.lineActive unit Acc8.irqLine)
    rw [boundary.pending] at same
    exact (congrArg Acc8.runState same :)
  refine Recorder.turnEnsures (fun _ waiting rest after _ => after waiting)
    (fun m₁ cpu' boundary _ waiting rest _ ends => ?_) (fun m₁ cpu' boundary awake => ?_)
    fun m₁ cpu' line boundary => ⟨fun _ waiting rest after _ => .boundary (.accepts (after _)),
      fun vector m₂ _ => ?_⟩
  · rw [ends fun _ _ same => by cases same]
    exact .boundary (.does (fun _ => rfl) .done)
  · rw [state boundary] at awake
    have asks := (Acc8.stepWorkRelated (Acc8.Port.asksRelated port) cpu' m₁ trivial).1
    refine ⟨fun _ waiting rest after ends => ?_, fun cpu₂ work m₂ _ waiting rest after ends => ?_⟩
    · rw [ends fun _ _ same => by cases same]
      exact .boundary (by rw [decide_eq_false awake]; exact .asked asks .done)
    · have asked := Guarded.asked asks (last work cpu₂ _ false rest after ends)
      refine .boundary ?_
      rw [decide_eq_false awake]
      simpa [Moment.doings] using asked
  · have asks := (Acc8.enterRelated (Acc8.Port.asksRelated port) (vector.getD line) cpu' m₂ trivial).1
    refine ⟨fun _ waiting rest after ends => ?_, fun cpu₂ m₃ _ waiting rest after ends => ?_⟩
    · exact .boundary (.accepts (.asked asks (after _)))
    · have asked := Guarded.asked asks (last .entry cpu₂ _ false rest after ends)
      refine .boundary (.accepts ?_)
      simpa [Moment.doings] using asked

theorem loopGuarded (bound : Nat) (cpu : Acc8) (m : Machine) (waiting : Bool) :
    Guarded waiting ((Recorder.doings call).loop unit port.announced bound cpu m).1 := by
  induction bound generalizing cpu m waiting with
  | zero => exact .done
  | succ bound ih =>
    change ((Recorder.doings call).turn unit port.announced cpu >>= _).Ensures m fun log _ =>
      Guarded waiting log
    refine Watch.ensuresThen (turnGuarded cpu m) (fun log turn => ?_) fun log row m' turn => ?_
    · rw [← log.append_nil]
      exact turn waiting [] (fun _ => .done) fun _ => rfl
    · obtain ⟨cpu', on⟩ := row
      cases on with
      | false => exact turn waiting [] (fun _ => .done) fun _ => rfl
      | true => exact turn waiting _ (ih cpu' m') fun goes => absurd rfl (goes cpu' m')

theorem acc8Guarded (cycles : Nat) (placed : cpu.runState = .waiting → cpu.fetchResetVector = false)
    (m : Machine) :
    Guarded (decide (cpu.runState = .waiting))
      ((Recorder.doings call).acc8 unit cycles port.announced cpu m).1 := by
  refine Recorder.acc8Ensures .done (fun cpu' => loopGuarded ..) fun fetches => ?_
  have awake : cpu.runState ≠ .waiting := fun waits => by
    rw [placed waits] at fetches
    cases fetches
  have asks := (Acc8.readWordRelated (Acc8.Port.asksRelated port) Acc8.resetVector
    (m.modifyUnit unit (·.publish cpu.get?)) trivial).1
  rw [decide_eq_false awake]
  refine ⟨fun _ => ?_, fun pc m' _ cpu' => .asked asks (loopGuarded ..)⟩
  simpa using Guarded.asked asks .done

end Machine

namespace Machine
variable {a b c m m' : Machine} {call : Callback}

def worked (m : Machine) : Array Nat := m.units.map (·.totalCycles)

theorem workedAt (m : Machine) (i : Nat) : m.worked[i]? = (m.units[i]?).map (·.totalCycles) := by
  rw [worked, Array.getElem?_map]

def Unpaid (a b : Machine) : Prop := b.worked = a.worked

theorem unpaidUnits {index : Nat} {f : Processor → Processor}
    (units : b.units = (a.modifyUnit index f).units)
    (same : ∀ p, (f p).totalCycles = p.totalCycles) : Unpaid a b := by
  rw [Unpaid, worked, worked, units]
  exact mapModify same a.units index

theorem unpaidSame (units : b.units = a.units) : Unpaid a b := by rw [Unpaid, worked, worked, units]

theorem unpaidTrans (first : Unpaid a b) (rest : Unpaid b c) : Unpaid a c := Eq.trans rest first

theorem unpaidKept (kept : Kept a b) : Unpaid a b := by
  refine mapEach kept.size fun found => ?_
  obtain ⟨p', row, moved⟩ := kept.each found
  exact ⟨p', row, moved.cycles⟩

theorem unpaidPlays : Plays fun _ => Run.Follows Unpaid :=
  playsFollows (fun _ => rfl) unpaidTrans
    (fun touch => by
      cases touch with
      | unmapped => exact unpaidSame (traceUnits ..)
      | drive | countRead | countWrite | store => exact rfl)
    fun pulse => by
      cases pulse with
      | enter | count | charge => exact rfl
      | publish | accept => exact unpaidUnits rfl fun _ => rfl

section
variable (calls : ∀ s m, Acts (call s) m)
include calls

theorem grantUnpaid (unit cycles : Nat) (id : DeviceId) (m : Machine) :
    Run.Keeps Unpaid (grant call unit cycles id) m := by
  have follows : ∀ s m, Run.Follows Unpaid (call s) (call s) m := fun s m =>
    Run.followsSame fun r m' ran => unpaidKept (effectKept (calls s m r m' ran))
  intro outcome m' ran
  rcases grantInv ran with ⟨-, rfl⟩ | ⟨device, out, m₁, -, runs, placed⟩
  · exact rfl
  have inner := (unpaidPlays.runDevice follows unit cycles id device _ out m₁ runs).2
  rcases placed with ⟨-, -, rfl⟩ | ⟨device', count, -, -, rfl⟩ <;> exact inner

theorem sliceWorked {g : Grant} {u : Unit}
    (ran : runSlice call g.unit g.target g.machine = some (u, m')) :
    ∃ f : Nat → Nat, m'.worked = g.machine.worked.modify g.unit f ∧ ∀ n, f n = n ∨ f n ≤ Word.largest := by
  obtain ⟨outcome, m₁, granted, rfl⟩ := sliceInv ran
  have opened : Unpaid g.machine g.opened := unpaidUnits (traceUnits ..) fun _ => rfl
  have before : m₁.worked = g.machine.worked :=
    unpaidTrans opened (grantUnpaid calls _ _ _ _ outcome m₁ granted)
  cases outcome with
  | none =>
    refine ⟨fun n => n, ?_, fun _ => .inl rfl⟩
    rw [← before]
    refine Eq.trans (unpaidUnits (a := m₁) rfl fun _ => rfl) (Array.ext_getElem? fun i => ?_)
    simp [Array.getElem?_modify]
  | some row =>
    refine ⟨(Word.add · row.1), ?_, fun n => .inr (Word.clamp_le _)⟩
    rw [← before, Grant.concluded, worked, settleUnits]
    refine Array.ext_getElem? fun i => ?_
    simp only [modifyUnit, worked, Array.getElem?_map, Array.getElem?_modify]
    split
    · cases m₁.units[i]? <;> rfl
    · rfl

end

end Machine

theorem chronicleBooks {P : Machine → Prop} {origin m : Machine} {marks : List Mark}
    (chronicle : Chronicle origin marks m) (begins : P origin)
    (kept : ∀ {a b : Machine}, Machine.Unpaid a b → P a → P b)
    (slice : ∀ {early m₁ depth} {g : Grant} {m₂}, Chronicle origin early m₁ → early <+: marks →
      (∃ timers, g.machine = { m₁ with timers }) →
      Machine.runSlice (Machine.invoke depth) g.unit g.target g.machine = some (⟨⟩, m₂) →
      P g.machine → P m₂) : P m := by
  refine chronicleKeeps chronicle begins fun {_ m₁ m₂} before part errand holds => ?_
  have calls := Machine.invokeActs
  cases errand with
  | start depth ran => exact kept (Machine.unpaidKept (Machine.startKept (calls depth) ran)) holds
  | script depth ran =>
    exact kept (Machine.unpaidKept (Machine.effectKept (calls depth _ m₁ _ m₂ ran))) holds
  | reset depth ran => exact kept (Machine.unpaidKept (Machine.resetKept (calls depth) ran)) holds
  | sink name same => exact kept (same ▸ Machine.unpaidSame rfl) holds
  | @pass depth target on ran =>
    have moved : ∀ timers, P { m₁ with timers } := fun timers =>
      kept (a := m₁) (Machine.unpaidSame rfl) holds
    cases Machine.passInv ran with
    | fires _ dispatched =>
      have acts := Machine.dispatchActs (calls depth) _ _ _ _ dispatched
      exact kept (Machine.unpaidKept (Machine.effectKept acts)) (moved _)
    | rests => exact moved _
    | slices next sliced => exact slice (g := next.grant) before part ⟨_, rfl⟩ sliced (moved _)

theorem chronicleShort {a : Assembly} {marks : List Mark} {m : Machine} (assembled : Assembled a)
    (chronicle : Chronicle a.machine marks m) {i n : Nat} (here : m.worked[i]? = some n) :
    n ≤ Word.largest := by
  refine chronicleBooks (P := fun m => ∀ i n, m.worked[i]? = some n → n ≤ Word.largest) chronicle
    (fun i n here => ?_) (fun same short i n here => short i n (by rw [← same]; exact here))
    (fun {_ _ depth _ _} _ _ _ ran short i n here => ?_) i n here
  · rw [Machine.workedAt] at here
    obtain ⟨p, found, rfl⟩ := Option.map_eq_some_iff.mp here
    rw [Machine.assembledUnworked assembled i p found]
    exact Nat.zero_le _
  · obtain ⟨f, booked, bound⟩ := Machine.sliceWorked (Machine.invokeActs depth) ran
    rw [booked, Array.getElem?_modify] at here
    split at here
    · obtain ⟨k, row, rfl⟩ := Option.map_eq_some_iff.mp here
      rcases bound k with same | small
      · rw [same]
        exact short _ _ row
      · exact small
    · exact short i n here

structure Grant.Fruitless (g : Grant) (m' : Machine) : Prop where
  memory : m'.memory = g.machine.memory
  spaces : m'.spaces = g.machine.spaces
  others : ∀ i, i ≠ g.unit → m'.units[i]? = g.machine.units[i]?
  row : ∃ p', m'.units[g.unit]? = some p' ∧ p'.totalCycles = g.processor.totalCycles ∧
    (g.machine.busyAt g.processor.device = some false → p'.suspension.trapped = true) ∧
    (g.machine.busyAt g.processor.device = some true → p'.suspension.disabled = true)

section
open Machine
variable {call : Callback} {cpu : Acc8} {w : Wiring} {cause : Trap} {m : Machine} {id : DeviceId}

theorem trappedSlice {g : Grant} (seat : g.machine.cpu? g.processor.device = some cpu)
    (trapped : cpu.runState = .trapped cause) (wired : g.machine.wiring? g.processor.device = some w)
    (short : g.processor.totalCycles ≤ Word.largest) :
    g.doings call = [] ∧ ∃ m', runSlice call g.unit g.target g.machine = some (⟨⟩, m') ∧
      g.Fruitless m' := by
  have other : ∀ s, g.machine.idle g.processor.device ≠ .ok (.sequencer s) := fun s idle => by
    cases idleCpu idle seat
  have unseated : ∀ cpu' w', ¬ g.Seated cpu' w' := by
    intro cpu' w' seated
    cases idleCpu seated.idle seat
    have sane := seated.sane
    rw [trapped] at sane
    cases sane
  have free : g.machine.busyAt g.processor.device = some false → g.runs = true := by
    intro free
    obtain ⟨device, idle⟩ := idleOf free
    obtain rfl := idleCpu idle seat
    simp [Grant.runs, idle, wired]
  have busy : g.machine.busyAt g.processor.device = some true → g.runs = false := by
    intro busy
    unfold Grant.runs
    cases idle : g.machine.idle g.processor.device with
    | error e => rfl
    | ok device =>
      rw [busyIdle idle] at busy
      cases busy
  refine ⟨g.unseatedLog _ other unseated, ?_⟩
  obtain ⟨outcome, m, ends, barren⟩ := g.unseatedSlice call other unseated
  obtain ⟨opened, -, memory, spaces, -, found⟩ := g.openedSame
  rw [← barren.units] at found
  have others : ∀ (f : Processor → Processor) i, i ≠ g.unit →
      (m.units.modify g.unit f)[i]? = g.machine.units[i]? := fun f i away => by
    rw [Array.getElem?_modify, if_neg away.symm, barren.units]
    exact opened.others away
  refine ⟨_, ends, ?_⟩
  rcases barren.refused with ⟨rfl, still⟩ | ⟨cause, rfl, runs⟩
  · refine ⟨barren.memory.trans memory, barren.spaces.trans spaces, fun i => others _ i,
      _, unitModified (m := { m with frame := none }) found _, rfl, fun unused => ?_, fun _ => ?_⟩
    · rw [free unused] at still
      cases still
    · simp [Suspension.union, Suspension.zip]
  · obtain ⟨stored, mapped⟩ := settleStored { m with frame := none } g.unit g.cycles 0 (some cause) g.start
    have rows := settleUnits { m with frame := none } g.unit g.cycles 0 (some cause) g.start
    refine ⟨stored.trans (barren.memory.trans memory), mapped.trans (barren.spaces.trans spaces),
      fun i away => (congrArg (·[i]?) rows).trans (others _ i away),
      _, (congrArg (·[g.unit]?) rows).trans (unitModified found _), Word.clamp_of_le short,
      fun _ => ?_, fun used => ?_⟩
    · cases marked : g.processor.suspension.trapped <;> simp [marked, Suspension.union, Suspension.zip]
    · rw [busy used] at runs
      cases runs

end

/-- What a processor is and does that has been in a trap from `m` on, up to `m'`. -/
structure Confined (unit : Nat) (id : DeviceId) (cause : Trap) (m : Machine) (story : List Happening)
    (m' : Machine) : Prop where
  state : ∃ cpu, m'.cpu? id = some cpu ∧ cpu.runState = .trapped cause
  passive : ∀ h ∈ story, h.isOwn = false
  cycles : m'.worked[unit]? = m.worked[unit]?
  slices : ∀ (g : Grant) (depth : Nat), g.unit = unit → (∃ timers, g.machine = { m' with timers }) →
    g.doings (Machine.invoke depth) = [] ∧ ∃ m'',
      Machine.runSlice (Machine.invoke depth) g.unit g.target g.machine = some (⟨⟩, m'') ∧
        g.Fruitless m''

section
variable {origin m : Machine} {marks : List Mark} {unit : Nat} {id : DeviceId} {c : Core}
  {cause : Trap} {fatal : Bool}

theorem chronicleHeld (chronicle : Chronicle origin marks m) (sight : Sight unit id origin none c)
    (fit : Core.Fit fatal c) (held : Standing.Held cause c.standing) (kept : .reset ∉ about unit marks) :
    (∃ cpu, m.cpu? id = some cpu ∧ cpu.runState = .trapped cause) ∧
      ∀ h ∈ about unit marks, h.isOwn = false := by
  obtain ⟨c', seen, life⟩ := chronicleLife chronicle sight
  obtain ⟨path, -⟩ := Core.lifeStands life fit
  obtain ⟨held, passive⟩ := Standing.heldPath path held kept
  obtain ⟨cpu, found, still⟩ := seen.seat
  obtain ⟨rfl, -⟩ := still rfl
  exact ⟨⟨c'.cpu, found, held.state⟩, passive⟩

theorem heldSlice (chronicle : Chronicle origin marks m) (sight : Sight unit id origin none c)
    (fit : Core.Fit fatal c) (held : Standing.Held cause c.standing) (kept : .reset ∉ about unit marks)
    (wired : ∃ w, origin.wiring? id = some w)
    (short : ∀ n, origin.worked[unit]? = some n → n ≤ Word.largest)
    (still : m.worked[unit]? = origin.worked[unit]?) {g : Grant} (own : g.unit = unit)
    (here : ∃ timers, g.machine = { m with timers }) (depth : Nat) :
    g.doings (Machine.invoke depth) = [] ∧ ∃ m',
      Machine.runSlice (Machine.invoke depth) g.unit g.target g.machine = some (⟨⟩, m') ∧
        g.Fruitless m' := by
  obtain ⟨timers, same⟩ := here
  obtain ⟨⟨cpu, seat, trapped⟩, -⟩ := chronicleHeld chronicle sight fit held kept
  obtain ⟨c', seen, -⟩ := chronicleLife chronicle sight
  obtain ⟨w, wired⟩ := wired
  have found := g.found
  rw [same, own] at found
  have device : g.processor.device = id := by
    have place := seen.device
    rw [Machine.devicesAt, found] at place
    exact Option.some.inj place
  have seated : g.machine.cpu? g.processor.device = some cpu := by
    rw [same, device]
    exact seat
  have cabled : g.machine.wiring? g.processor.device = some w := by
    rw [same, device, ← wired]
    exact chronicleWiring chronicle id
  refine trappedSlice seated trapped cabled (short _ ?_)
  rw [← still, Machine.workedAt, found, Option.map_some]

theorem chronicleConfined (chronicle : Chronicle origin marks m) (sight : Sight unit id origin none c)
    (fit : Core.Fit fatal c) (held : Standing.Held cause c.standing) (kept : .reset ∉ about unit marks)
    (wired : ∃ w, origin.wiring? id = some w)
    (short : ∀ n, origin.worked[unit]? = some n → n ≤ Word.largest) :
    Confined unit id cause origin (about unit marks) m := by
  have still : m.worked[unit]? = origin.worked[unit]? := by
    refine chronicleBooks (P := fun m => m.worked[unit]? = origin.worked[unit]?) chronicle rfl
      (fun same before => by rw [same, before]) fun {early m₁ depth g m₂} before part here ran same => ?_
    by_cases own : g.unit = unit
    · -- its own slice, in the trap
      have calm : .reset ∉ about unit early := fun mem =>
        kept ((part.filterMap _).mem mem)
      have counted : m₁.worked[unit]? = origin.worked[unit]? := by
        obtain ⟨timers, at_⟩ := here
        rw [← same, at_]
        rfl
      obtain ⟨-, m', slice, fruitless⟩ := heldSlice before sight fit held calm wired short counted own
        here depth
      cases ran.symm.trans slice
      obtain ⟨p', row, cycles, -⟩ := fruitless.row
      have found := g.found
      rw [own] at row found
      rw [← same, Machine.workedAt, Machine.workedAt, row, found, Option.map_some, Option.map_some, cycles]
    · obtain ⟨f, booked, -⟩ := Machine.sliceWorked (Machine.invokeActs depth) ran
      rw [booked, Array.getElem?_modify, if_neg own, same]
  obtain ⟨state, passive⟩ := chronicleHeld chronicle sight fit held kept
  exact ⟨state, passive, still, fun g depth own here =>
    heldSlice chronicle sight fit held kept wired short still own here depth⟩

end

theorem doingsGuarded {g : Grant} {cpu : Acc8} (call : Callback)
    (seat : g.machine.cpu? g.processor.device = some cpu)
    (placed : cpu.runState = .waiting → cpu.fetchResetVector = false) :
    Guarded (decide (cpu.runState = .waiting)) (g.doings call) := by
  by_cases seated : ∃ cpu w, g.Seated cpu w
  · obtain ⟨cpu', w, seated⟩ := seated
    cases Machine.idleCpu seated.idle seat
    rw [g.doingsSeated seated]
    exact Machine.acc8Guarded g.cycles placed _
  · rw [g.doingsUnseated fun cpu w one => seated ⟨cpu, w, one⟩]
    exact .done

/-- Whatever a host, the handlers of a machine and its other processors do, the run state of a
processor goes its way. While the processor waits, it asks for nothing before it has accepted an
interrupt; in a trap it does nothing at all until it is reset, and each slice that it is granted holds
it again, even if it has been taken off. -/
theorem trapsHold {a : Assembly} {marks : List Mark} {m : Machine} {unit : Nat} {p : Processor}
    {cpu : Acc8} (assembled : Assembled a) (found : a.machine.units[unit]? = some p)
    (seat : a.machine.cpu? p.device = some cpu)
    (placed : cpu.runState = .waiting → cpu.fetchResetVector = false)
    (chronicle : Chronicle a.machine marks m) : ∃ last, m.cpu? p.device = some last ∧
    Standing.Path cpu.options.illegalFatal ⟨.seated, cpu.runState⟩ (about unit marks)
      ⟨.seated, last.runState⟩ ∧
    (∀ (g : Grant) (depth : Nat), g.unit = unit → (∃ timers, g.machine = { m with timers }) →
      ((Recorder.doings (Machine.invoke depth)).granted g).result g.machine =
          Machine.runSlice (Machine.invoke depth) g.unit g.target g.machine ∧
        Guarded (decide (last.runState = .waiting)) (g.doings (Machine.invoke depth))) ∧
    (∀ cause more m', last.runState = .trapped cause → Chronicle m more m' →
      .reset ∉ about unit more → Confined unit p.device cause m (about unit more) m') ∧
    a.Chronicled := by
  have sight := assembledSight assembled found seat
  obtain ⟨c, seen, life⟩ := chronicleLife chronicle sight
  have begins : Core.Fit cpu.options.illegalFatal ⟨p.lines, cpu, .seated⟩ := ⟨rfl, placed, .inl rfl⟩
  obtain ⟨path, fit⟩ := Core.lifeStands life begins
  obtain ⟨_, here, still⟩ := seen.seat
  obtain ⟨rfl, seated⟩ := still rfl
  have ends : c.standing = ⟨.seated, c.cpu.runState⟩ := by rw [Core.standing, seated]; rfl
  refine ⟨c.cpu, here, ends ▸ path, ?_, fun cause more m' trapped after kept => ?_, courseChronicled a⟩
  · rintro g depth rfl ⟨timers, same⟩
    refine ⟨g.doingsSlice _, doingsGuarded _ ?_ fit.placed⟩
    have found := g.found
    rw [same] at found
    rw [(seen.apart found).mpr rfl, same]
    exact here
  · have wired : ∃ w, m.wiring? p.device = some w := by
      obtain ⟨w, wired⟩ := Machine.assembledCabled assembled p.device cpu seat
      exact ⟨w, (chronicleWiring chronicle p.device).trans wired⟩
    have held : Standing.Held cause c.standing := ends ▸ ⟨trapped, .inl rfl⟩
    exact chronicleConfined after seen fit held kept wired fun n => chronicleShort assembled chronicle

open Machine (tellStart tellInvoke tellPasses invoke runSlice)

def stall : Assembly :=
  (Assembly.new { quantum := .ofMicros 20 } .builtin).extend "cpu" (.ofMhz 1)
    (.acc8 (.new "cpu" { resetPc := some 0x200 }))

theorem stallAssembled : Assembled stall := (Assembled.new _ _).extend _ _ _

def strike : Script := .perform (.driveLine ⟨0⟩ Acc8.nmiLine .assert (some 9))

def struck : Watch Mark Unit := do
  let _ ← tellStart (tellInvoke 3)
  let _ ← tellInvoke 3 strike
  tellPasses (tellInvoke 3) (.ofMicros 20) 1

theorem struckChronicle {marks : List Mark} {u : Unit} {m : Machine}
    (ran : struck stall.machine = (marks, some (u, m))) : Chronicle stall.machine marks m := by
  obtain ⟨first, failed, m₁, _, started, strikes, rfl⟩ := Watch.bindInv ran
  obtain ⟨second, reply, m₂, third, hit, passes, rfl⟩ := Watch.bindInv strikes
  have begun := (Chronicle.origin.started started).carried hit
  rw [List.nil_append] at begun
  rw [← List.append_assoc]
  exact begun.passes (.ofMicros 20) 1 passes

def revive : Script := .perform (.resume ⟨0⟩ { trapped := true })

def seize : Script := .step (.resume ⟨0⟩ { trapped := true }) fun _ => .perform (.hold ⟨0⟩)

def stallRevives (after : Script) (check : Machine → Bool) : Bool :=
  match stall.machine.units[0]?, struck stall.machine with
  | some p, (_, some (_, m)) =>
      match stall.machine.cpu? p.device, m.cpu? p.device, tellInvoke 3 after m with
      | some cpu, some last, (more, some (_, m')) =>
          decide (cpu.runState = .stopped) && decide (last.runState = .trapped .invalidVector) &&
            (about 0 more).isEmpty && ((m'.units[0]?).any fun p => p.isLive) && check m'
      | _, _, _ => false
  | _, _ => false

theorem revivesInv {after : Script} {check : Machine → Bool} (revives : stallRevives after check = true) :
    ∃ p cpu last marks m more m', stall.machine.units[0]? = some p ∧
      stall.machine.cpu? p.device = some cpu ∧ cpu.runState = .stopped ∧
      Chronicle stall.machine marks m ∧ m.cpu? p.device = some last ∧
      last.runState = .trapped .invalidVector ∧ Chronicle m more m' ∧ .reset ∉ about 0 more ∧
      (∃ q, m'.units[0]? = some q ∧ q.isLive = true) ∧ check m' = true := by
  unfold stallRevives at revives
  split at revives
  · rename_i p marks u m found ran
    split at revives
    · rename_i cpu last more reply m' seat here told
      simp only [Bool.and_eq_true, decide_eq_true_eq, List.isEmpty_iff, Option.any_eq_true] at revives
      obtain ⟨⟨⟨⟨stopped, trapped⟩, calm⟩, live⟩, holds⟩ := revives
      have chronicle := Chronicle.origin.carried told
      rw [List.nil_append] at chronicle
      refine ⟨p, cpu, last, marks, m, more, m', found, seat, stopped, struckChronicle ran, here,
        trapped, chronicle, by simp [calm], ?_, holds⟩
      obtain ⟨q, row, live⟩ := live
      exact ⟨q, row, live⟩
    · cases revives
  · cases revives

theorem revivedConfined : ∃ p last m more m' q, stall.machine.units[0]? = some p ∧
    m.cpu? p.device = some last ∧ last.runState = .trapped .invalidVector ∧ Chronicle m more m' ∧
    m'.units[0]? = some q ∧ q.isLive = true ∧
    Confined 0 p.device .invalidVector m (about 0 more) m' := by
  have revives : stallRevives revive (fun _ => true) = true := by decide +kernel
  obtain ⟨p, cpu, last, marks, m, more, m', found, seat, stopped, before, here, trapped, after, kept,
    ⟨q, row, live⟩, -⟩ := revivesInv revives
  obtain ⟨last', here', -, -, confined, -⟩ := trapsHold stallAssembled found seat
    (fun waits => by rw [stopped] at waits; cases waits) before
  rw [here] at here'
  cases here'
  exact ⟨p, last, m, more, m', q, found, here, trapped, after, row, live,
    confined .invalidVector more m' trapped after kept⟩

def unmarked (m : Machine) : Bool :=
  match runSlice (invoke 3) 0 (.ofMicros 90) m with
  | some (_, m') => (m'.units[0]?).any fun p => !p.suspension.trapped
  | none => false

/-- A slice of a processor in a trap that is no longer held, while the host keeps its device, does not
mark it as trapped. -/
theorem seizedUnmarked : ∃ p last marks m more m' q m'' q', Assembled stall ∧
    stall.machine.units[0]? = some p ∧ Chronicle stall.machine marks m ∧
    m.cpu? p.device = some last ∧ last.runState = .trapped .invalidVector ∧ Chronicle m more m' ∧
    .reset ∉ about 0 more ∧ m'.units[0]? = some q ∧ q.isLive = true ∧
    runSlice (invoke 3) 0 (.ofMicros 90) m' = some (⟨⟩, m'') ∧ m''.units[0]? = some q' ∧
    q'.suspension.trapped = false := by
  have revives : stallRevives seize unmarked = true := by decide +kernel
  obtain ⟨p, cpu, last, marks, m, more, m', found, -, -, before, here, trapped, after, kept,
    ⟨q, row, live⟩, off⟩ := revivesInv revives
  unfold unmarked at off
  split at off
  · rename_i u m'' ran
    obtain ⟨q', row', free⟩ := (Option.any_eq_true ..).mp off
    exact ⟨p, last, marks, m, more, m', q, m'', q', stallAssembled, found, before, here, trapped,
      after, kept, row, live, ran, row', by simpa using free⟩
  · cases off

end Lockstep
