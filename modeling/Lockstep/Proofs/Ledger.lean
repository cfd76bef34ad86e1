import Mathlib.Algebra.GroupWithZero.Nat
import Lockstep.Proofs.Lived
import Lockstep.Proofs.Suspensions

/-! The work of a slice as a ledger: what starts in it and what each instruction, each interrupt
entry and each idle stretch costs. Whatever handlers do, nothing but this work comes off the
budget, so at every start and at the end the budget is what the work so far has left. -/
namespace Lockstep

namespace Acc8

theorem stepWorkCases {port : Port Run} {cpu cpu' : Acc8} {work : Work} {m m' : Machine}
    (ran : stepWork port cpu m = some ((cpu', work), m')) : ∃ byte next m₁ taken,
      fetch port cpu m = some ((byte, next), m₁) ∧ work = .instruction byte taken ∧
      (Opcode.decode? byte = none ∧ cpu' = (if next.options.illegalFatal then
          { next with pc := cpu.pc }.trapped .illegalInstruction else next) ∨
        ∃ op, Opcode.decode? byte = some op ∧
          execute port op next m₁ = some ((cpu', taken), m')) := by
  obtain ⟨⟨byte, next⟩, m₁, fetched, ran⟩ := Run.bindInv ran
  dsimp only at ran
  cases decoded : Opcode.decode? byte with
  | none =>
    rw [decoded] at ran
    dsimp only at ran
    split at ran
    · rename_i fatal
      cases ran
      exact ⟨byte, next, m', false, fetched, rfl, .inl ⟨decoded, (if_pos fatal).symm⟩⟩
    · rename_i harmless
      cases ran
      exact ⟨byte, cpu', m', false, fetched, rfl, .inl ⟨decoded, (if_neg harmless).symm⟩⟩
  | some op =>
    rw [decoded] at ran
    obtain ⟨⟨after, taken⟩, _, executed, ran⟩ := Run.bindInv ran
    cases ran
    exact ⟨byte, next, m₁, taken, fetched, rfl, .inr ⟨op, decoded, executed⟩⟩

end Acc8

def Beat.cost (m : Machine) (unit : Nat) : Beat → Nat
  | .consume cycles => cycles
  | .inquire _ (.consumeUntilStop cycles) => m.roundsUntilStop unit cycles * cycles
  | _ => 0

/-- What starts in a slice and what that costs; of a sequencer, what its beats spend and where it
stands after each. -/
inductive Entry where
  | start (s : Start)
  | work (w : Acc8.Work)
  | spend (cycles : Nat)
  | stand (machine : Machine)

namespace Entry

def start? : Entry → Option Start
  | .start s => some s
  | _ => none

def cost : Entry → Nat
  | .work w => w.cost
  | .spend cycles => cycles
  | _ => 0

end Entry

def Moment.entries (unit : Nat) : Moment → List Entry
  | .starts s => [.start s]
  | .does work _ => [.work work]
  | .plays beat m => [.spend (beat.cost m unit)]
  | .stands m => [.stand m]
  | _ => []

theorem Moment.entriesStart (unit : Nat) (moment : Moment) :
    (moment.entries unit).filterMap Entry.start? = moment.starting := by
  cases moment <;> rfl

def Recorder.ledger (call : Callback) : Recorder Entry := plain call Moment.entries

theorem Recorder.ledgerFollows (call : Callback) : (ledger call).Follows call := plainFollows ..

def Grant.ledger (g : Grant) (call : Callback) : List Entry := (Recorder.ledger call).log g

theorem Grant.ledgerStarts (g : Grant) (call : Callback) :
    (Machine.watchGranted call g g.machine).1 = (g.ledger call).filterMap Entry.start? :=
  (Recorder.logSifted Moment.entriesStart call g).symm

def cost (entries : List Entry) : Nat := (entries.map Entry.cost).sum

section
variable (entries more : List Entry)

@[simp] theorem costNil : cost [] = 0 := rfl

@[simp] theorem costCons (e : Entry) : cost (e :: entries) = e.cost + cost entries := List.sum_cons

@[simp] theorem costAppend : cost (entries ++ more) = cost entries + cost more := by
  simp [cost]

end

namespace Machine
open Watch (of)

structure Accounted {α : Type} (m : Machine) (entries : List Entry) (r : Option (α × Machine)) :
    Prop where
  each : ∀ before s after, entries = before ++ .start s :: after →
    s.machine.budget + cost before = m.budget
  ends : ∀ a m', r = some (a, m') → m'.budget + cost entries = m.budget
  own : ∀ machine, .stand machine ∉ entries

namespace Accounted
variable {α β : Type} {m m' : Machine} {entries more : List Entry} {r : Option (α × Machine)}
  {s : Start}

theorem quiet (ends : ∀ a m', r = some (a, m') → m'.budget = m.budget) : Accounted m [] r := by
  refine ⟨fun before s after same => ?_, fun a m' h => ?_, fun _ mem => by cases mem⟩
  · simp at same
  · rw [ends a m' h, costNil]
    omega

theorem still (a : α) (same : m'.budget = m.budget) : Accounted m [] (some (a, m')) :=
  quiet fun b m'' h => by
    cases h
    exact same

theorem stuck : Accounted m [] (none : Option (α × Machine)) := quiet fun _ _ h => by cases h

theorem started (same : s.machine.budget = m.budget) (rest : Accounted s.machine entries r) :
    Accounted m (.start s :: entries) r := by
  refine ⟨fun before t after split => ?_, fun a m' h => ?_, fun machine => by simp [rest.own machine]⟩
  · cases before with
    | nil =>
      cases split
      rw [costNil, same]
      omega
    | cons e before =>
      obtain ⟨rfl, tail⟩ := List.cons.inj split
      rw [costCons, ← same, ← rest.each before t after tail]
      simp [Entry.cost]
  · rw [costCons, ← same, ← rest.ends a m' h]
    simp [Entry.cost]

theorem worked (a : α) {w : Acc8.Work} (paid : m'.budget + w.cost = m.budget) :
    Accounted m [.work w] (some (a, m')) := by
  refine ⟨fun before t after split => ?_, fun b m'' h => ?_, fun machine => by simp⟩
  · cases before with
    | nil => cases split
    | cons e before => simp at split
  · cases h
    rw [costCons, costNil]
    exact paid

theorem append {b : β} (first : Accounted m entries (some (b, m'))) (rest : Accounted m' more r) :
    Accounted m (entries ++ more) r := by
  have paid := first.ends b m' rfl
  refine ⟨fun before s after split => ?_, fun a m'' h => ?_, fun machine => ?_⟩
  · rcases List.append_eq_append_iff.mp split with ⟨piece, rfl, tail⟩ | ⟨piece, head, tail⟩
    · have own := rest.each piece s after tail
      rw [costAppend]
      omega
    · cases piece with
      | nil =>
        rw [List.append_nil] at head
        subst head
        have own := rest.each [] s after tail.symm
        rw [costNil] at own
        omega
      | cons e piece =>
        rw [List.cons_append] at tail
        rw [← (List.cons.inj tail).1] at head
        exact first.each before s piece head
  · have own := rest.ends a m'' h
    rw [costAppend]
    omega
  · simp [first.own machine, rest.own machine]

theorem lost (h : Accounted m entries (none : Option (β × Machine))) :
    Accounted m entries (none : Option (α × Machine)) :=
  ⟨h.each, fun _ _ same => (by cases same), h.own⟩

theorem since (h : Accounted m' entries r) (same : m'.budget = m.budget) : Accounted m entries r :=
  ⟨fun before s after split => (h.each before s after split).trans same,
    fun a m'' ends => (h.ends a m'' ends).trans same, h.own⟩

end Accounted

section
variable {m m' : Machine} {cpu cpu' : Acc8} {port : Acc8.Port Run}

theorem chargeRest (small : m.budget ≤ budgetLimit) (left : 0 < m.budget) :
    (m.charge m.budget.toNat).budget = 0 := by
  unfold charge
  unfold budgetLimit at *
  dsimp only
  omega

variable {call : Callback} (calls : ∀ s m, Acts (call s) m) (kept : port.Keeps Kept)
include calls kept

theorem turnAccounted (unit : Nat) (cpu : Acc8) (small : m.budget ≤ budgetLimit) :
    ((Recorder.ledger call).turn unit port.quiet cpu).Ensures m fun entries r =>
      Accounted m entries r ∧ (m.mustStop unit = false → r.isSome = true → 0 < cost entries) := by
  have begins : ∀ {m₁ cpu' taken}, Recorder.Boundary unit cpu m m₁ cpu' taken →
      0 < m.budget ∧ m₁.budget = m.budget := fun boundary =>
    ⟨boundaryLeft boundary, (boundaryKept boundary).budget⟩
  refine Recorder.plainEnsures (fun stop => ⟨.still _ rfl, fun on => absurd stop (ne_true_of_eq_false on)⟩)
    (fun m₁ cpu' boundary _ => ?_) (fun m₁ cpu' taken boundary => ?_)
    (fun m₁ cpu' cpu₂ work m₂ boundary _ ran => ?_)
    fun m₁ cpu' line vector m₂ cpu₂ m₃ boundary asked entered => ?_
  all_goals obtain ⟨left, first⟩ := begins boundary
  · -- idle: the rest of the budget goes at once
    have gone := chargeRest (m := m₁) (by omega) (by omega)
    refine ⟨.since (.worked _ ?_) first, fun _ _ => ?_⟩
    · change (m₁.charge m₁.budget.toNat).budget + (m₁.budget.toNat : Nat) = m₁.budget
      omega
    · change 0 < m₁.budget.toNat + 0
      omega
  · exact ⟨.since (.started rfl .stuck) first, fun _ h => by cases h⟩
  · have stepped := stepWorkInv ran
    obtain ⟨least, most⟩ := Acc8.stepCost stepped
    have second := (Acc8.stepRelated kept cpu' m₁ _ m₂ stepped).budget
    have paid := Grant.chargeBudget (m := m₂) most (by omega)
    refine ⟨.since (.started rfl (.worked _ ?_)) first, fun _ _ => ?_⟩
    · change (m₂.charge work.cost).budget + work.cost = m₁.budget
      omega
    · change 0 < 0 + (work.cost + 0)
      omega
  · have second := (acknowledgeKept calls line m₁ vector m₂ asked).budget
    have third := (Acc8.enterRelated kept _ cpu' m₂ _ m₃ entered).budget
    have paid := Grant.chargeBudget (m := m₃) (Nat.le_refl _) (by omega)
    refine ⟨.since (.started rfl (.worked _ ?_)) first, fun _ _ => ?_⟩
    · change (m₃.charge Acc8.interruptCycles).budget + (Acc8.interruptCycles : Nat) = m₁.budget
      omega
    · change 0 < 0 + (Acc8.interruptCycles + 0)
      decide

theorem loopAccounted (unit bound : Nat) (cpu : Acc8) (small : m.budget ≤ budgetLimit) :
    ((Recorder.ledger call).loop unit port.quiet bound cpu).Ensures m fun entries r =>
      Accounted m entries r ∧
        (0 < bound → m.mustStop unit = false → r.isSome = true → 0 < cost entries) := by
  induction bound generalizing cpu m with
  | zero => exact ⟨.still _ rfl, fun none => absurd none (Nat.lt_irrefl 0)⟩
  | succ bound ih =>
    refine Watch.ensuresThen (turnAccounted calls kept unit cpu small)
      (fun _ lost => ⟨lost.1.lost, fun _ _ h => by cases h⟩)
      fun turn row m' ended => ?_
    obtain ⟨first, works⟩ := ended
    have paid := first.ends _ _ rfl
    obtain ⟨cpu', on⟩ := row
    dsimp only
    have both : ∀ {entries : List Entry} {r : Option (Acc8 × Machine)}, Accounted m' entries r →
        Accounted m (turn ++ entries) r ∧ (0 < bound + 1 → m.mustStop unit = false →
          r.isSome = true → 0 < cost (turn ++ entries)) := by
      intro entries r rest
      refine ⟨first.append rest, fun _ goes _ => ?_⟩
      rw [costAppend]
      have := works goes rfl
      omega
    cases on with
    | true => exact Watch.ensuresMono (ih cpu' (by omega)) fun _ _ more => both more.1
    | false => exact both (.still cpu' rfl)

end

end Machine

namespace Grant
open Machine
open Watch (of)

structure Seated (g : Grant) (cpu : Acc8) (w : Wiring) : Prop where
  idle : g.machine.idle g.processor.device = .ok (.acc8 cpu)
  wiring : g.machine.wiring? g.processor.device = some w
  sane : cpu.runState.isTrapped = false

def load (g : Grant) (call : Callback) (cpu : Acc8) (w : Wiring) : Run Acc8 := do
  set (g.opened.setBusy g.processor.device true)
  publish g.unit cpu.get?
  cpu.prepare (acc8Port call w.program w.io)

def shut (g : Grant) (cpu : Acc8) (m : Machine) : Machine :=
  ({ (m.setBusy g.processor.device false).withDevice g.processor.device (.acc8 cpu) with
    frame := none } : Machine).settle g.unit g.cycles m.consumed cpu.runState.trap? g.start

variable {g : Grant} {cpu : Acc8} {w : Wiring} {call : Callback}

theorem openedIdle (g : Grant) (id : DeviceId) : g.opened.idle id = g.machine.idle id := by
  obtain ⟨-, -, -, -, tree, -⟩ := g.openedSame
  rw [Machine.idle, Machine.idle, tree]

theorem deviceLog {ω : Type} (r : Recorder ω) {device : Device}
    (idle : g.machine.idle g.processor.device = .ok device) :
    r.log g = (r.device g.unit g.cycles g.processor.device device
      (g.opened.setBusy g.processor.device true)).1 := by
  rw [Recorder.logged]
  unfold Recorder.grant
  rw [Watch.getBind, openedIdle, idle]
  dsimp only
  rw [Watch.modifyBind]
  exact Watch.bindQuiet fun outcome m => by cases outcome <;> rfl

theorem Seated.spaces (seated : g.Seated cpu w) :
    (g.opened.setBusy g.processor.device true).ownedSpace g.processor.device .program = .ok w.program ∧
      (g.opened.setBusy g.processor.device true).ownedSpace g.processor.device .io = .ok w.io :=
  wiringInv (g.openedWiring.trans seated.wiring)

theorem seatedLog {ω : Type} (r : Recorder ω) (seated : g.Seated cpu w) :
    r.log g = (r.acc8 g.unit g.cycles (r.port w.program w.io) cpu
      (g.opened.setBusy g.processor.device true)).1 := by
  obtain ⟨program, io⟩ := seated.spaces
  rw [deviceLog r seated.idle]
  unfold Recorder.device
  dsimp only
  rw [Watch.getBind, program, io]
  exact Watch.bindQuiet fun _ _ => rfl

theorem seatedRuns {ω : Type} (pen : Nat → Moment → List ω) (seated : g.Seated cpu w) :
    (Recorder.plain call pen).granted g g.machine = (do
      let cpu ← of (g.load call cpu w)
      let cpu ← (Recorder.plain call pen).loop g.unit (acc8Port call w.program w.io).quiet
        (min g.cycles budgetLimit) cpu
      of (modify (g.shut cpu)) : Watch ω Unit) g.machine := by
  have idle := (g.openedIdle _).trans seated.idle
  obtain ⟨program, io⟩ := seated.spaces
  have positive : ¬ (g.cycles = 0 || cpu.runState.isTrapped) = true := by
    have := g.cyclesPos
    simp [seated.sane]
    omega
  unfold Recorder.granted Recorder.grant load
  rw [Watch.setBind]
  simp only [bind_assoc]
  rw [Watch.getBind, idle]
  dsimp only
  unfold Recorder.device
  simp only [bind_assoc]
  rw [Watch.modifyBind, Watch.getBind, program, io]
  unfold Recorder.acc8
  dsimp only
  rw [if_neg positive]
  simp only [Watch.ofBind, bind_assoc]
  rw [Watch.setBind]
  apply congrFun
  refine bind_congr fun _ => ?_
  rw [← Acc8.prepareQuiet]
  simp only [bind_assoc, pure_bind]
  rfl

theorem seatedLedger (seated : g.Seated cpu w) : g.ledger call =
    ((of (g.load call cpu w) >>= (Recorder.ledger call).loop g.unit
      (acc8Port call w.program w.io).quiet (min g.cycles budgetLimit)) g.machine).1 := by
  refine (congrArg Prod.fst (seatedRuns Moment.entries seated)).trans ?_
  rw [← bind_assoc]
  exact Watch.bindQuiet fun _ _ => rfl

theorem seatedInv (seated : g.Seated cpu w) {u : Unit} {m' : Machine}
    (ran : runSlice call g.unit g.target g.machine = some (u, m')) : ∃ cpu₁ m₁ cpu' m₂,
      g.load call cpu w g.machine = some (cpu₁, m₁) ∧
      (Recorder.ledger call).loop g.unit (acc8Port call w.program w.io).quiet
        (min g.cycles budgetLimit) cpu₁ m₁ = (g.ledger call, some (cpu', m₂)) ∧
      m' = g.shut cpu' m₂ := by
  rw [← Recorder.grantedSlice (Recorder.ledgerFollows call)] at ran
  have whole : (Recorder.ledger call).granted g g.machine = (g.ledger call, some (u, m')) :=
    Prod.ext rfl ran
  rw [show (Recorder.ledger call).granted g g.machine = _ from seatedRuns Moment.entries seated] at whole
  obtain ⟨early, cpu₁, m₁, rest, loading, looping, log⟩ := Watch.bindInv whole
  obtain ⟨rfl, loaded⟩ := Watch.ofInv loading
  obtain ⟨entries, cpu', m₂, last, looped, shutting, rfl⟩ := Watch.bindInv looping
  obtain ⟨rfl, shut⟩ := Watch.ofInv shutting
  cases shut
  rw [List.append_nil, List.nil_append] at log
  exact ⟨cpu₁, m₁, cpu', m₂, loaded, log ▸ looped, rfl⟩

section
variable {m m' : Machine} {cpu' : Acc8}

theorem loadDirect (direct : cpu.fetchResetVector = false) : g.load call cpu w g.machine =
    some (if cpu.runState = .stopped then { cpu with runState := .running } else cpu,
      (g.opened.setBusy g.processor.device true).modifyUnit g.unit (·.publish cpu.get?)) := by
  unfold load publish Acc8.prepare
  rw [Run.setBind, Run.modifyBind, if_neg (ne_true_of_eq_false direct)]
  rfl

theorem directGoes : ((g.opened.setBusy g.processor.device true).modifyUnit g.unit
    (·.publish cpu.get?)).mustStop g.unit = false := by
  obtain ⟨-, -, -, -, -, found⟩ := g.openedSame
  have ready := unitModified (m := g.opened.setBusy g.processor.device true) found
    (·.publish cpu.get?)
  have full : 0 < ((g.opened.setBusy g.processor.device true).modifyUnit g.unit
      (·.publish cpu.get?)).budget := by
    change 0 < g.opened.budget
    rw [g.openedBudget]
    exact g.budgetPos
  unfold mustStop
  rw [ready]
  simp only [Option.elim_some, Bool.or_eq_false_iff, decide_eq_false_iff_not]
  exact ⟨by omega, rfl⟩

section
variable (calls : ∀ s m, Acts (call s) m)
include calls

theorem loadWithin (loaded : g.load call cpu w g.machine = some (cpu', m)) :
    g.Within m ∧ m.budget = (min g.cycles budgetLimit : Nat) := by
  have full := g.openedBudget
  have busy : g.Within (g.opened.setBusy g.processor.device true) :=
    withinTree (withinOpened g) fun _ _ => rfl
  have left : 0 < (g.opened.setBusy g.processor.device true).budget := by
    change 0 < g.opened.budget
    rw [full]
    exact g.budgetPos
  suffices kept : Kept (g.opened.setBusy g.processor.device true) m from
    ⟨withinKept busy left kept, kept.budget.trans full⟩
  unfold load at loaded
  rw [Run.setBind] at loaded
  obtain ⟨_, m₁, published, prepared⟩ := Run.bindInv loaded
  exact (publishKept _ _ m₁ published).trans
    (Acc8.prepareRelated (acc8PortKeeps calls w.program w.io) cpu m₁ _ m prepared)

theorem seatedDone (seated : g.Seated cpu w) {u : Unit}
    (ran : runSlice call g.unit g.target g.machine = some (u, m')) : ∃ cpu' m,
      m' = g.shut cpu' m ∧ g.Within m ∧ -6 ≤ m.budget ∧
      m.budget + cost (g.ledger call) = (min g.cycles budgetLimit : Nat) ∧
      (cpu.fetchResetVector = false → 0 < cost (g.ledger call)) := by
  obtain ⟨cpu₁, m₁, cpu', m₂, loaded, looped, rfl⟩ := seatedInv seated ran
  obtain ⟨within, full⟩ := loadWithin calls loaded
  have kept := acc8PortKeeps calls w.program w.io
  have positive := g.budgetPos
  have stretch := loopStretch calls kept (min g.cycles budgetLimit) cpu₁ within (by omega)
  have accounted := loopAccounted calls kept g.unit (min g.cycles budgetLimit) cpu₁ (m := m₁)
    (by rw [full]; omega)
  have starts := congrFun (Recorder.loopSifted Moment.entriesStart call g.unit
    (acc8Port call w.program w.io) (min g.cycles budgetLimit) cpu₁) m₁
  unfold Watch.Ensures Recorder.starts at stretch
  unfold Watch.Ensures at accounted
  rw [looped] at accounted
  rw [← starts] at stretch
  unfold Watch.sift Recorder.plain at stretch
  unfold Recorder.ledger Recorder.plain at looped
  rw [looped] at stretch
  obtain ⟨within', low, -⟩ := stretch.ends _ _ rfl
  refine ⟨cpu', m₂, rfl, within', low, (accounted.1.ends _ _ rfl).trans full, fun direct => ?_⟩
  rw [loadDirect direct] at loaded
  cases loaded
  exact accounted.2 (by omega) directGoes rfl

theorem seatedAccounted (seated : g.Seated cpu w) : ∃ (m : Machine) (r : Option (Acc8 × Machine)),
    m.budget = (min g.cycles budgetLimit : Nat) ∧ Accounted m (g.ledger call) r := by
  rw [seatedLedger seated]
  change ∃ m r, _ ∧ Accounted m (Watch.next (of (g.load call cpu w)) _ g.machine).1 r
  unfold Watch.next of
  cases loaded : g.load call cpu w g.machine with
  | none => exact ⟨g.opened, none, g.openedBudget, .stuck⟩
  | some row =>
    obtain ⟨cpu₁, m₁⟩ := row
    obtain ⟨-, full⟩ := loadWithin calls loaded
    exact ⟨m₁, _, full, (loopAccounted calls (acc8PortKeeps calls w.program w.io) g.unit
      (min g.cycles budgetLimit) cpu₁ (m := m₁) (by rw [full]; omega)).1⟩

theorem seatedStarts (seated : g.Seated cpu w) {before after : List Entry} {s : Start}
    (split : g.ledger call = before ++ .start s :: after) :
    s.machine.budget + cost before = (min g.cycles budgetLimit : Nat) := by
  obtain ⟨m, r, full, accounted⟩ := seatedAccounted calls seated
  exact (accounted.each before s after split).trans full

theorem seatedOwn (seated : g.Seated cpu w) (m : Machine) : .stand m ∉ g.ledger call := by
  obtain ⟨_, _, -, accounted⟩ := seatedAccounted calls seated
  exact accounted.own m

end

theorem shutOwn {p : Processor} (found : m.units[g.unit]? = some p) :
    (g.shut cpu m).units[g.unit]? = some { p with
      localTime := g.start + p.period.scale (if m.consumed = 0 then g.cycles else m.consumed)
      totalCycles := Word.add p.totalCycles m.consumed
      yieldRequested := false
      suspension := if cpu.runState.trap?.isSome && !p.suspension.trapped then
        p.suspension.union { trapped := true } else p.suspension } := by
  unfold shut
  rw [settleUnits]
  exact unitModified (m := { (m.setBusy g.processor.device false).withDevice g.processor.device
    (.acc8 cpu) with frame := none }) found _

end

theorem settleTrapped {m : Machine} {unit cycles consumed : Nat} {cause : Trap} {start : Time}
    {p' : Processor}
    (found : (m.settle unit cycles consumed (some cause) start).units[unit]? = some p') :
    p'.isLive = false := by
  rw [settleUnits] at found
  simp only [modifyUnit, Array.getElem?_modify, if_true] at found
  obtain ⟨q, -, rfl⟩ := Option.map_eq_some_iff.mp found
  refine Bool.eq_false_iff.mpr fun live => ?_
  have empty := Suspension.emptyIff.mp live
  cases before : q.suspension.trapped with
  | false => simp [Suspension.union, Suspension.zip, before] at empty
  | true =>
    simp only [before, Bool.not_true, Bool.and_false] at empty
    rw [show q.suspension = {} from empty] at before
    cases before

def runs (g : Grant) : Bool :=
  match g.machine.idle g.processor.device with
  | .ok (.acc8 _) => (g.machine.wiring? g.processor.device).isSome
  | .ok (.sequencer s) => s.runnable
  | _ => false

/-- What a grant leaves that finds nothing to run. -/
structure Barren (g : Grant) (outcome : Option (Nat × Option Trap)) (m : Machine) : Prop where
  units : m.units = g.opened.units
  memory : m.memory = g.opened.memory
  spaces : m.spaces = g.opened.spaces
  refused : outcome = none ∧ g.runs = false ∨ ∃ cause, outcome = some (0, some cause) ∧ g.runs = true

theorem grantUnseated {ω : Type} (r : Recorder ω)
    (other : ∀ s, g.machine.idle g.processor.device ≠ .ok (.sequencer s))
    (unseated : ∀ cpu w, ¬ g.Seated cpu w) : ∃ outcome m,
      r.grant g.unit g.cycles g.processor.device g.opened = ([], some (outcome, m)) ∧
        g.Barren outcome m := by
  unfold Recorder.grant
  rw [Watch.getBind, openedIdle]
  cases idle : g.machine.idle g.processor.device with
  | error e => exact ⟨none, _, rfl, rfl, rfl, rfl, .inl ⟨rfl, by simp only [runs, idle]⟩⟩
  | ok device =>
    dsimp only
    rw [Watch.modifyBind]
    cases device with
    | peripheral p => exact ⟨none, _, rfl, rfl, rfl, rfl, .inl ⟨rfl, by simp only [runs, idle]⟩⟩
    | sequencer s => exact absurd idle (other s)
    | acc8 cpu =>
      cases wired : (g.opened.setBusy g.processor.device true).wiring? g.processor.device with
      | none =>
        have refused : r.device g.unit g.cycles g.processor.device (.acc8 cpu)
            (g.opened.setBusy g.processor.device true) =
              ([], some (none, g.opened.setBusy g.processor.device true)) := by
          unfold Recorder.device
          dsimp only
          rw [Watch.getBind]
          unfold wiring? at wired
          rcases program : (g.opened.setBusy g.processor.device true).ownedSpace
            g.processor.device .program with e | program'
          · rfl
          rcases io : (g.opened.setBusy g.processor.device true).ownedSpace
            g.processor.device .io with e | io'
          · rfl
          rw [program, io] at wired
          cases wired
        rw [openedWiring] at wired
        exact ⟨none, _, Watch.bindDone refused _, rfl, rfl, rfl,
          .inl ⟨rfl, by simp [runs, idle, wired]⟩⟩
      | some w =>
        obtain ⟨program, io⟩ := wiringInv wired
        rw [openedWiring] at wired
        have trapped : cpu.runState.isTrapped = true :=
          Classical.byContradiction fun sane =>
            unseated cpu w ⟨idle, wired, Bool.eq_false_iff.mpr sane⟩
        obtain ⟨cause, state⟩ := Option.isSome_iff_exists.mp trapped
        have halted : r.device g.unit g.cycles g.processor.device (.acc8 cpu)
            (g.opened.setBusy g.processor.device true) =
              ([], some (some (.acc8 cpu, 0), g.opened.setBusy g.processor.device true)) := by
          unfold Recorder.device Recorder.acc8
          dsimp only
          rw [Watch.getBind, program, io]
          dsimp only
          rw [if_pos (by simp [trapped])]
          rfl
        exact ⟨some (0, cpu.runState.trap?), _, Watch.bindDone halted _, rfl, rfl, rfl,
          .inr ⟨cause, by rw [state], by simp [runs, idle, wired]⟩⟩

theorem unseatedLog {ω : Type} (r : Recorder ω)
    (other : ∀ s, g.machine.idle g.processor.device ≠ .ok (.sequencer s))
    (unseated : ∀ cpu w, ¬ g.Seated cpu w) : r.log g = [] := by
  obtain ⟨outcome, m, granted, -⟩ := grantUnseated r other unseated
  rw [Recorder.logged, granted]

theorem unseatedSlice (call : Callback)
    (other : ∀ s, g.machine.idle g.processor.device ≠ .ok (.sequencer s))
    (unseated : ∀ cpu w, ¬ g.Seated cpu w) : ∃ outcome m,
      runSlice call g.unit g.target g.machine = some (⟨⟩, g.concluded outcome m) ∧ g.Barren outcome m := by
  obtain ⟨outcome, m, granted, barren⟩ := grantUnseated (Recorder.starts call) other unseated
  refine ⟨outcome, m, ?_, barren⟩
  rw [sliceConcluded, ← Recorder.grantResult (Recorder.startsFollow call)]
  unfold Watch.result
  rw [granted]
  rfl

theorem seatedOr (call : Callback)
    (acc8 : g.machine.classOf? g.processor.device ≠ some .sequencer) :
    (∃ cpu w, g.Seated cpu w) ∨ (watchGranted call g g.machine).1 = [] ∧
      ∀ u m' p', runSlice call g.unit g.target g.machine = some (u, m') →
        m'.units[g.unit]? = some p' → p'.isLive = false := by
  refine Classical.or_iff_not_imp_left.mpr fun seats => ?_
  have unseated : ∀ cpu w, ¬ g.Seated cpu w := fun cpu w seated => seats ⟨cpu, w, seated⟩
  have other : ∀ s, g.machine.idle g.processor.device ≠ .ok (.sequencer s) := by
    intro s idle
    obtain ⟨node, place, kind, -⟩ := idleInv idle
    exact acc8 (by rw [classOf?, place, Option.map_some, kind]; rfl)
  obtain ⟨outcome, m, ends, barren⟩ := unseatedSlice call other unseated
  refine ⟨unseatedLog (Recorder.starts call) other unseated, fun u m' p' ran found => ?_⟩
  cases ends.symm.trans ran
  rcases barren.refused with ⟨rfl, -⟩ | ⟨cause, rfl, -⟩
  · unfold concluded at found
    simp only [modifyUnit, Array.getElem?_modify, if_true] at found
    obtain ⟨q, -, rfl⟩ := Option.map_eq_some_iff.mp found
    simp [Processor.isLive, Suspension.isEmpty, Suspension.union, Suspension.zip]
  · exact settleTrapped found

end Grant

end Lockstep
