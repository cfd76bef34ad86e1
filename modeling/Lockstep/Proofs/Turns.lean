import Lockstep.Proofs.Apart
import Lockstep.Proofs.Schedule

/-! A slice as the processor that runs in it sees it. Each boundary is a turn of the
processor on its own, so a slice is some number of turns, however it was cut; and it
changes nothing that belongs to another processor. -/
namespace Lockstep

namespace Machine
variable {m m' : Machine} {plan : Plan} {index : Nat} {w : Wiring}

theorem besideSame (timers : m'.timers = m.timers) (memory : m'.memory = m.memory)
    (spaces : m'.spaces = m.spaces) (units : m'.units = m.units) (tree : m'.tree = m.tree) :
    Beside index m m' :=
  ⟨timers, by rw [memory], fun id => by simp only [space?, spaces], fun _ => by rw [units],
    by rw [units], fun id => .inl (by simp only [seat?, tree]), fun c => .inl (by rw [memory])⟩

theorem besideNoted (h : Noted m m') : Beside index m m' := by
  obtain ⟨diag, journal, rfl⟩ := h
  exact besideSame rfl rfl rfl rfl rfl

theorem besideUnit {f : Processor → Processor}
    (same : ∀ p, m.units[index]? = some p → (f p).fixed = p.fixed) :
    Beside index m (m.modifyUnit index f) := by
  refine ⟨rfl, rfl, fun _ => rfl, fun away => ?_, ?_, fun _ => .inl rfl, fun _ => .inl rfl⟩
  · simp [Machine.modifyUnit, Array.getElem?_modify, Ne.symm away]
  · simp only [Machine.modifyUnit, Array.getElem?_modify, if_true]
    cases found : m.units[index]? with
    | none => rfl
    | some p => exact congrArg some (same p found)

theorem besidePorted {p : Processor} (found : m.units[index]? = some p)
    (wired : m.wiring? p.device = some w) (h : Ported w m m') : Beside index m m' := by
  refine ⟨h.timers, h.banks, h.layout, fun _ => by rw [h.units], by rw [h.units],
    fun id => .inl (by simp only [seat?, h.tree]), fun c => ?_⟩
  · by_cases hit : ∃ a, m.cell? w a = some (c, true)
    · obtain ⟨a, hit⟩ := hit
      exact .inr ⟨p, w, a, found, wired, hit⟩
    · exact .inl (h.bytes c fun a same => hit ⟨a, same⟩)

theorem soloOfBeside (h : Beside index m m') (p : Processor) (cpu : Acc8) :
    m'.soloOf plan p cpu w = { m.soloOf plan p cpu w with bytes := m'.bytes w } := by
  unfold soloOf alarms
  rw [sharesSame (h.cells w), h.timers]

theorem bytesSame (h : Beside index m m') (memory : m'.memory = m.memory) :
    m'.bytes w = m.bytes w := by
  funext a
  unfold Machine.bytes
  rw [h.cells, memory]

theorem notedInterrupt (m : Machine) (unit line : Nat) (vector : Option Nat) :
    Noted m (m.noteInterrupt unit line vector) := by
  unfold noteInterrupt
  dsimp only
  split
  · exact notedTrans (notedCount m _) (notedTrace _ _)
  · exact notedCount m _

theorem acknowledgeInv {call : Callback} {p : Processor} (found : m.units[index]? = some p)
    (quiet : p.lines.source = none) {line : Nat} {vector : Option Nat}
    (h : acknowledge call index line m = some (vector, m')) :
    vector.getD line = (Solo.accept p.lines line).1 ∧ Beside index m m' ∧ m'.frame = m.frame ∧
      m'.budget = m.budget ∧ m'.memory = m.memory ∧
      m'.units[index]? = some { p with lines := (Solo.accept p.lines line).2 } := by
  have noted : ∀ (s : Machine) (vector : Option Nat), Beside index m s → s.frame = m.frame →
      s.budget = m.budget → s.memory = m.memory → Beside index m (s.noteInterrupt index line vector) ∧
        (s.noteInterrupt index line vector).frame = m.frame ∧
        (s.noteInterrupt index line vector).budget = m.budget ∧
        (s.noteInterrupt index line vector).memory = m.memory ∧
        (s.noteInterrupt index line vector).units = s.units := by
    intro s vector beside frame budget memory
    obtain ⟨diag, journal, same⟩ := notedInterrupt s index line vector
    rw [same]
    exact ⟨beside.trans (besideSame rfl rfl rfl rfl rfl), frame, budget, memory, rfl⟩
  unfold acknowledge at h
  rw [Run.getBind, found, Option.bind_some] at h
  cases taken : p.lines.acknowledge? line with
  | none =>
    rw [taken] at h
    cases h
    obtain ⟨beside, frame, budget, memory, units⟩ := noted m none (.refl index m) rfl rfl rfl
    simp only [Solo.accept, taken]
    exact ⟨rfl, beside, frame, budget, memory, (congrArg (·[index]?) units).trans found⟩
  | some row =>
    obtain ⟨lines, answer⟩ := row
    have whole := taken
    rw [taken] at h
    obtain ⟨e, -, same⟩ := Option.map_eq_some_iff.mp taken
    rw [quiet] at same
    obtain ⟨changed, rfl⟩ := Prod.mk.inj same
    cases h
    have source : lines.source = none := by
      rw [← changed]
    have drawn : Beside index m (m.modifyUnit index fun q => { q with lines }) := by
      refine besideUnit fun q row => ?_
      rw [found] at row
      cases row
      simp only [Processor.fixed, source, quiet]
    obtain ⟨beside, frame, budget, memory, units⟩ := noted _ e.vector drawn rfl rfl rfl
    simp only [Solo.accept, whole]
    refine ⟨trivial, beside, frame, budget, memory, ?_⟩
    exact (congrArg (·[index]?) units).trans (unitModified found _)

end Machine

namespace Grant
open Machine (Beside budgetLimit)

structure Running (g : Grant) (plan : Plan) (w : Wiring) (m : Machine) (cpu : Acc8) (s : Solo)
    (spent : Nat) : Prop where
  wired : m.Wired w
  wiring : m.wiring? g.processor.device = some w
  frame : m.frame = some g.frame
  budget : m.budget = (min g.cycles budgetLimit : Nat) - (spent : Int)
  most : spent ≤ min g.cycles budgetLimit + 6
  seated : ∃ lines published, lines.source = none ∧
    m.units[g.unit]? = some { g.processor with lines, published, yieldRequested := false } ∧
      s = (m.soloOf plan { g.processor with lines } cpu w).spend spent

variable {g : Grant} {plan : Plan} {w : Wiring} {m m' : Machine} {cpu cpu' : Acc8} {s : Solo}
  {spent : Nat}

theorem runningTime (run : g.Running plan w m cpu s spent) (more : Nat)
    (left : spent + more < min g.cycles budgetLimit) : (s.spend more).localTime ≤ g.latest := by
  obtain ⟨lines, published, -, -, rfl⟩ := run.seated
  rw [Solo.spendSpend]
  exact Time.addMono (Time.scaleMono _ (by omega))

theorem runningStop (run : g.Running plan w m cpu s spent) :
    m.mustStop g.unit = decide (min g.cycles budgetLimit ≤ spent) := by
  obtain ⟨lines, published, -, found, -⟩ := run.seated
  have out : ((min g.cycles budgetLimit : Nat) - (spent : Int) ≤ 0) ↔
      min g.cycles budgetLimit ≤ spent := by omega
  unfold Machine.mustStop
  rw [found, run.budget, decide_eq_decide.mpr out]
  exact Bool.or_false _

theorem runningMove {s' : Solo} {spent' : Nat} (run : g.Running plan w m cpu s spent)
    (beside : Beside g.unit m m') (frame : m'.frame = m.frame)
    (budget : m'.budget = (min g.cycles budgetLimit : Nat) - (spent' : Int))
    (most : spent' ≤ min g.cycles budgetLimit + 6)
    (seated : ∃ lines published, lines.source = none ∧
      m'.units[g.unit]? = some { g.processor with lines, published, yieldRequested := false } ∧
        s' = (m'.soloOf plan { g.processor with lines } cpu' w).spend spent') :
    g.Running plan w m' cpu' s' spent' :=
  ⟨beside.wired run.wired, (beside.wiring _).trans run.wiring, frame.trans run.frame, budget, most, seated⟩

theorem runningLive (live : g.processor.isLive = true) (run : g.Running plan w m cpu s spent) :
    s.isLive = true := by
  obtain ⟨lines, published, -, -, rfl⟩ := run.seated
  exact live

theorem runningCpu (run : g.Running plan w m cpu s spent) : s.cpu = cpu := by
  obtain ⟨lines, published, -, -, rfl⟩ := run.seated
  rfl

theorem runningSane (run : g.Running plan w m cpu s spent) (sane : cpu.runState.isTrapped = false) :
    s.settle = s := by
  unfold Solo.settle
  rw [runningCpu run, if_neg (ne_true_of_eq_false sane)]

theorem publishRuns (run : g.Running plan w m cpu s spent) (registers : RegisterId → Option Nat) :
    Beside g.unit m (m.modifyUnit g.unit (·.publish registers)) ∧
      g.Running plan w (m.modifyUnit g.unit (·.publish registers)) cpu s spent := by
  have beside : Beside g.unit m (m.modifyUnit g.unit (·.publish registers)) :=
    Machine.besideUnit fun _ _ => rfl
  obtain ⟨lines, published, quiet, found, same⟩ := run.seated
  refine ⟨beside, runningMove run beside rfl run.budget run.most ?_⟩
  exact ⟨lines, _, quiet, Machine.unitModified found _, same⟩

structure Turned (g : Grant) (plan : Plan) (w : Wiring) (m : Machine) (s : Solo) (spent : Nat)
    (cpu' : Acc8) (m' : Machine) (s' : Solo) (spent' : Nat) : Prop where
  running : g.Running plan w m' cpu' s' spent'
  beside : Beside g.unit m m'
  prepared : Solo.Prepared cpu'
  further : spent ≤ spent'
  moved : spent < min g.cycles budgetLimit →
    spent < spent' ∧ Relation.TransGen (Solo.Ticks g.latest) s s'.settle
  ticks : Relation.ReflTransGen (Solo.Ticks g.latest) s s'.settle

section
variable (live : g.processor.isLive = true) (run : g.Running plan w m cpu s spent)
  (prepared : Solo.Prepared cpu) (left : spent < min g.cycles budgetLimit)
include live run prepared left

theorem turnOnce {cycles : Nat} (least : 1 ≤ cycles) (most : cycles ≤ Acc8.interruptCycles)
    (beside : Beside g.unit m m') (frame : m'.frame = m.frame) (budget : m'.budget = m.budget)
    (seated : ∃ lines published, lines.source = none ∧
      m'.units[g.unit]? = some { g.processor with lines, published, yieldRequested := false } ∧
        s.turn = ((m'.soloOf plan { g.processor with lines } cpu' w).spend cycles).spend spent) :
    g.Turned plan w m s spent cpu' (m'.charge cycles) s.turn (spent + cycles) := by
  have charged : (m'.charge cycles).budget = m'.budget - cycles :=
    chargeBudget most (by rw [budget, run.budget]; omega)
  have same := runningCpu run
  have spentBeside : Beside g.unit m (m'.charge cycles) :=
    beside.trans (Machine.besideSame rfl rfl rfl rfl rfl)
  have ticked : Solo.Ticks g.latest s s.turn.settle := by
    refine ⟨runningLive live run, ?_, (Solo.tickPrepared (by rw [same]; exact prepared)).symm⟩
    have early := runningTime run 0 left
    refine Nat.le_trans ?_ early
    simp only [Solo.spend, Time.attos_add]
    have := s.localTime.bounded
    omega
  obtain ⟨lines, published, quiet, found, turned⟩ := seated
  rw [Solo.spendSpend, Nat.add_comm] at turned
  refine ⟨runningMove run spentBeside frame ?_ ?_ ⟨lines, published, quiet, found, turned⟩,
    spentBeside, ?_, Nat.le_add_right .., fun _ => ⟨by omega, .single ticked⟩, .single ticked⟩
  · rw [charged, budget, run.budget]
    omega
  · unfold Acc8.interruptCycles at most
    omega
  · have after := Solo.turnPrepared (s := s) (by rw [same]; exact prepared)
    rw [turned] at after
    exact after
theorem stepRuns {call : Callback} {next : Acc8} {cycles : Nat}
    (accepted : s.cpu.pending (s.lines.isActive Acc8.nmiLine) (s.lines.isActive Acc8.irqLine) =
      (next, none)) (awake : next.runState ≠ .waiting)
    (stepped : next.step (Machine.acc8Port call w.program w.io) m = some ((cpu', cycles), m')) :
    g.Turned plan w m s spent cpu' (m'.charge cycles) s.turn (spent + cycles) := by
  obtain ⟨least, most⟩ := Acc8.stepCost stepped
  obtain ⟨out, ported, bytes⟩ := Acc8.stepRelated (Machine.portMirrors run.wired) next m
    (.refl w m) _ m' stepped
  obtain ⟨lines, published, quiet, found, same⟩ := run.seated
  have beside := Machine.besidePorted found run.wiring ported
  refine turnOnce live run prepared left least most beside ported.frame ported.budget
    ⟨lines, published, quiet, by rw [ported.units, found], ?_⟩
  subst same
  rw [Solo.spendTurn, Solo.turnStep (s := m.soloOf plan { g.processor with lines } cpu w) accepted
    awake, Machine.soloOfBeside beside, bytes]
  rw [show cpu' = _ from congrArg Prod.fst out, show cycles = _ from congrArg Prod.snd out]
  rfl

theorem enterRuns {call : Callback} {next : Acc8} {line : Nat} {vector : Option Nat}
    {m₁ m₂ : Machine}
    (accepted : s.cpu.pending (s.lines.isActive Acc8.nmiLine) (s.lines.isActive Acc8.irqLine) =
      (next, some line))
    (acknowledged : Machine.acknowledge call g.unit line m = some (vector, m₁))
    (entered : next.enter (Machine.acc8Port call w.program w.io) (vector.getD line) m₁ =
      some (cpu', m₂)) :
    g.Turned plan w m s spent cpu' (m₂.charge Acc8.interruptCycles) s.turn
      (spent + Acc8.interruptCycles) := by
  obtain ⟨lines, published, quiet, found, same⟩ := run.seated
  obtain ⟨answer, beside, frame, budget, memory, found₁⟩ :=
    Machine.acknowledgeInv found quiet acknowledged
  have quiet₁ : (Solo.accept lines line).2.source = none := by
    obtain ⟨p, row, fixed⟩ := beside.back found₁
    rw [found] at row
    cases row
    exact (Machine.processorFixed fixed).2.2.trans quiet
  have wired₁ := beside.wired run.wired
  obtain ⟨out, ported, bytes⟩ := Acc8.enterRelated (Machine.portMirrors wired₁) (vector.getD line)
    next m₁ (.refl w m₁) _ m₂ entered
  have beside₂ := beside.trans
    (Machine.besidePorted found₁ ((beside.wiring _).trans run.wiring) ported)
  refine turnOnce live run prepared left (by decide) (Nat.le_refl _) beside₂
    (ported.frame.trans frame) (ported.budget.trans budget)
    ⟨(Solo.accept lines line).2, published, quiet₁, by rw [ported.units, found₁], ?_⟩
  subst same
  rw [Solo.spendTurn, Solo.turnEnter (s := m.soloOf plan { g.processor with lines } cpu w) accepted,
    Machine.soloOfBeside beside₂, bytes, out, answer,
    Machine.sharesSame (beside.cells w), Machine.bytesSame beside memory]
  rfl

theorem waitRuns {next : Acc8}
    (accepted : s.cpu.pending (s.lines.isActive Acc8.nmiLine) (s.lines.isActive Acc8.irqLine) =
      (next, none)) (waiting : next.runState = .waiting) :
    g.Turned plan w m s spent next (m.charge m.budget.toNat)
      ({ s with cpu := next }.spend (min g.cycles budgetLimit - spent))
      (min g.cycles budgetLimit) := by
  have beside : Beside g.unit m (m.charge m.budget.toNat) :=
    Machine.besideSame rfl rfl rfl rfl rfl
  have same := runningCpu run
  have pending := Solo.pendingPrepared s.cpu (s.lines.isActive Acc8.nmiLine)
    (s.lines.isActive Acc8.irqLine) (by rw [same]; exact prepared)
  rw [accepted] at pending
  have slept : Relation.TransGen (Solo.Ticks g.latest) s
      ({ s with cpu := next }.spend (min g.cycles budgetLimit - spent)).settle := by
    have ticks := Solo.waitTicks (s := s) (by rw [same]; exact prepared)
      (runningLive live run) accepted waiting (min g.cycles budgetLimit - spent - 1)
      fun k less => runningTime run k (by omega)
    rw [show min g.cycles budgetLimit - spent - 1 + 1 = min g.cycles budgetLimit - spent by
      omega] at ticks
    have settled : ({ s with cpu := next }.spend (min g.cycles budgetLimit - spent)).settle =
        { s with cpu := next }.spend (min g.cycles budgetLimit - spent) := by
      simp [Solo.settle, Solo.spend, waiting, RunState.isTrapped, RunState.trap?]
    rw [settled]
    exact ticks
  refine ⟨runningMove run beside rfl ?_ (Nat.le_add_right ..) ?_, beside, pending,
    Nat.le_of_lt left, fun _ => ⟨left, slept⟩, slept.to_reflTransGen⟩
  · have most : min g.cycles budgetLimit ≤ budgetLimit := Nat.min_le_right ..
    unfold Machine.charge
    rw [run.budget]
    dsimp only
    omega
  · obtain ⟨lines, published, quiet, found, rfl⟩ := run.seated
    refine ⟨lines, published, quiet, found, ?_⟩
    have whole := Solo.spendSpend spent (min g.cycles budgetLimit - spent)
      (m.soloOf plan { g.processor with lines } next w)
    rw [Nat.add_sub_cancel' (Nat.le_of_lt left)] at whole
    exact whole

end

section
variable {call : Callback} (live : g.processor.isLive = true)
include live

theorem turnRuns (run : g.Running plan w m cpu s spent) (prepared : Solo.Prepared cpu)
    (sane : cpu.runState.isTrapped = false) :
    ((Recorder.starts call).turn g.unit (Machine.acc8Port call w.program w.io).quiet cpu).Ensures m
      fun _ r => ∀ cpu' on m', r = some ((cpu', on), m') →
        ∃ s' spent', g.Turned plan w m s spent cpu' m' s' spent' ∧
          (on = true → cpu'.runState.isTrapped = false) := by
  have stopped := runningStop run
  have begins : ∀ {m₁ next taken}, Recorder.Boundary g.unit cpu m m₁ next taken →
      spent < min g.cycles budgetLimit ∧ Beside g.unit m m₁ ∧
      g.Running plan w m₁ cpu s spent ∧
        s.cpu.pending (s.lines.isActive Acc8.nmiLine) (s.lines.isActive Acc8.irqLine) =
          (next, taken) := by
    rintro m₁ next taken ⟨goes, published, pending⟩
    obtain ⟨beside₁, run₁⟩ := publishRuns run cpu.get?
    cases published
    have active : ∀ line, (m.modifyUnit g.unit (·.publish cpu.get?)).lineActive g.unit line =
        s.lines.isActive line := by
      intro line
      obtain ⟨lines, published, -, found, rfl⟩ := run₁.seated
      unfold Machine.lineActive
      rw [found]
      rfl
    rw [active, active, ← runningCpu run₁] at pending
    rw [stopped, decide_eq_false_iff_not, Nat.not_le] at goes
    exact ⟨goes, beside₁, run₁, pending⟩
  have after : ∀ {m₁ cpu₁ m'}, Beside g.unit m m₁ →
      (∃ s' spent', g.Turned plan w m₁ s spent cpu₁ m' s' spent') →
      ∃ s' spent', g.Turned plan w m s spent cpu₁ m' s' spent' := by
    rintro m₁ cpu₁ m' beside₁ ⟨s', spent', turned⟩
    exact ⟨s', spent', { turned with beside := beside₁.trans turned.beside }⟩
  refine Recorder.plainEnsures (fun stop cpu' on m' h => ?_)
    (fun m₁ next boundary waiting cpu' on m' h => ?_) (fun _ _ _ _ _ _ _ h => by cases h)
    (fun m₁ next cpu₂ work m₂ boundary awake ran cpu' on m' h => ?_)
    fun m₁ next line vector m₂ cpu₂ m₃ boundary acknowledged entered cpu' on m' h => ?_
  · cases h
    rw [stopped, decide_eq_true_eq] at stop
    refine ⟨s, spent, ⟨run, .refl _ _, prepared, Nat.le_refl _, fun left => by omega, ?_⟩,
      fun h => by cases h⟩
    rw [runningSane run sane]
  · cases h
    obtain ⟨left, beside₁, run₁, accepted⟩ := begins boundary
    obtain ⟨s', spent', turned⟩ :=
      after beside₁ ⟨_, _, waitRuns live run₁ prepared left accepted waiting⟩
    exact ⟨s', spent', turned, fun h => by cases h⟩
  · cases h
    obtain ⟨left, beside₁, run₁, accepted⟩ := begins boundary
    obtain ⟨s', spent', turned⟩ := after beside₁
      ⟨_, _, stepRuns live run₁ prepared left accepted awake (Machine.stepWorkInv ran)⟩
    exact ⟨s', spent', turned, by simp⟩
  · cases h
    obtain ⟨left, beside₁, run₁, accepted⟩ := begins boundary
    obtain ⟨s', spent', turned⟩ :=
      after beside₁ ⟨_, _, enterRuns live run₁ prepared left accepted acknowledged entered⟩
    exact ⟨s', spent', turned, by simp⟩

theorem loopRuns (bound : Nat) (run : g.Running plan w m cpu s spent)
    (prepared : Solo.Prepared cpu) (sane : cpu.runState.isTrapped = false)
    (h : Machine.acc8Loop call g.unit (Machine.acc8Port call w.program w.io) bound cpu m =
      some (cpu', m')) :
    ∃ s' spent', g.Running plan w m' cpu' s' spent' ∧ Beside g.unit m m' ∧ spent ≤ spent' ∧
      (bound ≠ 0 → spent < min g.cycles budgetLimit →
        spent < spent' ∧ Relation.TransGen (Solo.Ticks g.latest) s s'.settle) ∧
      Relation.ReflTransGen (Solo.Ticks g.latest) s s'.settle := by
  induction bound generalizing m cpu s spent with
  | zero =>
    cases h
    refine ⟨s, spent, run, .refl _ _, Nat.le_refl _, fun none => absurd rfl none, ?_⟩
    rw [runningSane run sane]
  | succ bound ih =>
    rw [Recorder.loopTurn (Recorder.startsFollow call)] at h
    obtain ⟨⟨cpu₁, on⟩, m₁, turned, h⟩ := Run.bindInv h
    obtain ⟨s₁, spent₁, turn, sane₁⟩ := turnRuns live run prepared sane cpu₁ on m₁ turned
    cases on with
    | false =>
      cases h
      exact ⟨s₁, spent₁, turn.running, turn.beside, turn.further, fun _ => turn.moved, turn.ticks⟩
    | true =>
      obtain ⟨s₂, spent₂, run₂, beside₂, further, -, ticks⟩ :=
        ih turn.running turn.prepared (sane₁ rfl) h
      have first := turn.ticks
      have moved := turn.moved
      rw [runningSane turn.running (sane₁ rfl)] at first moved
      exact ⟨s₂, spent₂, run₂, turn.beside.trans beside₂, Nat.le_trans turn.further further,
        fun _ left => ⟨Nat.lt_of_lt_of_le (moved left).1 further, (moved left).2.trans_left ticks⟩,
        first.trans ticks⟩

variable (plan) in
theorem acc8Runs (wired : m.Wired w) (wiring : m.wiring? g.processor.device = some w)
    (quiet : g.processor.lines.source = none) (frame : m.frame = some g.frame)
    (budget : m.budget = (min g.cycles budgetLimit : Nat))
    (found : m.units[g.unit]? = some { g.processor with yieldRequested := false }) {count : Nat}
    (h : Machine.runAcc8 call g.unit g.cycles (Machine.acc8Port call w.program w.io) cpu m =
      some ((cpu', count), m')) :
    Beside g.unit m m' ∧ (cpu.runState.isTrapped = false → g.cycles ≤ budgetLimit →
      count ≠ 0 ∧ ∃ s', Relation.ReflTransGen (Solo.Ticks g.latest)
        (m.soloOf plan g.processor cpu w) s'.settle ∧ g.Running plan w m' cpu' s' count) := by
  have positive := g.cyclesPos
  unfold Machine.runAcc8 at h
  by_cases trapped : cpu.runState.isTrapped = true
  · rw [if_pos (by simp [trapped])] at h
    cases h
    exact ⟨.refl _ _, fun sane => absurd trapped (ne_true_of_eq_false sane)⟩
  · have sane : cpu.runState.isTrapped = false := by simpa using trapped
    rw [if_neg (by simp [sane]; omega)] at h
    obtain ⟨_, m₁, published, h⟩ := Run.bindInv h
    cases published
    have start : ∃ m₂, Beside g.unit m m₂ ∧ m₂.frame = m.frame ∧ m₂.budget = m.budget ∧
        m₂.units[g.unit]? = some ({ g.processor with yieldRequested := false }.publish cpu.get?) ∧
        m₂.bytes w = m.bytes w ∧
        (do let cpu ← Machine.acc8Loop call g.unit (Machine.acc8Port call w.program w.io)
              (min g.cycles budgetLimit) (m.soloOf plan g.processor cpu w).prepare.cpu
            return (cpu, Machine.consumed (← get)) : Run (Acc8 × Nat)) m₂ =
          some ((cpu', count), m') := by
      have beside : Beside g.unit m (m.modifyUnit g.unit (·.publish cpu.get?)) :=
        Machine.besideUnit fun _ _ => rfl
      have found₁ := Machine.unitModified found (·.publish cpu.get?)
      have bytes : (m.modifyUnit g.unit (·.publish cpu.get?)).bytes w = m.bytes w :=
        Machine.bytesSame beside rfl
      cases fetch : cpu.fetchResetVector with
      | false =>
        rw [fetch] at h
        have entered : (m.soloOf plan g.processor cpu w).prepare.cpu =
            if cpu.runState = .stopped then { cpu with runState := .running } else cpu := by
          simp [Solo.prepare, Machine.soloOf, fetch]
        rw [entered]
        exact ⟨_, beside, rfl, rfl, found₁, bytes, h⟩
      | true =>
        rw [fetch] at h
        obtain ⟨pc, m₂, read, h⟩ := Run.bindInv h
        obtain ⟨word, ported, bytes₂⟩ := Acc8.readWordRelated
          (Machine.portMirrors (beside.wired wired)) Acc8.resetVector _ (.refl w _) pc m₂ read
        rw [bytes, Machine.sharesSame (beside.cells w)] at word
        have entered : (m.soloOf plan g.processor cpu w).prepare.cpu =
            if cpu.runState = .stopped then
              { cpu with fetchResetVector := false, pc, runState := .running }
            else { cpu with fetchResetVector := false, pc } := by
          simp [Solo.prepare, Machine.soloOf, fetch, word]
        rw [entered]
        exact ⟨m₂, beside.trans (Machine.besidePorted found₁ ((beside.wiring _).trans wiring) ported),
          ported.frame, ported.budget, by rw [ported.units, found₁], bytes₂.trans bytes, h⟩
    obtain ⟨m₂, beside, frame₂, budget₂, found₂, bytes, h⟩ := start
    obtain ⟨cpu₂, m₃, looped, h⟩ := Run.bindInv h
    cases h
    have entered : g.Running plan w m₂ (m.soloOf plan g.processor cpu w).prepare.cpu
        ((m.soloOf plan g.processor cpu w).prepare.spend 0) 0 := by
      refine ⟨beside.wired wired, (beside.wiring _).trans wiring, frame₂.trans frame, ?_,
        Nat.zero_le _, g.processor.lines, _, quiet, found₂, ?_⟩
      · rw [budget₂, budget]
        omega
      · rw [Machine.soloOfBeside beside, bytes]
        rfl
    obtain ⟨s', spent', run, beside', -, moved, -⟩ := loopRuns live _ entered
      (Solo.preparedPrepare _) (Solo.prepareSane sane) looped
    refine ⟨beside.trans beside', fun _ short => ?_⟩
    have count : Machine.consumed m' = spent' := by
      have most := run.most
      rw [Nat.min_eq_left short] at most
      unfold Machine.consumed
      rw [run.frame]
      unfold Machine.consumedIn Word.clamp Word.largest Grant.frame
      unfold budgetLimit at short
      rw [run.budget, Nat.min_eq_left (by unfold budgetLimit; exact short)]
      dsimp only [Option.elim]
      omega
    have bound : min g.cycles budgetLimit ≠ 0 := by
      unfold budgetLimit
      omega
    obtain ⟨further, ticks⟩ := moved bound (Nat.pos_of_ne_zero bound)
    rw [count]
    refine ⟨by omega, s', Solo.ticksEntered live ?_ ticks, run⟩
    exact Time.leAdd ..

end

end Grant

end Lockstep
