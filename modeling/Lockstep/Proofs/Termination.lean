import Mathlib.Algebra.Order.BigOperators.Group.Finset
import Mathlib.Data.Prod.Lex
import Lockstep.Proofs.Ledger
import Lockstep.Proofs.Rules
import Lockstep.Proofs.TimerLoad

/-! Runs to a target end. Where nothing more is armed, each pass of a run takes a firing off those
that are left up to the target, or brings a processor nearer to it, or puts one to sleep that
cannot be run, and none of these can go on for ever. -/
namespace Lockstep.Machine

def unarmed : Rule := fun _ command =>
  match command with
  | .schedule .. | .scheduleCycles .. | .adjustTimer .. => false
  | _ => true

def Eases (a b : Machine) : Prop :=
  a.timers.Filed → b.timers.Filed ∧ a.timers.Eased b.timers

section
variable {a b c m m' : Machine} {rule : Rule}

theorem Eases.same (timers : b.timers = a.timers) : Eases a b := by
  intro filed
  rw [timers]
  exact ⟨filed, .refl _⟩

theorem easesDrives : Drives Eases where
  trans first rest filed := by
    obtain ⟨filed', eased⟩ := first filed
    obtain ⟨filed'', eased'⟩ := rest filed'
    exact ⟨filed'', eased.trans eased'⟩
  quiet h := .same h.timers
  lent _ inner := inner

theorem timersRestart : Restarts fun a b => b.timers = a.timers where
  refl _ := rfl
  trans first rest := rest.trans first
  unit _ _ _ := rfl
  control _ := (traceSame ..).1
  enter _ := rfl
  place _ _ := rfl

theorem deedEases {command : Command} (allowed : unarmed a command = true)
    (deed : Deed command a b) : Eases a b := by
  cases deed with
  | schedule | scheduleCycles | adjustTimer => cases allowed
  | allocateTimer owner param => exact fun filed =>
      ⟨(Timer.Queue.occupyEdited ..).filed filed, Timer.Queue.occupyEased filed ..⟩
  | cancelTimer known => exact fun filed =>
      ⟨Timer.Queue.cancelEdited.filed filed, Timer.Queue.cancelEased⟩
  | removeTimer known => exact fun filed =>
      ⟨Timer.Queue.removeEdited.filed filed, Timer.Queue.removeEased⟩
  | map routed named ok =>
    obtain rfl | ⟨_, _, -, rfl⟩ := mapInv ok
    · exact .same rfl
    · exact .same rfl
  | suspend ok => exact .same (timersRestart.suspend ok)
  | resume ok => exact .same (timersRestart.resume ok)
  | driveLine ok => exact .same (timersRestart.driveLine ok)
  | driveReset ok => exact .same (timersRestart.driveReset ok)
  | spin ok => exact .same (timersRestart.spin ok)
  | requestYield => exact .same (timersRestart.yield a)
  | boostInterleave quantum duration => exact .same (timersRestart.yield _)
  | setRegister ok =>
    obtain ⟨d, d', -, -, rfl⟩ := setRegisterInv ok
    exact .same rfl
  | emit event => exact .same (traceSame a event).1
  | _ => exact .same rfl

theorem unarmedObeys : Obeys unarmed fun _ => Run.Follows Eases :=
  easesDrives.carries.obeys deedEases

end

abbrev Ends {α : Type} (x : Run α) (m : Machine) : Prop := (x m).isSome = true

section
variable {α β : Type} {m : Machine} {call : Callback}

theorem endsBind {x : Run α} {f : α → Run β} (first : Ends x m) (rest : ∀ a m, Ends (f a) m) :
    Ends (x >>= f) m := by
  obtain ⟨⟨a, m'⟩, ran⟩ := Option.isSome_iff_exists.mp first
  unfold Ends
  rw [Run.bindSome ran]
  exact rest a m'

theorem endsPlays : Plays fun _ x _ m => Ends x m where
  pure _ := rfl
  bind := endsBind
  get h := h
  touch _ := rfl
  pulse _ := rfl

theorem endsModify (g : Machine → Machine) (m : Machine) : Ends (modify g) m := rfl

def answering (call : Callback) : Callback := fun script m =>
  (call script m).or (some (.absent, m))

theorem answeringEnds (call : Callback) (script : Script) (m : Machine) :
    Ends (answering call script) m := by
  unfold Ends answering
  cases call script m <;> rfl

section
variable (calls : ∀ s m, Ends (call s) m)
include calls

theorem dispatchEnds (fired : Timer.Fired) (m : Machine) : Ends (dispatch call fired) m := by
  refine endsBind (endsModify _ m) fun _ m => ?_
  rw [Ends, Run.getBind]
  cases m.idle fired.owner with
  | error e => rfl
  | ok device =>
    refine endsBind (endsModify _ m) fun _ m => ?_
    cases device with
    | peripheral p =>
      refine endsBind ?_ fun _ m => endsModify _ m
      exact endsPlays.discard (y := pure .absent) (calls _ m)
    | acc8 | sequencer => exact endsModify _ m

theorem grantEnds (unit cycles : Nat) (id : DeviceId) (m : Machine) :
    Ends (grant call unit cycles id) m := by
  rw [Ends, grant, Run.getBind]
  cases m.idle id with
  | error e => rfl
  | ok device =>
    refine endsBind (endsModify _ m) fun _ m => ?_
    refine endsBind (@Plays.runDevice _ endsPlays call call calls unit cycles id _ m) fun outcome m => ?_
    refine endsBind (endsModify _ m) fun _ m => ?_
    cases outcome <;> rfl

theorem sliceEnds (unit : Nat) (target : Time) (m : Machine) :
    Ends (runSlice call unit target) m := by
  rw [Ends, runSlice, Run.getBind]
  cases m.units[unit]? with
  | none => rfl
  | some p =>
    refine endsBind (endsModify _ m) fun _ m => endsBind (endsModify _ m) fun _ m => ?_
    refine endsBind (endsModify _ m) fun _ m => endsBind (grantEnds calls unit _ _ m) fun outcome m => ?_
    refine endsBind (endsModify _ m) fun _ m => ?_
    cases outcome <;> rfl

theorem passEnds (target : Time) (m : Machine) : Ends (pass call target) m := by
  unfold Ends pass
  rw [Run.getBind]
  dsimp only
  generalize m.leastAdvanced?.elim target (fun row => min row.2 target) = limit
  cases m.timers.popDue limit with
  | some row =>
    exact endsBind (rfl : Ends (set _) m) fun _ m =>
      endsBind (dispatchEnds calls row.1 m) fun _ _ => rfl
  | none =>
    refine endsBind (rfl : Ends (set _) m) fun _ m₁ => ?_
    cases m.leastAdvanced? with
    | none => rfl
    | some row =>
      dsimp only
      split
      · rfl
      · exact endsBind (sliceEnds calls row.1 target m₁) fun _ _ => rfl

end

end

def Passes (rule : Rule) (target : Time) : Machine → Machine → Prop :=
  Relation.ReflTransGen fun a b => ∃ depth, pass (invokeUnder rule depth) target a = some (true, b)

/-- All callbacks of the run return: no pass would go differently if those that have no answer,
however deep they may nest, were given one. -/
def Returning (rule : Rule) (target : Time) (m : Machine) : Prop :=
  ∀ m', Passes rule target m m' → ∃ depth,
    pass (answering (invokeUnder rule depth)) target m' = pass (invokeUnder rule depth) target m'

section
variable {m m' : Machine} {rule : Rule} {target : Time} {depth : Nat}

theorem returningPass (returning : Returning rule target m) : ∃ depth,
    Ends (pass (invokeUnder rule depth) target) m := by
  obtain ⟨depth, same⟩ := returning m .refl
  refine ⟨depth, ?_⟩
  unfold Ends
  rw [← same]
  exact passEnds (answeringEnds _) target m

theorem returningNext (returning : Returning rule target m)
    (ran : pass (invokeUnder rule depth) target m = some (true, m')) :
    Returning rule target m' :=
  fun m'' passes => returning m'' (.head ⟨depth, ran⟩ passes)

theorem underActs (rule : Rule) (depth : Nat) (s : Script) (m : Machine) :
    Acts (invokeUnder rule depth s) m := fun r m' ran =>
  invokeActs depth s m r m' (invokeSteps rule depth s m r m' ran).1

def shortfall (m : Machine) (target : Time) : Nat :=
  ∑ i ∈ Finset.range m.units.size,
    (m.units[i]?).elim 0 fun p => target.attos - p.localTime.attos

def liveCount (m : Machine) : Nat :=
  ((Finset.range m.units.size).filter fun i => (m.units[i]?).elim false (·.isLive)).card

def remaining (m : Machine) (target : Time) : ℕ ×ₗ ℕ ×ₗ ℕ :=
  toLex (m.timers.load target, toLex (m.shortfall target, m.liveCount))

theorem remainingFired (less : m'.timers.load target < m.timers.load target) :
    m'.remaining target < m.remaining target :=
  Prod.Lex.toLex_lt_toLex.mpr (.inl less)

theorem remainingCloser (load : m'.timers.load target ≤ m.timers.load target)
    (closer : m'.shortfall target < m.shortfall target) : m'.remaining target < m.remaining target := by
  rcases Nat.lt_or_eq_of_le load with less | same
  · exact remainingFired less
  · exact Prod.Lex.toLex_lt_toLex.mpr (.inr ⟨same, Prod.Lex.toLex_lt_toLex.mpr (.inl closer)⟩)

theorem remainingFewer (load : m'.timers.load target ≤ m.timers.load target)
    (same : m'.shortfall target = m.shortfall target) (fewer : m'.liveCount < m.liveCount) :
    m'.remaining target < m.remaining target := by
  rcases Nat.lt_or_eq_of_le load with less | level
  · exact remainingFired less
  · exact Prod.Lex.toLex_lt_toLex.mpr
      (.inr ⟨level, Prod.Lex.toLex_lt_toLex.mpr (.inr ⟨same, fewer⟩)⟩)

theorem shortfallLess {unit : Nat} {p p' : Processor} (size : m'.units.size = m.units.size)
    (each : ∀ {i : Nat} {q : Processor}, m.units[i]? = some q →
      ∃ q', m'.units[i]? = some q' ∧ q.localTime ≤ q'.localTime)
    (found : m.units[unit]? = some p) (before : p.localTime < target)
    (found' : m'.units[unit]? = some p') (later : p.localTime < p'.localTime) :
    m'.shortfall target < m.shortfall target := by
  unfold shortfall
  rw [size]
  refine Finset.sum_lt_sum (fun i mem => ?_) ⟨unit, ?_, ?_⟩
  · obtain ⟨q, row⟩ : ∃ q, m.units[i]? = some q :=
      ⟨_, Array.getElem?_eq_getElem (Finset.mem_range.mp mem)⟩
    obtain ⟨q', row', forward⟩ := each row
    rw [row, row']
    exact Nat.sub_le_sub_left forward _
  · exact Finset.mem_range.mpr (Array.getElem?_eq_some_iff.mp found).1
  · rw [found, found']
    simp only [Option.elim, Time.lt_def] at *
    omega

theorem shortfallSame (size : m'.units.size = m.units.size)
    (each : ∀ {i : Nat} {q : Processor}, m.units[i]? = some q →
      ∃ q', m'.units[i]? = some q' ∧ q'.localTime = q.localTime) :
    m'.shortfall target = m.shortfall target := by
  unfold shortfall
  rw [size]
  refine Finset.sum_congr rfl fun i mem => ?_
  obtain ⟨q, row⟩ : ∃ q, m.units[i]? = some q :=
    ⟨_, Array.getElem?_eq_getElem (Finset.mem_range.mp mem)⟩
  obtain ⟨q', row', same⟩ := each row
  rw [row, row', Option.elim_some, Option.elim_some, same]

theorem liveFewer {unit : Nat} {p p' : Processor} (size : m'.units.size = m.units.size)
    (others : ∀ {i : Nat}, i ≠ unit → m'.units[i]? = m.units[i]?)
    (found : m.units[unit]? = some p) (live : p.isLive = true)
    (found' : m'.units[unit]? = some p') (asleep : p'.isLive = false) :
    m'.liveCount < m.liveCount := by
  unfold liveCount
  rw [size]
  have within := Finset.mem_range.mpr (Array.getElem?_eq_some_iff.mp found).1
  refine Finset.card_lt_card (Finset.ssubset_iff_of_subset (fun i mem => ?_) |>.mpr ⟨unit, ?_, ?_⟩)
  · obtain ⟨bound, awake⟩ := Finset.mem_filter.mp mem
    have other : i ≠ unit := by
      rintro rfl
      rw [found', Option.elim_some, asleep] at awake
      cases awake
    rw [others other] at awake
    exact Finset.mem_filter.mpr ⟨bound, awake⟩
  · exact Finset.mem_filter.mpr ⟨within, by rw [found]; exact live⟩
  · intro mem
    have awake := (Finset.mem_filter.mp mem).2
    rw [found', Option.elim_some, asleep] at awake
    cases awake

theorem grantStays {call : Callback} {unit cycles : Nat} {id : DeviceId}
    (ran : grant call unit cycles id m = some (none, m')) : m'.units = m.units := by
  obtain ⟨-, rfl⟩ | ⟨device, out, m₁, -, runs, ⟨-, rfl, rfl⟩ | ⟨device', count, ended, -⟩⟩ :=
    grantInv ran
  · rfl
  · obtain ⟨-, rfl⟩ | ⟨_, _, _, _, _, _, became, -⟩ | ⟨_, _, _, _, became⟩ := deviceCases runs
    · rfl
    · cases became
    · cases became
  · cases ended

section
variable {g : Grant} {count : Nat} {trap : Option Trap}

theorem periodPositive (p : Processor) : 1 ≤ p.period.attos := by
  unfold Processor.period
  rw [Time.attos_max]
  exact Nat.le_max_right ..

theorem settleLater (before : g.start < .never) {q : Processor} (row : m.units[g.unit]? = some q) :
    ∃ p', (m.settle g.unit g.cycles count trap g.start).units[g.unit]? = some p' ∧
      g.start < p'.localTime := by
  obtain ⟨p', after, kept⟩ := (settleKept row g.cycles count trap g.start).each (unitModified row _)
  refine ⟨p', after, Nat.lt_of_lt_of_le ?_ kept.forward⟩
  have positive := periodPositive q
  have charged : 1 ≤ if count = 0 then g.cycles else count := by
    have := g.cyclesPos
    split <;> omega
  have cost := Nat.mul_le_mul positive charged
  rw [Time.lt_def] at before
  simp only [Time.attos_add, Time.attos_scale, Time.attos_never] at *
  omega

theorem disabledRemaining (units : m.units = g.opened.units) (live : g.processor.isLive = true)
    (load : m.timers.load target ≤ g.machine.timers.load target) :
    (g.concluded none m).remaining target < g.machine.remaining target := by
  obtain ⟨beside, -, -, -, -, opened⟩ := g.openedSame
  have others : ∀ {i : Nat}, i ≠ g.unit → (m.units.modify g.unit fun p =>
      { p with suspension := p.suspension.union { disabled := true } })[i]? =
        g.machine.units[i]? := by
    intro i away
    rw [Array.getElem?_modify, if_neg away.symm, units, beside.others away]
  have asleep : (m.units.modify g.unit fun p =>
      { p with suspension := p.suspension.union { disabled := true } })[g.unit]? =
        some { g.processor with
          yieldRequested := false
          suspension := g.processor.suspension.union { disabled := true } } := by
    rw [Array.getElem?_modify, if_pos rfl, units, opened]
    rfl
  have size : (m.units.modify g.unit fun p =>
      { p with suspension := p.suspension.union { disabled := true } }).size =
        g.machine.units.size := by
    rw [Array.size_modify, units]
    simp [Grant.opened, traceUnits, modifyUnit]
  refine remainingFewer load (shortfallSame size fun {i q} row => ?_)
    (liveFewer size others g.found live asleep ?_)
  · by_cases away : i = g.unit
    · subst away
      rw [g.found] at row
      cases row
      exact ⟨_, asleep, rfl⟩
    · exact ⟨q, (others away).trans row, rfl⟩
  · simp [Processor.isLive, Suspension.isEmpty, Suspension.union, Suspension.zip]

theorem settledRemaining (closed : g.Closed (m.settle g.unit g.cycles count trap g.start))
    (before : g.start < target) (early : target < .never)
    (load : (m.settle g.unit g.cycles count trap g.start).timers.load target ≤
      g.machine.timers.load target) :
    (m.settle g.unit g.cycles count trap g.start).remaining target <
      g.machine.remaining target := by
  have forward := forwardClosed closed
  obtain ⟨own, after, -⟩ := closed.own
  obtain ⟨q, row⟩ : ∃ q, m.units[g.unit]? = some q := by
    cases row : m.units[g.unit]? with
    | some q => exact ⟨q, rfl⟩
    | none =>
      unfold settle at after
      rw [row] at after
      cases row.symm.trans after
  obtain ⟨p', settled, later⟩ := settleLater (Nat.lt_trans before early) row
  refine remainingCloser load
    (shortfallLess closed.size (fun {i q} found => ?_) g.found before settled later)
  obtain ⟨q', found', -, -, time⟩ := forward.each found
  exact ⟨q', found', time⟩

theorem sliceRemaining {u : Unit} (only : g.machine.OnlyAcc8) (filed : g.machine.timers.Filed)
    (level : g.machine.timers.now = g.start) (live : g.processor.isLive = true)
    (before : g.start < g.target) (early : g.target < .never)
    (ran : runSlice (invokeUnder unarmed depth) g.unit g.target g.machine = some (u, m')) :
    g.Closed m' ∧ m'.remaining g.target < g.machine.remaining g.target := by
  have calls := unarmedObeys.invoke depth
  have closes := Grant.grantedCloses (underActs unarmed depth) level (only _)
  unfold Watch.Ensures at closes
  have granted := ran
  rw [← grantedSlice] at granted
  have closed := closes.2.2 u m' granted
  obtain ⟨-, eased⟩ := (easesDrives.carries.runSlice calls g.unit g.target g.machine u m' ran).2 filed
  refine ⟨closed, ?_⟩
  obtain ⟨outcome, m₁, grants, rfl⟩ := sliceInv ran
  cases outcome with
  | none => exact disabledRemaining (grantStays grants) live (eased.load _)
  | some row => exact settledRemaining closed before early (eased.load _)

end

theorem passRemaining (fair : Fair m) (only : m.OnlyAcc8) (early : target < .never)
    (ran : pass (invokeUnder unarmed depth) target m = some (true, m')) :
    Fair m' ∧ m'.OnlyAcc8 ∧ m'.remaining target < m.remaining target := by
  have acts := underActs unarmed depth
  have calls := unarmedObeys.invoke depth
  cases passInv ran with
  | fires due ran =>
    obtain ⟨fair₁, first, -⟩ := popFair fair (horizonLive target) due
    have kept := effectKept (dispatchActs acts _ _ _ m' ran)
    have filed := fair₁.sound.toFiled
    obtain ⟨-, eased⟩ := (easesDrives.carries.dispatch calls _ _ _ m' ran).2 filed
    obtain ⟨key, rest, s, taken⟩ := Timer.Queue.popCases fair.sound.toFiled due
    refine ⟨fairKept fair₁ kept, kept.toForward.acc8 (first.acc8 only), remainingFired ?_⟩
    have one := Timer.Queue.popLoad taken fair.sound.toFiled (horizonTarget m target) early
    have rest := eased.load target
    dsimp only at rest
    omega
  | @slices _ p _ next ran =>
    obtain ⟨fair₁, first, level, armed⟩ := nextFair fair next
    obtain ⟨closed, less⟩ := sliceRemaining (g := next.grant) (first.acc8 only) fair₁.sound.toFiled
      level next.live next.before early ran
    have bounds := next.grant.finishBounds fair₁.sound next.before armed
    refine ⟨fairClosed fair₁ level bounds.1 closed, ((forwardClosed closed).acc8 (first.acc8 only)), ?_⟩
    refine lt_of_lt_of_le less ?_
    have eased := (Timer.Queue.setNowEased (q := m.timers) p.localTime).load target
    rcases Nat.lt_or_eq_of_le eased with fewer | equal
    · exact le_of_lt (remainingFired fewer)
    · exact le_of_eq (congrArg (fun n => toLex (n, toLex (m.shortfall target, m.liveCount))) equal)

theorem passDeeper {deeper : Nat} {on : Bool} (deep : depth ≤ deeper)
    (ran : pass (invokeUnder rule depth) target m = some (on, m')) :
    pass (invoke deeper) target m = some (on, m') :=
  ((stepsCarries rule).pass (invokeDeeper (stepsObeys rule) deep) (fun due => .single (.pop due))
    (fun none => .single (.wait none)) target m on m' ran).1

theorem untilEnds (fair : Fair m) (only : m.OnlyAcc8) (early : target < .never)
    (returning : Returning unarmed target m) : ∃ depth fuel m', ∀ deeper more, depth ≤ deeper →
      fuel ≤ more → runUntil (invoke deeper) target more m = some ((), m') := by
  generalize left : m.remaining target = n
  induction n using WellFoundedLT.induction generalizing m with
  | ind n ih =>
    obtain ⟨depth, ends⟩ := returningPass returning
    obtain ⟨⟨on, b⟩, ran⟩ := Option.isSome_iff_exists.mp ends
    cases on with
    | false =>
      refine ⟨depth, 1, b, fun deeper more deep long => ?_⟩
      obtain ⟨more, rfl⟩ := Nat.exists_eq_add_of_le' long
      rw [untilPass, Run.bindSome (passDeeper deep ran)]
      rfl
    | true =>
      obtain ⟨fair', only', less⟩ := passRemaining fair only early ran
      obtain ⟨further, fuel, m', rest⟩ :=
        ih _ (left ▸ less) fair' only' (returningNext returning ran) rfl
      refine ⟨max depth further, fuel + 1, m', fun deeper more deep long => ?_⟩
      obtain ⟨more, rfl⟩ := Nat.exists_eq_add_of_le' (Nat.le_trans (Nat.le_add_left 1 fuel) long)
      rw [untilPass, Run.bindSome (passDeeper (Nat.le_trans (Nat.le_max_left ..) deep) ran)]
      exact rest deeper more (Nat.le_trans (Nat.le_max_right ..) deep) (Nat.le_of_succ_le_succ long)

theorem turnStops {call : Callback} {unit : Nat} {port : Acc8.Port Run} {cpu : Acc8}
    (stop : m.mustStop unit = true) :
    ((Recorder.ledger call).turn unit port.quiet cpu).result m = some ((cpu, false), m) := by
  unfold Recorder.turn Watch.result
  rw [Watch.getBind, if_pos stop]
  rfl

theorem turnGoes {call : Callback} {unit : Nat} {port : Acc8.Port Run} {cpu cpu' : Acc8}
    {m' : Machine} (on : ((Recorder.ledger call).turn unit port.quiet cpu).result m = some ((cpu', true), m')) :
    m.mustStop unit = false := by
  refine Bool.eq_false_iff.mpr fun stop => ?_
  rw [turnStops stop] at on
  cases on

section
variable {call : Callback} (calls : ∀ s m, Acts (call s) m) {port : Acc8.Port Run}
  (kept : port.Keeps Kept)
include calls kept

theorem loopEnough (unit bound extra : Nat) (cpu : Acc8) (small : m.budget ≤ budgetLimit)
    (enough : m.budget ≤ bound) : acc8Loop call unit port (bound + extra) cpu m =
      acc8Loop call unit port bound cpu m := by
  have follows := Recorder.ledgerFollows call
  induction bound generalizing cpu m with
  | zero =>
    have stop : m.mustStop unit = true := by
      have spent : m.budget ≤ 0 := enough
      simp [mustStop, spent]
    cases extra with
    | zero => rfl
    | succ extra =>
      rw [Nat.zero_add, Recorder.loopTurn follows, Run.bindSome (turnStops stop)]
      rfl
  | succ bound ih =>
    rw [Nat.add_right_comm, Recorder.loopTurn follows, Recorder.loopTurn follows]
    refine Run.bindCongr rfl fun row m' ran => ?_
    obtain ⟨cpu', on⟩ := row
    cases on with
    | false => rfl
    | true =>
      have turn := turnAccounted calls kept unit cpu small
      unfold Watch.Ensures at turn
      rw [show ((Recorder.ledger call).turn unit port.quiet cpu m).2 = _ from ran] at turn
      have paid := turn.1.ends _ _ rfl
      have positive := turn.2 (turnGoes ran) rfl
      exact ih cpu' (by omega) (by omega)

end

end

/-- In a machine whose callbacks return and arm nothing, a run to any target but the last time
ends, and it ends the same way however much deeper its callbacks may nest and however many more
passes it may take. The bound on the instructions of a slice does not cut it off either. -/
theorem runsEnd {depth : Nat} {origin m : Machine} {events : List Event} {target : Time}
    (built : Built (invoke depth) origin) (only : origin.OnlyAcc8)
    (h : History (invoke depth) origin events (some m)) (early : target < .never)
    (returning : Returning unarmed target m) :
    (∃ nesting fuel m', ∀ deeper more, nesting ≤ deeper → fuel ≤ more →
      runUntil (invoke deeper) target more m = some ((), m')) ∧
    ∀ (nesting unit cycles extra : Nat) (program io : SpaceId) (cpu : Acc8) (s : Machine),
      s.budget ≤ (min cycles budgetLimit : Nat) →
        acc8Loop (invoke nesting) unit (acc8Port (invoke nesting) program io)
            (min cycles budgetLimit + extra) cpu s =
          acc8Loop (invoke nesting) unit (acc8Port (invoke nesting) program io)
            (min cycles budgetLimit) cpu s := by
  obtain ⟨fair, forward, -⟩ := (historyPassed (invokeActs depth) built only h).ends () m rfl
  refine ⟨untilEnds fair (forward.acc8 only) early returning,
    fun nesting unit cycles extra program io cpu s most => ?_⟩
  have acts := invokeActs nesting
  exact loopEnough acts (acc8PortKeeps acts program io) unit _ extra cpu (by omega) most

section
variable {m m' : Machine} {rule : Rule} {target : Time} {depth : Nat}

theorem answeringFollows (call : Callback) (s : Script) (m : Machine) :
    Run.Follows (fun _ _ => True) (call s) (answering call s) m := by
  intro r m' ran
  refine ⟨?_, trivial⟩
  unfold answering
  rw [ran]
  rfl

theorem looseCarries : Carries fun _ _ => True where
  refl _ := trivial
  trans _ _ := trivial
  touch _ := trivial
  tick _ := trivial
  lent _ _ := trivial

theorem passAnswered {call : Callback} (ends : Ends (pass call target) m) :
    pass (answering call) target m = pass call target m := by
  obtain ⟨⟨on, b⟩, ran⟩ := Option.isSome_iff_exists.mp ends
  rw [ran]
  exact (looseCarries.pass (answeringFollows call) (fun _ => trivial) (fun _ => trivial) target m on b ran).1

theorem returningRan {fuel : Nat} (ran : runUntil (invokeUnder rule depth) target fuel m = some ((), m')) :
    Returning rule target m := by
  have each : ∀ a, Passes rule target m a →
      ∃ fuel, runUntil (invokeUnder rule depth) target fuel a = some ((), m') := by
    intro a passes
    induction passes with
    | refl => exact ⟨fuel, ran⟩
    | tail _ last ih =>
      obtain ⟨fuel, ran⟩ := ih
      obtain ⟨other, other_⟩ := last
      cases fuel with
      | zero => cases ran
      | succ fuel =>
        rw [untilPass] at ran
        obtain ⟨on, b, first, rest⟩ := Run.bindInv ran
        have same := passDeeper (Nat.le_max_left other depth) other_
        rw [passDeeper (Nat.le_max_right other depth) first] at same
        cases same
        exact ⟨fuel, rest⟩
  intro a passes
  obtain ⟨fuel, ran⟩ := each a passes
  refine ⟨depth, passAnswered ?_⟩
  cases fuel with
  | zero => cases ran
  | succ fuel =>
    rw [untilPass] at ran
    obtain ⟨on, b, first, -⟩ := Run.bindInv ran
    exact Option.isSome_iff_exists.mpr ⟨_, first⟩

end

def sprint : Assembly :=
  ((Assembly.new { quantum := .zero } .builtin).extend "timer" ⟨0⟩ (.peripheral
    { name := "timer"
      start := fun id => .perform (.schedule id (.ofAttos 3) (.ofAttos 4) 0)
      timer := fun _ _ => .perform (.resume ⟨1⟩ { trapped := true }) })).extend
    "cpu" ⟨2000000000000000000⟩ (.acc8 (.new "cpu" { resetPc := some 0x200, illegalFatal := true }))

theorem sprintAssembled : Assembled sprint := ((Assembled.new _ _).extend _ _ _).extend _ _ _

def sprintReturns : Bool :=
  match sprint.build (invoke 3) with
  | some (none, m) => decide m.OnlyAcc8 &&
      (runUntil (invokeUnder unarmed 2) (.ofAttos 20) 60 m).isSome
  | _ => false

theorem sprintEnds : ∃ origin, Built (invoke 3) origin ∧ origin.OnlyAcc8 ∧
    Returning unarmed (.ofAttos 20) origin ∧
    ∃ nesting fuel m', ∀ deeper more, nesting ≤ deeper → fuel ≤ more →
      runUntil (invoke deeper) (.ofAttos 20) more origin = some ((), m') := by
  have returns : sprintReturns = true := by decide +kernel
  unfold sprintReturns at returns
  split at returns
  · rename_i origin started
    obtain ⟨only, ends⟩ := Bool.and_eq_true_iff.mp returns
    obtain ⟨⟨u, m'⟩, ran⟩ := Option.isSome_iff_exists.mp ends
    have built : Built (invoke 3) origin := ⟨sprint, sprintAssembled, started⟩
    have returning := returningRan ran
    exact ⟨origin, built, of_decide_eq_true only, returning,
      (runsEnd built (of_decide_eq_true only) .start (by decide) returning).1⟩
  · cases returns

end Lockstep.Machine
