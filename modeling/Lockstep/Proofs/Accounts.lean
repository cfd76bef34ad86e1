import Lockstep.Proofs.Ledger

/-! The books of a slice. Nothing but consuming cycles moves its balance, so the cycles consumed and
the present are those of what the processor has consumed, whatever it and its callbacks do besides.
A slice that gets nothing done is charged in full, so that time goes on. -/
namespace Lockstep

inductive Toll where
  | stands (machine : Machine)
  | spends (cycles : Nat)

namespace Toll

@[simp] def cost : Toll → Nat
  | .stands _ => 0
  | .spends cycles => cycles

end Toll

def paid (log : List Toll) : Nat := (log.map Toll.cost).sum

section
variable (toll : Toll) (log : List Toll)

@[simp] theorem paidNil : paid [] = 0 := rfl

@[simp] theorem paidCons : paid (toll :: log) = toll.cost + paid log := by
  simp only [paid, List.map_cons, List.sum_cons]

end

def Entry.toll : Entry → Toll
  | .start s => .stands s.machine
  | .stand m => .stands m
  | e => .spends e.cost

theorem paidEntries (entries : List Entry) : paid (entries.map Entry.toll) = cost entries := by
  induction entries with
  | nil => rfl
  | cons e rest ih => cases e <;> simp [Entry.toll, Entry.cost, ih]

namespace Machine

/-- What may happen while a processor has its slice, and the cycles that it consumes meanwhile. -/
inductive Lapse (unit : Nat) : List Nat → Machine → Machine → Prop where
  | still {m} : Lapse unit [] m m
  | act {costs a b c} (act : Act a b) (rest : Lapse unit costs b c) : Lapse unit costs a c
  | publish {costs a c} (read : RegisterId → Option Nat)
      (rest : Lapse unit costs (a.modifyUnit unit (·.publish read)) c) : Lapse unit costs a c
  | accept {costs a c line lines answer}
      (row : (a.units[unit]?).bind (·.lines.acknowledge? line) = some (lines, answer))
      (rest : Lapse unit costs (a.modifyUnit unit fun p => { p with lines }) c) :
      Lapse unit costs a c
  | consume {costs a c} (cycles : Nat) (rest : Lapse unit costs (a.charge cycles) c) :
      Lapse unit (cycles :: costs) a c

theorem sequencerInv {call : Callback} {unit cycles : Nat} {id : DeviceId} {s : Sequencer}
    {m m' : Machine} {outcome : Option (Nat × Option Trap)} (idle : m.idle id = .ok (.sequencer s))
    (ran : grant call unit cycles id m = some (outcome, m')) :
    (s.runnable = false ∧ outcome = none ∧ m'.units = m.units) ∨
    (s.runnable = true ∧ ∃ s' count m₁,
      runSequencer call unit cycles s (m.setBusy id true) = some ((s', count), m₁) ∧
      outcome = some (count, (Device.sequencer s').runState?.bind (·.trap?)) ∧
      m' = (m₁.setBusy id false).withDevice id (.sequencer s')) := by
  obtain ⟨out, m₁, runs, placed⟩ := grantPlaced idle ran
  unfold runDevice at runs
  cases runnable : s.runnable with
  | false =>
    simp only [runnable] at runs
    cases runs
    obtain ⟨rfl, -, rfl⟩ | ⟨_, _, -, same, -⟩ := placed
    · exact .inl ⟨rfl, rfl, rfl⟩
    · cases same
  | true =>
    simp only [runnable, if_true] at runs
    obtain ⟨row, m₂, played, runs⟩ := Run.bindInv runs
    cases runs
    obtain ⟨-, same, -⟩ | ⟨_, _, rfl, same, rfl⟩ := placed
    · cases same
    · cases same
      exact .inr ⟨rfl, row.1, row.2, m₁, played, rfl, rfl⟩

end Machine

namespace Grant
open Machine (Kept Lapse budgetLimit)

def tolls (g : Grant) (call : Callback) : List Toll := (g.ledger call).map Entry.toll

def executed (g : Grant) (call : Callback) : Nat :=
  match g.machine.idle g.processor.device with
  | .ok (.sequencer s) =>
      if s.runnable then ((s.plan g.cycles).findSome? Beat.names?).getD (paid (g.tolls call)) else 0
  | _ => paid (g.tolls call)

structure Books (g : Grant) (cycles : Nat) (m : Machine) : Prop where
  frame : m.frame = some g.frame
  clock : ∃ p, m.units[g.unit]? = some p ∧ p.clock = g.processor.clock
  budget : m.budget = (min g.cycles budgetLimit : Nat) - cycles

/-- What a context says of a slice in which so many cycles have been consumed. -/
structure Tells (g : Grant) (cycles : Nat) (m : Machine) : Prop where
  consumed : m.consumed = cycles
  now : m.now = g.start + g.processor.period.scale cycles

variable {g : Grant} {call : Callback} {m m' : Machine} {n : Nat}

theorem booksTell (granted : g.cycles ≤ budgetLimit) (books : g.Books n m)
    (small : n ≤ Word.largest) : g.Tells n m := by
  have consumed : m.consumedIn g.frame = n := by
    rw [Machine.consumedIn, books.budget]
    unfold Word.clamp frame
    dsimp only
    omega
  obtain ⟨p, found, clock⟩ := books.clock
  refine ⟨?_, ?_⟩
  · rw [Machine.consumed, books.frame, Option.elim_some, consumed]
  · unfold Machine.now
    rw [books.frame]
    dsimp only [frame]
    rw [found]
    change g.start + p.period.scale (m.consumedIn g.frame) = _
    rw [consumed, Processor.period, Processor.period, clock]

theorem booksKept (books : g.Books n m) (kept : Kept m m') : g.Books n m' := by
  obtain ⟨p, found, clock⟩ := books.clock
  obtain ⟨p', found', same⟩ := kept.each found
  exact ⟨kept.frame.trans books.frame, ⟨p', found', same.clock.trans clock⟩,
    kept.budget.trans books.budget⟩

theorem booksCharge (books : g.Books n m) {cycles : Nat} (small : n + cycles ≤ budgetLimit) :
    g.Books (n + cycles) (m.charge cycles) := by
  refine ⟨books.frame, books.clock, ?_⟩
  have before := books.budget
  unfold Machine.charge
  dsimp only
  omega

theorem booksOpened (g : Grant) : g.Books 0 g.opened := by
  obtain ⟨-, frame, -, -, -, found⟩ := g.openedSame
  refine ⟨frame, ⟨_, found, rfl⟩, ?_⟩
  rw [g.openedBudget]
  omega

theorem booksSeated (g : Grant) : g.Books 0 (g.opened.setBusy g.processor.device true) :=
  booksKept (booksOpened g) (.modifySeat fun _ _ => rfl)

theorem withinBooks (within : g.Within m)
    (left : m.budget + n = (min g.cycles budgetLimit : Nat)) : g.Books n m := by
  obtain ⟨p, found, kept⟩ := within.each g.found
  exact ⟨within.frame, ⟨p, found, kept.clock⟩, by omega⟩

theorem booksLapse {costs : List Nat} (lapse : Lapse g.unit costs m m') (books : g.Books n m)
    (small : n + costs.sum ≤ budgetLimit) : g.Books (n + costs.sum) m' := by
  induction lapse generalizing n with
  | still => exact books
  | act act _ ih => exact ih (booksKept books (Machine.actKept act)) small
  | publish read _ ih => exact ih (booksKept books (Machine.publishKept read ⟨⟩ _ rfl)) small
  | accept _ _ ih =>
    exact ih (booksKept books (.modifyUnit fun _ _ => .still rfl rfl rfl rfl id)) small
  | consume cycles _ ih =>
    rw [List.sum_cons, ← Nat.add_assoc] at small ⊢
    exact ih (booksCharge books (by omega)) small

theorem playedLedger {s : Sequencer} (idle : g.machine.idle g.processor.device = .ok (.sequencer s)) :
    g.ledger call = if s.runnable then ((Recorder.ledger call).sequencer g.unit g.cycles s
      (g.opened.setBusy g.processor.device true)).1 else [] := by
  rw [ledger, deviceLog _ idle]
  unfold Recorder.device
  dsimp only
  split
  · exact Watch.bindQuiet fun _ _ => rfl
  · rfl

structure Tolled (g : Grant) (n : Nat) {α : Type} (log : List Toll) (r : Option (α × Machine)) :
    Prop where
  each : ∀ before m after, log = before ++ .stands m :: after →
    n + paid before ≤ budgetLimit → g.Books (n + paid before) m
  ends : ∀ a m', r = some (a, m') → n + paid log ≤ budgetLimit → g.Books (n + paid log) m'

namespace Tolled
variable {α : Type} {log : List Toll} {r : Option (α × Machine)}

theorem still (a : α) (books : n ≤ budgetLimit → g.Books n m) : g.Tolled n [] (some (a, m)) := by
  refine ⟨fun before _ after same => ?_, fun _ _ same small => ?_⟩
  · cases before <;> cases same
  · cases same
    exact books small

theorem stuck : g.Tolled n [] (none : Option (α × Machine)) := by
  refine ⟨fun before _ after same => ?_, fun _ _ same => by cases same⟩
  cases before <;> cases same

theorem stands (books : n ≤ budgetLimit → g.Books n m) (rest : g.Tolled n log r) :
    g.Tolled n (.stands m :: log) r := by
  refine ⟨fun before m₁ after split small => ?_, fun a m' same small => ?_⟩
  · cases before with
    | nil =>
      cases split
      exact books small
    | cons toll before =>
      obtain ⟨rfl, tail⟩ := List.cons.inj split
      simpa using rest.each before m₁ after tail (by simpa using small)
  · simpa using rest.ends a m' same (by simpa using small)

theorem spends {cycles : Nat} (rest : g.Tolled (n + cycles) log r) :
    g.Tolled n (.spends cycles :: log) r := by
  refine ⟨fun before m₁ after split small => ?_, fun a m' same small => ?_⟩
  · cases before with
    | nil => cases split
    | cons toll before =>
      obtain ⟨rfl, tail⟩ := List.cons.inj split
      have books := rest.each before m₁ after tail (by simpa [Nat.add_assoc] using small)
      simpa [Nat.add_assoc] using books
  · simpa [Nat.add_assoc] using rest.ends a m' same (by simpa [Nat.add_assoc] using small)

end Tolled

section
variable (calls : ∀ s m, Machine.Acts (call s) m)
include calls

omit calls in
theorem beatQuiet {ω : Type} (call : Callback) (pen : Nat → Moment → List ω) (unit : Nat) (beat : Beat)
    (s : Sequencer) (m : Machine) : ((Recorder.plain call pen).beat unit beat s m).1 = [] := by
  cases beat with
  | consume | publish | setRegister | setRunState | finish => rfl
  | perform task => exact Watch.bindQuiet fun _ _ => rfl
  | inquire name inquiry =>
    refine (Watch.bindQuiet fun _ _ => rfl).trans ?_
    cases inquiry with
    | acknowledge line => exact Watch.bindQuiet fun _ _ => rfl
    | status | consumeUntilStop => rfl

theorem beatBooks {beat : Beat} {s s' : Sequencer} (books : g.Books n m)
    {notes : List Entry} (ran : (Recorder.ledger call).beat g.unit beat s m = (notes, some (s', m')))
    (small : n + beat.cost m g.unit ≤ budgetLimit) : g.Books (n + beat.cost m g.unit) m' := by
  have entered : ∀ {m : Machine} (entry : Activity), Kept m (m.enter entry) :=
    fun _ => .same rfl rfl rfl rfl rfl rfl
  cases beat with
  | consume cycles =>
    cases ran
    exact booksCharge books small
  | publish =>
    cases ran
    exact booksKept books (Machine.publishKept s.get? ⟨⟩ _ rfl)
  | setRegister | setRunState | finish =>
    cases ran
    exact books
  | perform task =>
    obtain ⟨_, reply, m₂, _, asking, rest, -⟩ := Watch.bindInv ran
    obtain ⟨-, asked⟩ := Watch.ofInv asking
    cases rest
    exact booksKept books ((Machine.callKept calls task.body m reply m₂ asked).trans (entered _))
  | inquire name inquiry =>
    obtain ⟨_, reply, m₂, _, asking, rest, -⟩ := Watch.bindInv ran
    cases rest
    cases inquiry with
    | status =>
      cases asking
      exact booksKept books (entered _)
    | acknowledge line =>
      obtain ⟨_, vector, m₃, _, accepting, answered, -⟩ := Watch.bindInv asking
      obtain ⟨-, accepted⟩ := Watch.ofInv accepting
      cases answered
      exact booksKept books
        ((Machine.acknowledgeKept calls line m vector m₂ accepted).trans (entered _))
    | consumeUntilStop cycles =>
      cases asking
      suffices counted : g.Books (n + m.roundsUntilStop g.unit cycles * cycles)
          { m with budget := m.budget -
              (m.roundsUntilStop g.unit cycles * min cycles budgetLimit : Nat) } from
        booksKept counted (entered _)
      refine ⟨books.frame, books.clock, ?_⟩
      have before := books.budget
      dsimp only [Beat.cost] at small ⊢
      generalize m.roundsUntilStop g.unit cycles = count at small ⊢
      -- a count that is not too large for the balance is one of cycles that are not cut
      rcases Nat.eq_zero_or_pos count with rfl | some_
      · simpa using before
      · have short : cycles ≤ budgetLimit := by
          have := Nat.le_mul_of_pos_left cycles some_
          omega
        rw [Nat.min_eq_left short, before]
        omega

theorem beatsTolled (beats : List Beat) (s : Sequencer) (books : n ≤ budgetLimit → g.Books n m) :
    ((Recorder.ledger call).beats g.unit beats s).Ensures m fun entries r =>
      g.Tolled n (entries.map Entry.toll) r ∧ ∀ s' count m', r = some ((s', count), m') →
        count = (beats.findSome? Beat.names?).getD m'.consumed := by
  induction beats generalizing s m n with
  | nil =>
    refine Watch.ensuresGet ⟨.still _ books, fun s' count m' same => ?_⟩
    cases same
    rfl
  | cons beat rest ih =>
    unfold Recorder.beats
    rw [List.findSome?_cons]
    cases names : beat.names? with
    | some cycles =>
      refine ⟨.still _ books, fun s' count m' same => ?_⟩
      cases same
      rfl
    | none =>
      have quiet := beatQuiet call Moment.entries g.unit beat s m
      refine Watch.ensuresJot (Watch.ensuresBind (fun _ => ?_) fun s₁ m₁ ran => Watch.ensuresJot ?_)
      · rw [show ((Recorder.ledger call).beat g.unit beat s m).1 = [] from quiet]
        exact ⟨.spends .stuck, fun _ _ _ same => by cases same⟩
      rw [show ((Recorder.ledger call).beat g.unit beat s m).1 = [] from quiet]
      have after : n + beat.cost m g.unit ≤ budgetLimit → g.Books (n + beat.cost m g.unit) m₁ :=
        fun small => beatBooks calls (books (by omega)) (Prod.ext rfl ran) small
      exact Watch.ensuresMono (ih s₁ after) fun entries r rest =>
        ⟨.spends (.stands after rest.1), rest.2⟩

theorem sequencerTolled (cycles : Nat) (s : Sequencer) (books : g.Books n m) :
    ((Recorder.ledger call).sequencer g.unit cycles s).Ensures m fun entries r =>
      g.Tolled n (entries.map Entry.toll) r ∧ ∀ s' count m', r = some ((s', count), m') →
        count = ((s.plan cycles).findSome? Beat.names?).getD m'.consumed := by
  refine Watch.ensuresOf (fun same => by cases same) fun _ m₁ entered => Watch.ensuresJot ?_
  cases entered
  have after : n ≤ budgetLimit → g.Books n (m.enter (.run s.name g.unit cycles cycles)) :=
    fun _ => booksKept books (.same rfl rfl rfl rfl rfl rfl)
  exact Watch.ensuresMono (beatsTolled calls (s.plan cycles) _ after) fun entries r played =>
    ⟨.stands after played.1, played.2⟩

theorem seatedStarted {cpu : Acc8} {w : Wiring} (seated : g.Seated cpu w) {s : Start}
    (starts : s ∈ (g.ledger call).filterMap Entry.start?) : g.Started s := by
  have acc8 : g.machine.classOf? g.processor.device ≠ some .sequencer := by
    obtain ⟨node, place, kind, -⟩ := Machine.idleInv seated.idle
    rw [Machine.classOf?, place, Option.map_some, kind]
    nofun
  have counted := grantCounted calls g.processor.device acc8 (withinOpened g)
    (by rw [g.openedBudget]; exact g.budgetPos)
  refine counted.1.started s ?_
  rw [show ((Recorder.starts call).grant ..).1 = _ from (Recorder.logged (Recorder.starts call) g).symm]
  rw [← ledgerStarts] at starts
  exact starts

theorem tollsStand {before after : List Toll} (split : g.tolls call = before ++ .stands m :: after)
    (small : paid before ≤ budgetLimit) : g.Books (paid before) m := by
  have absent : ∀ {entries : List Entry}, entries = [] →
      entries.map Entry.toll ≠ before ++ .stands m :: after := by
    rintro entries rfl same
    cases before <;> cases same
  by_cases sequencer : ∃ s, g.machine.idle g.processor.device = .ok (.sequencer s)
  · obtain ⟨s, idle⟩ := sequencer
    have log : g.ledger call = _ := playedLedger idle
    split at log
    · rw [tolls, log] at split
      have tolled := (sequencerTolled calls g.cycles s (booksSeated g)).1.each before m after split
      simpa using tolled (by simpa using small)
    · exact absurd split (absent log)
  · by_cases seated : ∃ cpu w, g.Seated cpu w
    · obtain ⟨cpu, w, seated⟩ := seated
      obtain ⟨first, rest, entries, rfl, tail⟩ := List.map_eq_append_iff.mp split
      obtain ⟨entry, last, rfl, shown, rfl⟩ := List.map_eq_cons_iff.mp tail
      cases entry with
      | work | spend => cases shown
      | stand m' =>
        refine absurd ?_ (seatedOwn calls seated m')
        rw [entries]
        simp
      | start s =>
        cases shown
        have started := seatedStarted calls seated (s := s) (by rw [entries]; simp [Entry.start?])
        rw [paidEntries]
        exact withinBooks started.1 (seatedStarts calls seated entries)
    · exact absurd split (absent (unseatedLog _ (fun s idle => sequencer ⟨s, idle⟩)
        fun cpu w here => seated ⟨cpu, w, here⟩))

end

def Reached (g : Grant) (time : Time) (m : Machine) : Prop :=
  ∃ p, m.units[g.unit]? = some p ∧ p.localTime = time

theorem settledReached (clock : ∃ p, m.units[g.unit]? = some p ∧ p.clock = g.processor.clock)
    (count : Nat) (trap : Option Trap) :
    g.Reached (g.start + g.processor.period.scale (if count = 0 then g.cycles else count))
      (g.concluded (some (count, trap)) m) := by
  obtain ⟨p, found, clock⟩ := clock
  unfold Reached concluded
  rw [Machine.settleUnits]
  refine ⟨_, Machine.unitModified (m := { m with frame := none }) found _, ?_⟩
  change g.start + p.period.scale _ = _
  rw [Processor.period, Processor.period, clock]

theorem disabledReached (units : m.units = g.opened.units) :
    g.Reached (g.start + g.processor.period.scale 0) (g.concluded none m) := by
  obtain ⟨-, -, -, -, -, found⟩ := g.openedSame
  rw [← units] at found
  refine ⟨_, Machine.unitModified (m := { m with frame := none }) found _, ?_⟩
  refine Time.ext ?_
  change g.start.attos = _
  have := g.start.bounded
  simp only [Time.attos_add, Time.attos_scale]
  omega

section
variable {depth : Nat} {u : Unit}
  (ran : Machine.runSlice (Machine.invoke depth) g.unit g.target g.machine = some (u, m'))
include ran

theorem sequencerReached (granted : g.cycles ≤ budgetLimit) {s : Sequencer}
    (idle : g.machine.idle g.processor.device = .ok (.sequencer s))
    (small : paid (g.tolls (Machine.invoke depth)) ≤ budgetLimit) :
    g.Reached (g.start + g.processor.period.scale
      (if g.runs = true ∧ g.executed (Machine.invoke depth) = 0 then g.cycles
        else g.executed (Machine.invoke depth))) m' := by
  have calls := Machine.invokeActs depth
  obtain ⟨outcome, m₁, granting, rfl⟩ := Machine.sliceInv ran
  have opened := (g.openedIdle g.processor.device).trans idle
  obtain ⟨stays, rfl, units⟩ | ⟨runnable, s', count, m₂, played, rfl, rfl⟩ :=
    Machine.sequencerInv opened granting
  · have none : g.runs = false := by simp [runs, idle, stays]
    have executed : g.executed (Machine.invoke depth) = 0 := by simp [executed, idle, stays]
    rw [executed, none]
    exact disabledReached units
  · have runs : g.runs = true := by simp [runs, idle, runnable]
    have log : g.ledger (Machine.invoke depth) = _ := playedLedger idle
    rw [if_pos runnable] at log
    obtain ⟨tolled, counted⟩ :=
      sequencerTolled (Machine.invokeActs depth) g.cycles s (booksSeated g)
    rw [← Recorder.sequencerResult (Recorder.ledgerFollows _)] at played
    have books := tolled.ends (s', count) m₂ played
    rw [Nat.zero_add, ← log] at books
    change _ → g.Books (paid (g.tolls _)) m₂ at books
    have told := booksTell granted (books small) (Nat.le_trans small (by decide))
    have executed : g.executed (Machine.invoke depth) = count := by
      rw [counted s' count m₂ played, told.consumed]
      simp only [Grant.executed, idle, runnable, if_true]
    rw [executed]
    simp only [runs, true_and]
    exact settledReached (m := (m₂.setBusy g.processor.device false).withDevice g.processor.device
      (.sequencer s')) (books small).clock count _

theorem otherReached (granted : g.cycles ≤ budgetLimit)
    (other : ∀ s, g.machine.idle g.processor.device ≠ .ok (.sequencer s)) :
    g.Reached (g.start + g.processor.period.scale
      (if g.runs = true ∧ g.executed (Machine.invoke depth) = 0 then g.cycles
        else g.executed (Machine.invoke depth))) m' := by
  have acts := Machine.invokeActs depth
  have work : g.executed (Machine.invoke depth) = cost (g.ledger (Machine.invoke depth)) := by
    unfold executed
    split
    · rename_i s idle
      exact absurd idle (other s)
    · exact paidEntries _
  rw [work]
  by_cases seated : ∃ cpu w, g.Seated cpu w
  · obtain ⟨cpu, w, seated⟩ := seated
    obtain ⟨cpu', m, rfl, within, low, paid, -⟩ := g.seatedDone acts seated ran
    have books := withinBooks within paid
    have told := booksTell granted books (by unfold Word.largest budgetLimit at *; omega)
    have runs : g.runs = true := by simp [runs, seated.idle, seated.wiring]
    have settled := settledReached (m := (m.setBusy g.processor.device false).withDevice
      g.processor.device (.acc8 cpu')) books.clock m.consumed cpu'.runState.trap?
    simp only [runs, true_and]
    rw [told.consumed] at settled
    unfold shut
    rw [told.consumed]
    exact settled
  · have unseated : ∀ cpu w, ¬ g.Seated cpu w := fun cpu w here => seated ⟨cpu, w, here⟩
    have idle : g.ledger (Machine.invoke depth) = [] := unseatedLog _ other unseated
    obtain ⟨outcome, m, ends, barren⟩ := unseatedSlice (Machine.invoke depth) other unseated
    cases ends.symm.trans ran
    rw [idle, costNil]
    rcases barren.refused with ⟨rfl, none⟩ | ⟨cause, rfl, runs⟩
    · rw [none]
      exact disabledReached barren.units
    · obtain ⟨-, -, -, -, -, found⟩ := g.openedSame
      rw [← barren.units] at found
      simp only [runs, true_and]
      exact settledReached ⟨_, found, rfl⟩ 0 (some cause)

end

/-- As long as a grant fits the balance, the cycles consumed and the present are exact wherever the
slice stands and whatever goes on from there; and the processor ends its slice as many periods on as
it has executed cycles, or after the whole grant if it has executed none. -/
theorem accountsExact (depth : Nat) {g : Grant} (granted : g.cycles ≤ budgetLimit) :
    (∀ costs m, Lapse g.unit costs g.opened m → costs.sum ≤ budgetLimit → g.Tells costs.sum m) ∧
    (∀ before m after, g.tolls (Machine.invoke depth) = before ++ .stands m :: after →
      ∀ costs m', Lapse g.unit costs m m' → paid before + costs.sum ≤ budgetLimit →
        g.Tells (paid before + costs.sum) m') ∧
    ∀ u m', Machine.runSlice (Machine.invoke depth) g.unit g.target g.machine = some (u, m') →
      (∀ s, g.machine.idle g.processor.device = .ok (.sequencer s) →
        paid (g.tolls (Machine.invoke depth)) ≤ budgetLimit) →
      g.Reached (g.start + g.processor.period.scale
        (if g.runs = true ∧ g.executed (Machine.invoke depth) = 0 then g.cycles
          else g.executed (Machine.invoke depth))) m' := by
  have fits : budgetLimit ≤ Word.largest := by decide
  refine ⟨fun costs m lapse small => ?_, fun before m after split costs m' lapse small => ?_,
    fun u m' ran small => ?_⟩
  · have books := booksLapse lapse (booksOpened g) (by omega)
    rw [Nat.zero_add] at books
    exact booksTell granted books (by omega)
  · have books := tollsStand (Machine.invokeActs depth) split (by omega)
    exact booksTell granted (booksLapse lapse books small) (by omega)
  · by_cases sequencer : ∃ s, g.machine.idle g.processor.device = .ok (.sequencer s)
    · obtain ⟨s, idle⟩ := sequencer
      exact sequencerReached ran granted idle (small s idle)
    · exact otherReached ran granted fun s idle => sequencer ⟨s, idle⟩

end Grant

namespace Machine

def grant? (m : Machine) (unit : Nat) (target : Time) : Option Grant :=
  match found : m.units[unit]? with
  | some p => some ⟨m, unit, target, p, found⟩
  | none => none

def player (quantum : Time) (round : List Beat) : Machine :=
  ((Assembly.new { quantum } .builtin).extend "player" (.ofMhz 1) (.sequencer
    { name := "player", rounds := [round], lines := 0, registers := [], runnable := true })).machine

end Machine

namespace Grant
open Machine (Lapse budgetLimit player grant? invoke)

def playsSeven : Bool :=
  match (player (.ofMicros 20) [.consume 3, .publish, .consume 4]).grant? 0 (.ofMicros 50) with
  | some g =>
      decide (g.cycles ≤ budgetLimit) && g.runs && decide (g.executed (invoke 1) = 7) &&
        decide (g.start + g.processor.period.scale 7 = .ofMicros 7) &&
        decide (paid (g.tolls (invoke 1)) ≤ budgetLimit) &&
        (Machine.runSlice (invoke 1) g.unit g.target g.machine).isSome &&
        match g.tolls (invoke 1) with
        | .stands _ :: .spends 3 :: .stands _ :: _ => true
        | _ => false
  | none => false

theorem accountsMet : ∃ (g : Grant) (before after : List Toll) (m m' : Machine) (u : Unit),
    g.cycles ≤ budgetLimit ∧
    Lapse g.unit [3] g.opened (g.opened.charge 3) ∧ g.Tells 3 (g.opened.charge 3) ∧
    g.tolls (invoke 1) = before ++ .stands m :: after ∧ g.Tells 3 m ∧
    Machine.runSlice (invoke 1) g.unit g.target g.machine = some (u, m') ∧
    g.Reached (.ofMicros 7) m' := by
  have plays : playsSeven = true := by decide +kernel
  unfold playsSeven at plays
  split at plays
  · rename_i g granting
    simp only [Bool.and_eq_true, decide_eq_true_eq] at plays
    obtain ⟨⟨⟨⟨⟨⟨granted, runs⟩, seven⟩, time⟩, small⟩, ends⟩, log⟩ := plays
    obtain ⟨⟨u, m'⟩, ran⟩ := Option.isSome_iff_exists.mp ends
    obtain ⟨laps, stands, reaches⟩ := accountsExact 1 granted
    have consumes : Lapse g.unit [3] g.opened (g.opened.charge 3) := .consume 3 .still
    have reached := reaches u m' ran fun _ _ => small
    rw [seven, if_neg (by simp), time] at reached
    split at log
    · rename_i m₀ m after tolls
      have split : g.tolls (invoke 1) = [.stands m₀, .spends 3] ++ .stands m :: after := tolls
      exact ⟨g, _, after, m, m', u, granted, consumes, laps [3] _ consumes (by decide), split,
        stands _ m after split [] m .still (by simp [Toll.cost, budgetLimit]), ran, reached⟩
    · cases log
  · cases plays

def idlesOn : Bool :=
  match (player (.ofMicros 20) [.publish]).grant? 0 (.ofMicros 50) with
  | some g =>
      decide (paid (g.tolls (invoke 1)) = 0) && decide (g.executed (invoke 1) = 0) &&
        decide (g.start < g.start + .ofMicros 20) &&
        match Machine.runSlice (invoke 1) g.unit g.target g.machine with
        | some (_, m) =>
            decide ((m.units[g.unit]?).map (·.localTime) = some (g.start + .ofMicros 20))
        | none => false
  | none => false

def beginsLate : Bool :=
  match (player .never [.consume 5]).grant? 0 .never with
  | some g => decide (g.opened.consumed = 2 ^ 63) && decide (g.start < g.opened.now)
  | none => false

/-- A slice that executes nothing is charged in full; one that is granted more than the balance
can hold is off by the rest from the start. -/
theorem accountsAstray :
    (∃ (g : Grant) (u : Unit) (m' : Machine),
      paid (g.tolls (invoke 1)) = 0 ∧ g.executed (invoke 1) = 0 ∧
      Machine.runSlice (invoke 1) g.unit g.target g.machine = some (u, m') ∧
      g.Reached (g.start + .ofMicros 20) m' ∧ ¬ g.Reached g.start m') ∧
    ∃ g : Grant, Lapse g.unit [] g.opened g.opened ∧ g.opened.consumed = 2 ^ 63 ∧
      g.start < g.opened.now := by
  constructor
  · have idles : idlesOn = true := by decide +kernel
    unfold idlesOn at idles
    split at idles
    · rename_i g granting
      simp only [Bool.and_eq_true, decide_eq_true_eq] at idles
      obtain ⟨⟨⟨nothing, none⟩, later⟩, ends⟩ := idles
      split at ends
      · rename_i u m' ran
        obtain ⟨p, found, time⟩ := Option.map_eq_some_iff.mp (of_decide_eq_true ends)
        refine ⟨g, u, m', nothing, none, ran, ⟨p, found, time⟩, fun ⟨q, row, still⟩ => ?_⟩
        rw [found] at row
        cases row
        rw [time] at still
        rw [still, Time.lt_def] at later
        omega
      · cases ends
    · cases idles
  · have late : beginsLate = true := by decide +kernel
    unfold beginsLate at late
    split at late
    · rename_i g granting
      simp only [Bool.and_eq_true, decide_eq_true_eq] at late
      exact ⟨g, .still, late⟩
    · cases late

end Grant

end Lockstep
