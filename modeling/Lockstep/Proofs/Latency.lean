import Lockstep.Proofs.Cabling
import Lockstep.Proofs.Causality

/-! How long an interrupt waits. A slice ends no later than the timers that were armed when it was
granted, but for the instruction that is under way, so a processor whose line such a timer drives
is at its next boundary within seven of its cycles, and what it does there is to accept. -/
namespace Lockstep

theorem InputLines.activeSet {κ : Type} {l l' : InputLines κ} {line : Nat} {state : LineState}
    {vector : Option Nat} (set_ : l.set? line state vector = some l') :
    l'.isActive line = state.isActive := by
  unfold InputLines.set? at set_
  split at set_
  · rename_i known
    cases set_
    unfold InputLines.isActive InputLines.state?
    simp only [Array.getElem?_modify, if_true, Array.getElem?_eq_getElem known, Option.map_some,
      Option.elim_some]
  · cases set_

namespace Machine

theorem driveLineActive {m m' : Machine} {device : DeviceId} {line index : Nat} {state : LineState}
    {vector : Option Nat} {p : Processor} (ok : m.driveLine device line state vector = .ok m')
    (unit : m'.unit device = .ok (index, p)) : p.lines.isActive line = state.isActive := by
  obtain ⟨i, q, lines, before, driven, units⟩ := driveLineUnits ok
  have moved := unitUnits units (unitModify (fun r => by
    split
    · exact Processor.liftDevice ..
    · rfl) before)
  rw [unit] at moved
  cases moved
  split
  · rw [(Processor.liftLines ..).1]
    exact InputLines.activeSet driven
  · exact InputLines.activeSet driven

end Machine

namespace Grant
open Machine

variable {g : Grant} {cpu : Acc8} {w : Wiring} {call : Callback} {starts : List Start} {s : Start}

theorem turnAccepts {m : Machine} {p : Processor} {port : Acc8.Port Run} (within : g.Within m)
    (full : m.budget = g.cycles) (goes : m.mustStop g.unit = false)
    (row : m.units[g.unit]? = some p) (irq : p.lines.isActive Acc8.irqLine = true)
    (enabled : cpu.flags.interrupts = true)
    (calm : (p.lines.isActive Acc8.nmiLine && !cpu.nmiLatched) = false) :
    ((Recorder.starts call).turn g.unit port.quiet cpu).Ensures m fun notes _ =>
      ∃ s rest, notes = s :: rest ∧ (s.line = some Acc8.irqLine ∧ s.time = g.start) := by
  have left : 0 < m.budget := by
    have := g.cyclesPos
    omega
  have met : ∀ {m₁ cpu' taken}, Recorder.Boundary g.unit cpu m m₁ cpu' taken →
      taken = some Acc8.irqLine ∧ m₁.now = g.start := by
    intro m₁ cpu' taken boundary
    have kept := boundaryKept boundary
    obtain ⟨-, published, pending⟩ := boundary
    cases published
    have found := unitModified row (·.publish cpu.get?)
    have active : ∀ line, (m.modifyUnit g.unit (·.publish cpu.get?)).lineActive g.unit line =
        p.lines.isActive line := by
      intro line
      unfold lineActive
      rw [found]
      rfl
    have accepted : cpu.pending (p.lines.isActive Acc8.nmiLine) (p.lines.isActive Acc8.irqLine) =
        ({ cpu with nmiLatched := p.lines.isActive Acc8.nmiLine }, some Acc8.irqLine) := by
      unfold Acc8.pending
      rw [if_neg (ne_true_of_eq_false calm), irq, enabled]
      rfl
    rw [active, active, accepted] at pending
    refine ⟨(Prod.mk.inj pending).2.symm, ?_⟩
    have whole : (m.modifyUnit g.unit (·.publish cpu.get?)).consumedIn g.frame = 0 := by
      unfold consumedIn Word.clamp frame
      rw [kept.budget, full]
      dsimp only
      omega
    rw [withinNow (withinKept within left kept), whole]
    exact Time.scaleZero ..
  refine Recorder.plainEnsures (fun stop => absurd stop (ne_true_of_eq_false goes))
    (fun m₁ cpu' boundary _ => by cases (met boundary).1)
    (fun m₁ cpu' taken boundary => ⟨_, _, rfl, met boundary⟩)
    (fun m₁ cpu' cpu₂ work m₂ boundary _ _ => by cases (met boundary).1)
    fun m₁ cpu' line vector m₂ cpu₂ m₃ boundary _ _ => ⟨_, _, rfl, met boundary⟩

section
variable (calls : ∀ s m, Acts (call s) m)
include calls

theorem startsBefore (level : g.machine.timers.now = g.start)
    (acc8 : g.machine.classOf? g.processor.device ≠ some .sequencer) {u : Unit} {m' : Machine}
    (ran : runSlice call g.unit g.target g.machine = some (u, m'))
    (mem : s ∈ (watchGranted call g g.machine).1) :
    ∃ q, m'.units[g.unit]? = some q ∧ s.time ≤ q.localTime := by
  rcases g.seatedOr call acc8 with ⟨cpu, w, seated⟩ | ⟨quiet, -⟩
  swap
  · rw [quiet] at mem
    cases mem
  have closes := grantedCloses calls level acc8
  unfold Watch.Ensures at closes
  obtain ⟨within, left⟩ := closes.1 s mem
  rw [ledgerStarts] at mem
  obtain ⟨entry, listed, start⟩ := List.mem_filterMap.mp mem
  cases entry with
  | work | spend | stand => cases start
  | start t =>
    cases start
    obtain ⟨before, after, split⟩ := List.append_of_mem listed
    have early := seatedStarts calls seated split
    obtain ⟨cpu', m, rfl, within', low, paid, -⟩ := seatedDone calls seated ran
    obtain ⟨q, row, kept⟩ := within'.each g.found
    refine ⟨_, shutOwn row, ?_⟩
    rw [split, costAppend] at paid
    have spent : s.machine.consumedIn g.frame ≤ m.consumed := by
      unfold Machine.consumed
      rw [within'.frame, Option.elim_some]
      unfold consumedIn
      refine Word.clamp_mono ?_
      omega
    have period : q.period = g.processor.period := by
      rw [Processor.period, Processor.period, kept.clock]
    change s.machine.now ≤ _
    rw [withinNow within, ← period]
    refine Time.addMono (Time.scaleMono _ ?_)
    split
    · omega
    · exact spent

theorem accepts (seated : g.Seated cpu w) (short : g.cycles ≤ budgetLimit)
    (fetched : cpu.fetchResetVector = false)
    (irq : g.processor.lines.isActive Acc8.irqLine = true) (enabled : cpu.flags.interrupts = true)
    (calm : (g.processor.lines.isActive Acc8.nmiLine && !cpu.nmiLatched) = false) :
    ∃ s rest, (watchGranted call g g.machine).1 = s :: rest ∧
      (s.line = some Acc8.irqLine ∧ s.time = g.start) := by
  have loaded : g.load call cpu w g.machine = _ := g.loadDirect fetched
  obtain ⟨within, full⟩ := loadWithin calls loaded
  rw [Nat.min_eq_left short] at full
  obtain ⟨-, -, -, -, -, opened⟩ := g.openedSame
  have row := unitModified (m := g.opened.setBusy g.processor.device true) opened
    (·.publish cpu.get?)
  obtain ⟨bound, bounded⟩ := Nat.exists_eq_add_one.mpr (Nat.lt_of_lt_of_le Nat.zero_lt_one g.cyclesPos)
  rw [show watchGranted call g g.machine = _ from seatedRuns _ seated, Nat.min_eq_left short, bounded]
  change Watch.Ensures (do
    let cpu ← Watch.of (g.load call cpu w)
    let cpu ← (Recorder.starts call).loop g.unit (acc8Port call w.program w.io).quiet (bound + 1) cpu
    Watch.of (modify (g.shut cpu))) g.machine fun notes _ => ∃ s rest, notes = s :: rest ∧
      (s.line = some Acc8.irqLine ∧ s.time = g.start)
  refine Watch.ensuresOf (fun none => ?_) fun cpu₁ m₁ same => ?_
  · rw [loaded] at none
    cases none
  · rw [loaded] at same
    cases same
    refine Watch.ensuresFirst ?_
    unfold Recorder.loop
    refine Watch.ensuresFirst ?_
    split
    · exact turnAccepts within full directGoes row irq enabled calm
    · exact turnAccepts within full directGoes row irq enabled calm

end

theorem overrunDue {time : Time} (later : g.start < time) (bound : g.finish ≤ time) :
    g.start.attos + g.processor.period.attos * (g.cycles + 6) <
      time.attos + 7 * g.processor.period.attos := by
  rw [Time.lt_def] at later
  rw [Time.le_def] at bound
  have split := g.overrunSplit
  rcases g.cyclesFit with one | fit
  · rw [one, Nat.sub_self, Nat.mul_zero] at split
    rw [one]
    omega
  · omega

end Grant

namespace Machine

section
variable {call : Callback} {m origin : Machine} {events : List Event} {r : Option Machine}

theorem forwardLater {before after : List Event} {e e' : Event} {q : Option (Unit × Machine)}
    (passed : Passed origin (before ++ e :: after) q) (later : e' ∈ after) :
    Forward e.machine e'.machine :=
  (List.pairwise_cons.mp (List.pairwise_append.mp passed.order).2.1).1 e' later

theorem strandSlice (h : Strand call m events r) {g : Grant} {starts : List Start}
    (mem : .slice g starts ∈ events) : starts = (watchGranted call g g.machine).1 := by
  obtain ⟨before, after, rfl⟩ := List.append_of_mem mem
  obtain ⟨m', h⟩ := h.from_
  exact h.sliceInv.1

theorem startedBefore (calls : ∀ s m, Acts (call s) m) {before after : List Event} {g : Grant}
    {starts : List Start} {s : Start} {e : Event} {q : Option (Unit × Machine)}
    (only : origin.OnlyAcc8)
    (passed : Passed origin (before ++ .slice g starts :: after) q)
    (strand : Strand call origin (before ++ .slice g starts :: after) r)
    (later : e ∈ after) (mem : s ∈ starts) :
    ∃ p, e.machine.units[g.unit]? = some p ∧ s.time ≤ p.localTime := by
  obtain ⟨fair, forward, due⟩ := passed.each (.slice g starts)
    (List.mem_append_right _ (List.mem_cons_self ..))
  obtain ⟨-, -, level, -⟩ := due
  have acc8 := forward.acc8 only
  obtain ⟨m', rest⟩ := strand.from_
  obtain ⟨rfl, follows⟩ := rest.sliceInv
  obtain ⟨m₁, ran, rest⟩ := follows (List.ne_nil_of_mem later)
  obtain ⟨p, row, bound⟩ := Grant.startsBefore calls level (acc8 _) ((grantedSlice ..).symm.trans ran) mem
  have closes := Grant.grantedCloses calls level (acc8 _)
  unfold Watch.Ensures at closes
  have closed := closes.2.2 _ _ ran
  have levels : ∀ h began, .slice h began ∈ after → h.machine.timers.now = h.start :=
    fun h began mem => (passed.each _ (List.mem_append_right _
      (List.mem_cons_of_mem _ mem))).2.2.2.2.1
  have onward := strandForward calls ((forwardClosed closed).acc8 acc8) (closed.sound fair.sound)
    levels rest e later
  obtain ⟨p', row', -, -, time⟩ := onward.each row
  exact ⟨p', row', Nat.le_trans bound time⟩

end

/-- The callback of a timer drives the maskable line of a processor that is live and ready
for it. -/
structure Raised (call : Callback) (timer : Timer.Fired) (index : Nat) (p : Processor) (cpu : Acc8)
    (m : Machine) : Prop where
  driven : ∃ a b m' state vector, Effect m a ∧
    a.driveLine p.device Acc8.irqLine state vector = .ok b ∧ state.isActive = true ∧
    b.unit p.device = .ok (index, p) ∧ b.cpu? p.device = some cpu ∧ Effect b m' ∧
    dispatch call timer m = some ((), m')
  live : p.isLive = true
  sane : cpu.runState.isTrapped = false
  enabled : cpu.flags.interrupts = true
  fetched : cpu.fetchResetVector = false
  calm : (p.lines.isActive Acc8.nmiLine && !cpu.nmiLatched) = false

/-- An interrupt that a timer raises for a processor is what the processor accepts first in its
next slice, at or after the time of the timer. If the timer was armed when the slice before was
granted and the processor was not moved on since that slice, it is less than seven cycles after
it; and what the processor started until then, it started before the timer fired. -/
theorem interruptLatency {depth : Nat} {origin m : Machine} {r : Option Machine}
    {before between rest after : List Event} {g g' : Grant} {starts starts' : List Start}
    {timer : Timer.Fired} {p : Processor} {cpu : Acc8}
    (built : Built (invoke depth) origin) (only : origin.OnlyAcc8)
    (history : History (invoke depth) origin (before ++ .slice g starts :: (between ++
      .fired timer m :: (rest ++ .slice g' starts' :: after))) r)
    (unit : g'.unit = g.unit)
    (next : ∀ h began, .slice h began ∈ between ++ rest → h.unit ≠ g.unit)
    (armed : g.machine.timers.fireTime? timer.id = some timer.time)
    (raised : Raised (invoke depth) timer g.unit p cpu m)
    (lines : g'.processor.lines = p.lines) (free : g'.machine.idle p.device = .ok (.acc8 cpu))
    (short : g'.cycles ≤ budgetLimit) :
    (∃ first more, starts' = first :: more ∧ first.line = some Acc8.irqLine ∧
      timer.time ≤ first.time ∧
      ∀ m' q, runSlice (invoke depth) g.unit g.target g.machine = some ((), m') →
        m'.units[g.unit]? = some q → q.localTime = g'.processor.localTime →
          first.time.attos < timer.time.attos + 7 * g'.processor.period.attos) ∧
    ∀ h began s, .slice h began ∈ before ++ .slice g starts :: (between ++ .fired timer m :: rest) →
      h.unit = g.unit → s ∈ began → s.time < timer.time := by
  have acts := invokeActs depth
  have passed := historyPassed acts built only history
  have strand := historyStrand history
  have fair := builtFair acts built
  obtain ⟨fairG, forwardG, dueG⟩ := passed.each (.slice g starts) (by simp)
  obtain ⟨-, forwardG', dueG'⟩ := passed.each (.slice g' starts') (by simp)
  have causal := sliceCausal fairG dueG
  obtain ⟨sooner, bound⟩ := causal.armed armed
  have across : Forward g.machine g'.machine :=
    forwardLater passed (show Event.slice g' starts' ∈ _ by simp)
  refine ⟨?_, fun h began s mem same started => ?_⟩
  · -- the timer fires at its time, and the clock does not go back until the next slice
    have now : m.timers.now = timer.time := strandNow acts fair.sound strand (by simp)
    have onward : Forward m g'.machine := by
      rw [show before ++ .slice g starts :: (between ++ .fired timer m ::
        (rest ++ .slice g' starts' :: after)) = (before ++ .slice g starts :: between) ++
          .fired timer m :: (rest ++ .slice g' starts' :: after) by simp] at passed
      exact forwardLater passed (show Event.slice g' starts' ∈ _ by simp)
    obtain ⟨-, -, level, -⟩ := dueG'
    have start : timer.time ≤ g'.start := by
      rw [← now, ← level]
      exact onward.clock
    obtain ⟨a, b, m', state, vector, first, driven, active, seen, seat, -, -⟩ := raised.driven
    have kept := (effectKept first).trans (actKept (.driveLine driven))
    obtain ⟨q, row, same⟩ := kept.back (unitInv seen).2
    obtain ⟨q', row', device, -⟩ := onward.each row
    rw [← unit, g'.found] at row'
    cases row'
    replace device : p.device = g'.processor.device := same.device.trans device.symm
    have irq : g'.processor.lines.isActive Acc8.irqLine = true := by
      rw [lines, driveLineActive driven seen, active]
    have cabled := cabledKept (builtCabled acts built) (strandCarries wiresCarries effectWires
      (fun _ _ => wiresTree rfl) acts strand (.slice g' starts') (by simp)) forwardG'.classes
    rw [device] at free
    obtain ⟨w, wired⟩ := cabled _ _ (cpuIdle free)
    obtain ⟨s, more, notes, line, time⟩ := Grant.accepts acts ⟨free, wired, raised.sane⟩ short
      raised.fetched irq raised.enabled (lines ▸ raised.calm)
    rw [← strandSlice strand (show Event.slice g' starts' ∈ _ by simp)] at notes
    refine ⟨s, more, notes, line, time ▸ start, fun m₁ q ran row still => ?_⟩
    obtain ⟨-, -, level, -⟩ := dueG
    have closes := Grant.grantedCloses acts level (forwardG.acc8 only _)
    unfold Watch.Ensures at closes
    have closed := closes.2.2 _ _ ((grantedSlice (invoke depth) g).trans ran)
    obtain ⟨p', own, -, -, -, most⟩ := closed.own
    rw [row] at own
    cases own
    obtain ⟨p', own, -, clock, -⟩ := across.each g.found
    rw [← unit, g'.found] at own
    cases own
    have period : g'.processor.period = g.processor.period := by
      rw [Processor.period, Processor.period, clock]
    rw [time, period]
    rw [still] at most
    exact Nat.lt_of_le_of_lt most (Grant.overrunDue sooner bound)
  · have later : ∀ {front back : List Event}, before ++ .slice g starts :: (between ++
        .fired timer m :: (rest ++ .slice g' starts' :: after)) = front ++ .slice h began :: back →
        .slice g starts ∈ back → s.time < timer.time := by
      intro front back split mem
      rw [split] at passed strand
      obtain ⟨q, row, time⟩ := startedBefore acts only passed strand mem started
      rw [same] at row
      change g.machine.units[g.unit]? = some q at row
      rw [g.found] at row
      cases row
      exact Nat.lt_of_le_of_lt time sooner
    rcases List.mem_append.mp mem with mem | mem
    · obtain ⟨front, back, rfl⟩ := List.append_of_mem mem
      exact later (List.append_assoc ..) (by simp)
    · rcases List.mem_cons.mp mem with mem | mem
      · cases mem
        exact causal.unfired s started armed
      · refine absurd same (next h began ?_)
        simpa using mem

def rung (m : Machine) (timer : Timer.Fired) : Machine :=
  (m.count (·.timer)).trace (.timerFired timer.owner timer.param timer.time)

theorem dispatchDrives (depth : Nat) {line : Nat} {m b : Machine} {timer : Timer.Fired}
    {bell : Peripheral} {device : DeviceId} {state : LineState} {vector : Option Nat}
    {next : Reply → Script} {reply : Reply}
    (idle : (m.rung timer).idle timer.owner = .ok (.peripheral bell))
    (script : bell.timer timer ((m.rung timer).position? timer.id) =
      .step (.driveLine device line state vector) next)
    (ends : next .ok = .done reply)
    (driven : ((m.rung timer).setBusy timer.owner true).driveLine device line state vector = .ok b) :
    Effect m ((m.rung timer).setBusy timer.owner true) ∧
      Effect b (b.setBusy timer.owner false) ∧
      dispatch (invoke (depth + 1)) timer m = some ((), b.setBusy timer.owner false) := by
  refine ⟨((Effect.act (.count _)).trans (.traced ..)).trans (.act (.hold idle)),
    .act (.giveBack _), ?_⟩
  have ran : invoke (depth + 1) (bell.timer timer ((m.rung timer).position? timer.id))
      ((m.rung timer).setBusy timer.owner true) = some (reply, b) := by
    have done : attempt (·.driveLine device line state vector)
        ((m.rung timer).setBusy timer.owner true) = some (.ok, b) := by
      unfold attempt
      rw [Run.getBind]
      dsimp only
      rw [driven]
      rfl
    rw [script]
    refine (Run.bindSome done _).trans ?_
    rw [ends]
    rfl
  have lent := Run.bindSome ran fun _ => (pure ⟨⟩ : Run PUnit)
  unfold rung at idle
  unfold dispatch
  rw [Run.modifyBind, Run.getBind]
  dsimp only
  rw [idle]
  dsimp only
  rw [Run.modifyBind]
  exact (Run.bindSome lent _)

def ringsFor (timer : Timer.Fired) (m : Machine) (g : Grant) : Bool :=
  match (m.rung timer).idle timer.owner with
  | .ok (.peripheral bell) =>
      match bell.timer timer ((m.rung timer).position? timer.id) with
      | .step (.driveLine device line state vector) next =>
          match next .ok, ((m.rung timer).setBusy timer.owner true).driveLine device line state
            vector with
          | .done _, .ok b =>
              match b.unit device, b.cpu? device with
              | .ok (index, p), some cpu =>
                  match g.machine.idle device, p.lines.source, g.processor.lines.source with
                  | .ok (.acc8 cpu'), none, none =>
                      decide (line = Acc8.irqLine ∧ state.isActive = true ∧ p.device = device ∧
                        index = g.unit ∧ p.isLive = true ∧ cpu.runState.isTrapped = false ∧
                        cpu.flags.interrupts = true ∧ cpu.fetchResetVector = false ∧
                        (p.lines.isActive Acc8.nmiLine && !cpu.nmiLatched) = false ∧
                        g.processor.lines.lines = p.lines.lines ∧ cpu' = cpu ∧
                        g.cycles ≤ budgetLimit)
                  | _, _, _ => false
              | _, _ => false
          | _, _ => false
      | _ => false
  | _ => false

theorem ringsRaised (depth : Nat) {timer : Timer.Fired} {m : Machine} {g : Grant}
    (rings : ringsFor timer m g = true) : ∃ p cpu,
      Raised (invoke (depth + 1)) timer g.unit p cpu m ∧ g.processor.lines = p.lines ∧
        g.machine.idle p.device = .ok (.acc8 cpu) ∧ g.cycles ≤ budgetLimit := by
  unfold ringsFor at rings
  split at rings
  · rename_i bell idle
    split at rings
    · rename_i device line state vector next script
      split at rings
      · rename_i reply b ends driven
        split at rings
        · rename_i index p cpu unit seat
          split at rings
          · rename_i cpu' free source source'
            obtain ⟨rfl, active, rfl, rfl, live, sane, enabled, fetched, calm, lines, rfl, short⟩ :=
              of_decide_eq_true rings
            obtain ⟨first, last, called⟩ := dispatchDrives depth idle script ends driven
            refine ⟨p, _, ⟨⟨_, b, _, state, vector, first, driven, active, unit, seat, last, called⟩,
              live, sane, enabled, fetched, calm⟩, ?_, free, short⟩
            change (⟨_, _⟩ : InputLines _) = ⟨_, _⟩
            rw [lines, source, source']
          · cases rings
        · cases rings
      · cases rings
    · cases rings
  · cases rings

def doorbell : Assembly :=
  ((Assembly.new { quantum := .ofMicros 10 } .builtin).extend "bell" ⟨0⟩ (.peripheral
    { name := "bell"
      start := fun id => .perform (.schedule id (.ofNanos 2500) (.ofMicros 40) 0)
      timer := fun _ _ => .perform (.driveLine ⟨1⟩ Acc8.irqLine .assert none) })).extend
        "cpu" (.ofMhz 1) (.acc8 (.new "cpu" { resetPc := some 0x200 }))

theorem doorbellAssembled : Assembled doorbell := ((Assembled.new _ _).extend _ _ _).extend _ _ _

def doorbellHeard (events : List Event) : Bool :=
  match events with
  | .rest _ :: .slice g _ :: .rest _ :: .fired timer m :: .rest _ :: .slice g' _ :: _ =>
      decide (g'.unit = g.unit ∧ g.machine.timers.fireTime? timer.id = some timer.time) &&
        ringsFor timer m g' &&
        match runSlice (invoke 3) g.unit g.target g.machine with
        | some ((), m') => (m'.units[g.unit]?).any (·.localTime = g'.processor.localTime)
        | none => false
  | _ => false

def doorbellRings : Bool :=
  match doorbell.build (invoke 3) with
  | some (none, origin) =>
      match origin.setRegister ⟨1⟩ Acc8.flagsId 4 with
      | .ok m =>
          decide origin.OnlyAcc8 && doorbellHeard (watchUntil (invoke 3) (.ofMicros 12) 40 m).1
      | .error _ => false
  | _ => false

theorem doorbellAnswered : ∃ origin before g starts m₁ timer m m₂ p cpu g' first more after r,
    Built (invoke 3) origin ∧ origin.OnlyAcc8 ∧
    History (invoke 3) origin (before ++ .slice g starts :: ([.rest m₁] ++
      .fired timer m :: ([.rest m₂] ++ .slice g' (first :: more) :: after))) r ∧
    g'.unit = g.unit ∧ g.machine.timers.fireTime? timer.id = some timer.time ∧
    Raised (invoke 3) timer g.unit p cpu m ∧ g'.processor.lines = p.lines ∧
    g'.machine.idle p.device = .ok (.acc8 cpu) ∧ g'.cycles ≤ budgetLimit ∧
    first.line = some Acc8.irqLine ∧ timer.time ≤ first.time ∧
    first.time.attos < timer.time.attos + 7 * g'.processor.period.attos := by
  have runs : doorbellRings = true := by decide +kernel
  unfold doorbellRings at runs
  split at runs
  · rename_i origin started
    split at runs
    · rename_i m set_
      obtain ⟨only, heard⟩ := Bool.and_eq_true_iff.mp runs
      have built : Built (invoke 3) origin := ⟨doorbell, doorbellAssembled, started⟩
      have first : History (invoke 3) origin [.rest origin] (some origin) := .start
      have history := (first.effect (.act (.setRegister set_))).run (.ofMicros 12) 40
      unfold doorbellHeard at heard
      split at heard
      · rename_i m₀ g starts m₁ timer m₂ m₃ g' starts' after same
        rw [same] at history
        replace history : History (invoke 3) origin ([.rest origin, .rest m, .rest m₀] ++
          .slice g starts :: ([.rest m₁] ++ .fired timer m₂ :: ([.rest m₃] ++
            .slice g' starts' :: after))) _ := history
        simp only [Bool.and_eq_true, decide_eq_true_eq] at heard
        obtain ⟨⟨⟨unit, armed⟩, rings⟩, ran⟩ := heard
        obtain ⟨p, cpu, raised, lines, free, short⟩ := ringsRaised 2 rings
        rw [unit] at raised
        split at ran
        · rename_i m' done
          obtain ⟨q, row, still⟩ := (Option.any_eq_true _ _).mp ran
          obtain ⟨⟨s, more, rfl, line, time, soon⟩, -⟩ := interruptLatency built
            (of_decide_eq_true only) history unit (by simp) armed raised lines free short
          exact ⟨origin, _, g, starts, m₁, timer, m₂, m₃, p, cpu, g', s, more, after, _, built,
            of_decide_eq_true only, history, unit, armed, raised, lines, free, short, line, time,
            soon m' q done row (of_decide_eq_true still)⟩
        · cases ran
      · cases heard
    · cases runs
  · cases runs

end Machine

end Lockstep
