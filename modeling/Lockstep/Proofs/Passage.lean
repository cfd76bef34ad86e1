import Lockstep.Proofs.Passes
import Lockstep.Proofs.Schedule

/-! A run step by step. Between its steps the machine is fair: the clock of the timers is
at or behind every live processor, and no processor is too far ahead of it. Each step
keeps that and goes forward only, and each timer and each slice of the run was due. -/
namespace Lockstep

namespace Machine

structure Fair (m : Machine) : Prop where
  idle : m.frame = none
  sound : m.timers.Sound
  behind : ∀ {i : Nat} {p : Processor}, m.units[i]? = some p → p.isLive = true →
    m.timers.now ≤ p.localTime
  lead : ∀ {i : Nat} {p : Processor}, m.units[i]? = some p →
    p.localTime.attos ≤ m.timers.now.attos + m.config.quantum.attos + 7 * p.period.attos

structure Forward (m m' : Machine) : Prop where
  config : m'.config = m.config
  clock : m.timers.now ≤ m'.timers.now
  each : ∀ {i : Nat} {p : Processor}, m.units[i]? = some p → ∃ p', m'.units[i]? = some p' ∧
    p'.device = p.device ∧ p'.clock = p.clock ∧ p.localTime ≤ p'.localTime
  classes : ∀ id, m'.classOf? id = m.classOf? id

/-- No device but the processors that execute instructions can be run. -/
def OnlyAcc8 (m : Machine) : Prop := ∀ id, m.classOf? id ≠ some .sequencer

variable {m m' a b c : Machine}

namespace Forward

theorem refl (m : Machine) : Forward m m :=
  ⟨rfl, Nat.le_refl _, fun {_ p} found => ⟨p, found, rfl, rfl, Nat.le_refl _⟩, fun _ => rfl⟩

theorem trans (first : Forward a b) (rest : Forward b c) : Forward a c := by
  refine ⟨rest.config.trans first.config, Nat.le_trans first.clock rest.clock, fun found => ?_,
    fun id => (rest.classes id).trans (first.classes id)⟩
  obtain ⟨q, found, device, clock, time⟩ := first.each found
  obtain ⟨r, found, device', clock', time'⟩ := rest.each found
  exact ⟨r, found, device'.trans device, clock'.trans clock, Nat.le_trans time time'⟩

theorem acc8 (h : Forward m m') (only : m.OnlyAcc8) : m'.OnlyAcc8 := by
  intro id
  rw [h.classes]
  exact only id

end Forward

theorem Kept.toForward (h : Kept m m') : Forward m m' := by
  refine ⟨h.config, Nat.le_of_eq (congrArg Time.attos h.clock.symm), fun found => ?_, h.classes⟩
  obtain ⟨q, found, kept⟩ := h.each found
  exact ⟨q, found, kept.device, kept.clock, kept.forward⟩

theorem fairKept (fair : Fair m) (h : Kept m m') : Fair m' := by
  have now : m.now = m.timers.now := by
    unfold Machine.now
    rw [fair.idle]
  refine ⟨h.frame.trans fair.idle, h.sound fair.sound, fun found live => ?_, fun found => ?_⟩
  · obtain ⟨p, row, kept⟩ := h.back found
    rw [now] at kept
    rw [h.clock]
    rcases kept.woken live with live | late
    · exact Nat.le_trans (fair.behind row live) kept.forward
    · exact late
  · obtain ⟨p, row, kept⟩ := h.back found
    rw [now] at kept
    have lead := fair.lead row
    have within := kept.within
    rw [h.clock, h.config, Processor.period, kept.clock]
    change p.localTime.attos ≤ _ + _ + 7 * (max (p.clock.period?.getD .never) (.ofAttos 1)).attos at lead
    omega

theorem fairTimers (fair : Fair m) {timers : Timer.Queue} (sound : timers.Sound)
    (later : m.timers.now ≤ timers.now)
    (behind : ∀ {i : Nat} {p : Processor}, m.units[i]? = some p → p.isLive = true →
      timers.now ≤ p.localTime) : Fair { m with timers } := by
  refine ⟨fair.idle, sound, behind, fun found => ?_⟩
  have lead := fair.lead found
  rw [Time.le_def] at later
  dsimp only
  omega

theorem forwardTimers {timers : Timer.Queue} (later : m.timers.now ≤ timers.now) :
    Forward m { m with timers } :=
  ⟨rfl, later, fun {_ p} found => ⟨p, found, rfl, rfl, Nat.le_refl _⟩, fun _ => rfl⟩

theorem fairClosed {g : Grant} (fair : Fair g.machine) (level : g.machine.timers.now = g.start)
    (ahead : g.start ≤ g.finish) (closed : g.Closed m) : Fair m := by
  have size : ∀ {i : Nat} {q : Processor}, m.units[i]? = some q →
      ∃ p, g.machine.units[i]? = some p := by
    intro i q found
    have bound := (Array.getElem?_eq_some_iff.mp found).1
    rw [closed.size] at bound
    exact ⟨_, Array.getElem?_eq_getElem bound⟩
  refine ⟨closed.frame, closed.sound fair.sound, fun {i q} found live => ?_, fun {i q} found => ?_⟩
  · rw [closed.clock, level]
    obtain ⟨p, row⟩ := size found
    by_cases own : i = g.unit
    · subst own
      obtain ⟨p', found', -, -, least, -⟩ := closed.own
      rw [found] at found'
      cases found'
      exact least
    · obtain ⟨p', found', kept⟩ := closed.other own row
      rw [found] at found'
      cases found'
      rcases kept.woken live with live | late
      · have := fair.behind row live
        rw [level] at this
        exact Nat.le_trans this kept.forward
      · exact late
  · rw [closed.clock, closed.config, level]
    obtain ⟨p, row⟩ := size found
    by_cases own : i = g.unit
    · subst own
      obtain ⟨p', found', -, clock, -, most⟩ := closed.own
      rw [found] at found'
      cases found'
      have bound := g.overrunBound ahead
      have period : q.period = g.processor.period := by
        rw [Processor.period, Processor.period, clock]
      rw [period]
      omega
    · obtain ⟨p', found', kept⟩ := closed.other own row
      rw [found] at found'
      cases found'
      have lead := fair.lead row
      have within := kept.within
      have latest := g.latestLeQuantum ahead
      have period : q.period = p.period := by
        rw [Processor.period, Processor.period, kept.clock]
      rw [level] at lead
      rw [period]
      omega

theorem forwardClosed {g : Grant} (closed : g.Closed m) : Forward g.machine m := by
  refine ⟨closed.config, Nat.le_of_eq (congrArg Time.attos closed.clock.symm),
    fun {i p} found => ?_, closed.classes⟩
  by_cases own : i = g.unit
  · subst own
    rw [g.found] at found
    cases found
    obtain ⟨q, row, device, clock, least, -⟩ := closed.own
    exact ⟨q, row, device, clock, least⟩
  · obtain ⟨q, row, kept⟩ := closed.other own found
    exact ⟨q, row, kept.device, kept.clock, kept.forward⟩

end Machine

def Event.Due : Event → Prop
  | .rest _ => True
  | .fired timer m => ∀ {i : Nat} {p : Processor}, m.units[i]? = some p → p.isLive = true →
      timer.time ≤ p.localTime
  | .slice g starts =>
      g.processor.isLive = true ∧
      (∀ {i : Nat} {p : Processor}, g.machine.units[i]? = some p → p.isLive = true →
        g.start ≤ p.localTime) ∧
      g.machine.timers.now = g.start ∧ g.start < g.target ∧
      (∀ key ∈ g.machine.timers.order, g.start < key.time) ∧
      (∀ s ∈ starts, g.Started s) ∧ starts.length ≤ g.cycles

namespace Grant
open Machine (Fair)

theorem finishBounds (g : Grant) (sound : g.machine.timers.Sound) (before : g.start < g.target)
    (armed : ∀ key ∈ g.machine.timers.order, g.start < key.time) :
    g.start ≤ g.finish ∧ ∀ key ∈ g.machine.timers.order, g.finish ≤ key.time := by
  have bounded := g.start.bounded
  rw [Time.lt_def] at before
  unfold finish Machine.sliceEnd
  dsimp only
  cases next : g.machine.timers.nextFireTime? with
  | none =>
    have empty : g.machine.timers.order = [] := by
      cases order : g.machine.timers.order with
      | nil => rfl
      | cons key rest =>
        unfold Timer.Queue.nextFireTime? at next
        rw [order] at next
        cases next
    refine ⟨?_, fun key mem => ?_⟩
    · simp only [Time.le_def, Time.attos_min, Time.attos_add]
      omega
    · rw [empty] at mem
      cases mem
  | some time =>
    have least := Timer.Queue.nextLeast sound.toFiled next
    obtain ⟨head, first, same⟩ := Option.map_eq_some_iff.mp next
    have late := armed head (List.mem_of_mem_head? first)
    rw [same, Time.lt_def] at late
    refine ⟨?_, fun key mem => ?_⟩
    · simp only [Time.le_def, Time.attos_min, Time.attos_add]
      omega
    · have early := least key mem
      simp only [Time.le_def, Time.attos_min, Time.attos_add] at *
      omega

end Grant

namespace Machine
variable {m m' : Machine}

structure Passed (m : Machine) (events : List Event) (r : Option (Unit × Machine)) : Prop where
  each : ∀ e ∈ events, Fair e.machine ∧ Forward m e.machine ∧ e.Due
  order : events.Pairwise fun a b => Forward a.machine b.machine
  ends : ∀ u m', r = some (u, m') →
    Fair m' ∧ Forward m m' ∧ ∀ e ∈ events, Forward e.machine m'

namespace Passed
variable {events rest : List Event} {r : Option (Unit × Machine)}

theorem quiet (ends : ∀ u m', r = some (u, m') → Fair m' ∧ Forward m m') : Passed m [] r := by
  refine ⟨fun e mem => absurd mem List.not_mem_nil, .nil, fun u m' h => ?_⟩
  obtain ⟨fair, forward⟩ := ends u m' h
  exact ⟨fair, forward, fun e mem => absurd mem List.not_mem_nil⟩

theorem stuck : Passed m [] none := quiet fun _ _ h => by cases h

theorem stop (fair : Fair m) : Passed m [] (some ((), m)) := by
  refine quiet fun u m' h => ?_
  cases h
  exact ⟨fair, .refl m⟩

theorem after (first : Forward m m') (h : Passed m' events r) : Passed m events r := by
  refine ⟨fun e mem => ?_, h.order, fun u s ends => ?_⟩
  · obtain ⟨fair, forward, due⟩ := h.each e mem
    exact ⟨fair, first.trans forward, due⟩
  · obtain ⟨fair, forward, all⟩ := h.ends u s ends
    exact ⟨fair, first.trans forward, all⟩

theorem event (e : Event) (fair : Fair e.machine) (due : e.Due) (h : Passed e.machine events r) :
    Passed e.machine (e :: events) r := by
  refine ⟨fun x mem => ?_, ?_, fun u s ends => ?_⟩
  · rcases List.mem_cons.mp mem with rfl | mem
    · exact ⟨fair, .refl _, due⟩
    · exact h.each x mem
  · exact List.pairwise_cons.mpr ⟨fun x mem => (h.each x mem).2.1, h.order⟩
  · obtain ⟨fair', forward, all⟩ := h.ends u s ends
    refine ⟨fair', forward, fun x mem => ?_⟩
    rcases List.mem_cons.mp mem with rfl | mem
    · exact forward
    · exact all x mem

theorem append {u : Unit} (first : Passed m events (some (u, m'))) (more : Passed m' rest r) :
    Passed m (events ++ rest) r := by
  obtain ⟨-, forward, all⟩ := first.ends u m' rfl
  refine ⟨fun x mem => ?_, ?_, fun v s ends => ?_⟩
  · rcases List.mem_append.mp mem with mem | mem
    · exact first.each x mem
    · exact (more.after forward).each x mem
  · refine List.pairwise_append.mpr ⟨first.order, more.order, fun x left y right => ?_⟩
    exact (all x left).trans (more.each y right).2.1
  · obtain ⟨fair, further, later⟩ := more.ends v s ends
    refine ⟨fair, forward.trans further, fun x mem => ?_⟩
    rcases List.mem_append.mp mem with mem | mem
    · exact (all x mem).trans further
    · exact later x mem

end Passed

theorem popFair {limit : Time} {fired : Timer.Fired} {timers : Timer.Queue} (fair : Fair m)
    (behind : ∀ {i : Nat} {p : Processor}, m.units[i]? = some p → p.isLive = true →
      limit ≤ p.localTime) (popped : m.timers.popDue limit = some (fired, timers)) :
    Fair { m with timers } ∧ Forward m { m with timers } ∧ timers.now = fired.time ∧
      fired.time ≤ limit := by
  obtain ⟨sound, now, ahead, due, -⟩ := Timer.Queue.popInv fair.sound popped
  exact ⟨fairTimers fair sound (now ▸ ahead) fun found live =>
    now ▸ Nat.le_trans due (behind found live), forwardTimers (now ▸ ahead), now, due⟩

theorem waitFair {limit : Time} (fair : Fair m)
    (behind : ∀ {i : Nat} {p : Processor}, m.units[i]? = some p → p.isLive = true →
      limit ≤ p.localTime) (none : m.timers.popDue limit = none) :
    Fair { m with timers := m.timers.setNow limit } ∧
      Forward m { m with timers := m.timers.setNow limit } := by
  have sound := Timer.Queue.soundSetNow fair.sound
    (Timer.Queue.popNone fair.sound.toFiled none)
  have now := Timer.Queue.nowSetNow (q := m.timers) limit
  have later : m.timers.now ≤ (m.timers.setNow limit).now := by
    rw [now, Time.le_def, Time.attos_max]
    exact Nat.le_max_left ..
  refine ⟨fairTimers fair sound later fun found live => ?_, forwardTimers later⟩
  have slow := fair.behind found live
  have early := behind found live
  rw [now, Time.le_def, Time.attos_max]
  rw [Time.le_def] at slow early
  omega

theorem nextFair {target : Time} {unit : Nat} {p : Processor} (fair : Fair m)
    (next : Next target m unit p) :
    Fair next.grant.machine ∧ Forward m next.grant.machine ∧
      next.grant.machine.timers.now = p.localTime ∧
      ∀ key ∈ next.grant.machine.timers.order, p.localTime < key.time := by
  obtain ⟨fair₁, first⟩ := waitFair fair next.behind next.quiet
  refine ⟨fair₁, first, ?_, ?_⟩
  · change (m.timers.setNow p.localTime).now = p.localTime
    rw [Timer.Queue.nowSetNow]
    apply Time.ext
    rw [Time.attos_max]
    exact Nat.max_eq_right (fair.behind next.found next.live)
  · change ∀ key ∈ (m.timers.setNow p.localTime).order, p.localTime < key.time
    rw [Timer.Queue.orderSetNow]
    exact Timer.Queue.popNone fair.sound.toFiled next.quiet

section
variable {call : Callback} (calls : ∀ s m, Acts (call s) m)
include calls

theorem nextPassed {target : Time} {unit : Nat} {p : Processor} {starts : List Start}
    {r : Option (Unit × Machine)} (fair : Fair m) (only : m.OnlyAcc8)
    (next : Next target m unit p)
    (ran : watchGranted call next.grant next.grant.machine = (starts, r)) :
    Passed m [.slice next.grant starts] r := by
  obtain ⟨fair₁, first, level, armed⟩ := nextFair fair next
  obtain ⟨started, length, closed⟩ :=
    Watch.ensuresRan ran (Grant.grantedCloses (g := next.grant) calls level (first.acc8 only _))
  have bounds := next.grant.finishBounds fair₁.sound next.before armed
  have due : (Event.slice next.grant starts).Due :=
    ⟨next.live, next.behind, level, next.before, armed, started, length⟩
  refine .after first (Passed.event (.slice next.grant starts) fair₁ due (.quiet fun u m' h => ?_))
  have done := closed u m' h
  exact ⟨fairClosed fair₁ level bounds.1 done, forwardClosed done⟩

theorem watchedPassed {target : Time} {events : List Event} {r : Option (Unit × Machine)}
    (watched : Watched call target m events r) (fair : Fair m) (only : m.OnlyAcc8) :
    Passed m events r := by
  induction watched with
  | stuck => exact .stuck
  | lost due _ =>
    obtain ⟨fair₁, first, -, due⟩ := popFair fair (horizonLive target) due
    refine Passed.event (.rest _) fair trivial (.after first ?_)
    exact Passed.event (.fired _ _) fair₁
      (fun found live => Nat.le_trans due (horizonLive target found live)) .stuck
  | fires due ran _ ih =>
    obtain ⟨fair₁, first, -, due⟩ := popFair fair (horizonLive target) due
    have kept := effectKept (dispatchActs calls _ _ _ _ ran)
    refine Passed.event (.rest _) fair trivial (.after first ?_)
    refine Passed.event (.fired _ _) fair₁
      (fun found live => Nat.le_trans due (horizonLive target found live)) ?_
    exact .after kept.toForward (ih (fairKept fair₁ kept) (kept.toForward.acc8 (first.acc8 only)))
  | rests quiet level =>
    obtain ⟨fair₁, first⟩ := waitFair fair level quiet
    refine Passed.event (.rest _) fair trivial (.after first ?_)
    exact Passed.event (.rest _) fair₁ trivial (.stop fair₁)
  | breaks next ran => exact Passed.event (.rest _) fair trivial (nextPassed calls fair only next ran)
  | slices next ran _ ih =>
    have slice := nextPassed calls fair only next ran
    obtain ⟨fair₂, forward, -⟩ := slice.ends _ _ rfl
    exact Passed.event (.rest _) fair trivial (slice.append (ih fair₂ (forward.acc8 only)))

end

end Machine

end Lockstep
