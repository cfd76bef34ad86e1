import Lockstep.Proofs.Actions
import Lockstep.Proofs.History

/-! The way of one processor through a run. However the run is cut and whatever runs beside
it, the processor goes the same way, as long as no slice is granted to it in a trap. -/
namespace Lockstep

namespace Solo
variable {s t : Solo} {target later : Time}

/-- On its way to a target the processor is not granted time in a trap. -/
def Untrapped (target : Time) (s : Solo) : Prop :=
  ∀ t, Path target s t → t.isLive = true → t.localTime < target →
    (∀ a ∈ t.alarms, t.localTime < a.time) → t.cpu.runState.isTrapped = false

theorem untrappedPath (sane : s.Untrapped target) (path : Path target s t) : t.Untrapped target :=
  fun u rest => sane u (path.trans rest)

theorem untrappedSooner (sane : s.Untrapped later) (before : target ≤ later) :
    s.Untrapped target :=
  fun t path live early quiet =>
    sane t (pathLater path before) live (Nat.lt_of_lt_of_le early before) quiet

theorem performAlarms (now : Time) (action : Action) (rows : List Alarm) :
    ({ s with alarms := rows } : Solo).perform now action =
      { s.perform now action with alarms := rows } := by
  have resumes : ∀ (t : Solo) (reasons : Suspension),
      ({ t with alarms := rows } : Solo).resume now reasons =
        { t.resume now reasons with alarms := rows } := by
    intro t reasons
    by_cases meet : t.suspension.intersects reasons = true
    · by_cases live : (t.suspension.diff reasons).isEmpty = true
      · by_cases early : t.localTime < now <;> simp [resume, isLive, catchUp, meet, live, early]
      · simp [resume, isLive, meet, live]
    · simp [resume, meet]
  cases action with
  | drive line state vector =>
    simp only [perform, drive]
    cases s.lines.set? line state vector with
    | none => rfl
    | some lines =>
      dsimp only
      split
      · exact resumes { s with lines } { spin := true }
      · rfl
  | suspend reasons => rfl
  | resume reasons => exact resumes s reasons
  | spin =>
    simp only [perform]
    split <;> rfl
  | reset asserted =>
    cases asserted with
    | true => rfl
    | false =>
      simp only [perform]
      split
      · exact resumes s.restart { reset := true }
      · rfl

end Solo

namespace Machine
variable {m m' : Machine} {plan : Plan} {index : Nat} {p : Processor}

theorem plainTimers (plain : Plain plan m) (timers : Timer.Queue) :
    Plain plan { m with timers } := by
  refine ⟨fun found => ?_, plain.distinct, plain.free, plain.planned, plain.only, plain.apart⟩
  obtain ⟨quiet, seated, w, wiring, wired⟩ := plain.unit found
  exact ⟨quiet, seated, w, wiring, leadsSame rfl wired.program, leadsSame rfl wired.io⟩

theorem soloTimers {s : Solo} (found : m.units[index]? = some p)
    (alone : m.solo plan index = some s) (timers : Timer.Queue) :
    s.alarms = m.timers.alarms (plan.aimed p.device) ∧ ({ m with timers } : Machine).solo plan index =
      some { s with alarms := timers.alarms (plan.aimed p.device) } := by
  obtain ⟨cpu, w, seated, wired, rfl⟩ := soloSeen found alone
  exact ⟨rfl, soloFound (m := { m with timers }) found seated wired⟩

structure Calm (plan : Plan) (m : Machine) : Prop where
  plain : Plain plan m
  idle : m.frame = none
  sound : m.timers.Sound

theorem calmMoves {f : Solo → Solo} (calm : Calm plan m) (h : Moves plan index f m m') :
    Calm plan m' :=
  ⟨plainBeside calm.plain h.beside, h.frame.trans calm.idle, by
    rw [h.beside.timers]
    exact calm.sound⟩

theorem calmTimers (calm : Calm plan m) {timers : Timer.Queue} (sound : timers.Sound) :
    Calm plan { m with timers } :=
  ⟨plainTimers calm.plain timers, calm.idle, sound⟩

section
variable {limit : Time} {fired : Timer.Fired} {timers : Timer.Queue} {s : Solo} (sound : m.timers.Sound)
  (popped : m.timers.popDue limit = some (fired, timers)) (found : m.units[index]? = some p)
  (alone : m.solo plan index = some s)
include sound popped found alone

theorem soloUnaimed (away : plan.aimed p.device fired.owner fired.param = none) :
    ({ m with timers } : Machine).solo plan index = some s := by
  obtain ⟨before, after⟩ := soloTimers found alone timers
  obtain ⟨period, rest, was, is⟩ := Timer.Queue.popAlarms (plan.aimed p.device) sound popped
  rw [away, Option.map_none, Option.elim_none] at was is
  rw [after, is, ← was, ← before]

theorem soloAimed {action : Action}
    (aimed : plan.aimed p.device fired.owner fired.param = some action) : ∃ period rest,
      s.alarms = ⟨fired.time, period, action⟩ :: rest ∧ ({ m with timers } : Machine).solo plan index =
        some { s with alarms := (Alarm.mk fired.time period action).next rest } := by
  obtain ⟨before, after⟩ := soloTimers found alone timers
  obtain ⟨period, rest, was, is⟩ := Timer.Queue.popAlarms (plan.aimed p.device) sound popped
  rw [aimed, Option.map_some, Option.elim_some] at was is
  exact ⟨period, rest, before.trans was, by rw [after, is]⟩

end

theorem quietAlarms {time : Time} {s : Solo} (alone : m.solo plan index = some s)
    (late : ∀ key ∈ m.timers.order, time < key.time) : ∀ a ∈ s.alarms, time < a.time := by
  intro a mem
  obtain ⟨p, cpu, w, -, -, -, rfl⟩ := soloInv alone
  obtain ⟨key, armed, same⟩ := Timer.Queue.alarmKey mem
  rw [← same]
  exact late key armed

theorem restDone {target : Time} {s : Solo} (late : ∀ key ∈ m.timers.order, target < key.time)
    (reached : ∀ {i : Nat} {p : Processor}, m.units[i]? = some p → p.isLive = true →
      target ≤ p.localTime) (alone : m.solo plan index = some s) : s.next? target = none := by
  have quiet := quietAlarms alone late
  have stays : s.advance? target = none := by
    refine if_neg fun goes => ?_
    obtain ⟨p, cpu, w, found, -, -, rfl⟩ := soloInv alone
    exact absurd (reached found goes.1) (Nat.not_le_of_lt goes.2)
  unfold Solo.next?
  cases alarms : s.alarms with
  | nil => exact stays
  | cons a rest =>
    have early := quiet a (by rw [alarms]; exact List.mem_cons_self ..)
    dsimp only
    rw [if_neg fun due => absurd due.1 (Nat.not_le_of_lt early)]
    exact stays

end Machine

namespace Grant

theorem latestEarly (g : Grant) (sound : g.machine.timers.Sound) (before : g.start < g.target)
    (armed : ∀ key ∈ g.machine.timers.order, g.start < key.time) :
    g.latest < g.target ∧ ∀ key ∈ g.machine.timers.order, g.latest < key.time := by
  obtain ⟨ahead, bound⟩ := g.finishBounds sound before armed
  rcases g.latestCases ahead with early | ⟨-, same, -⟩
  · have most : g.finish ≤ g.target := by
      unfold finish Machine.sliceEnd
      dsimp only
      split <;> simp only [Time.le_def, Time.attos_min] <;> omega
    exact ⟨Nat.lt_of_lt_of_le early most,
      fun key mem => Nat.lt_of_lt_of_le early (bound key mem)⟩
  · rw [same]
    exact ⟨before, armed⟩

end Grant

def Event.Short (index : Nat) : Event → Prop
  | .slice g _ => g.unit = index → g.cycles ≤ Machine.budgetLimit
  | _ => True

namespace Machine
variable {m m' : Machine} {plan : Plan} {index : Nat} {p : Processor} {target : Time}

def Lived (plan : Plan) (target : Time) (m : Machine) (events : List Event)
    (r : Option (Unit × Machine)) : Prop :=
  ∀ u m', r = some (u, m') → Calm plan m' ∧ ∀ {index : Nat} {s : Solo},
    (∀ e ∈ events, e.Short index) → s.Untrapped target → m.solo plan index = some s →
      ∃ s', m'.solo plan index = some s' ∧ Solo.Path target s s'

theorem grantLived {call : Callback} {g : Grant} {starts : List Start} {r : Option (Unit × Machine)}
    (calm : Calm plan g.machine) (live : g.processor.isLive = true) (before : g.start < g.target)
    (armed : ∀ key ∈ g.machine.timers.order, g.start < key.time)
    (ran : watchGranted call g g.machine = (starts, r)) :
    Lived plan g.target g.machine [.slice g starts] r := by
  rintro u m' rfl
  obtain ⟨beside, idle, lived⟩ := g.grantedLived calm.plain live (congrArg Prod.snd ran)
  refine ⟨⟨plainBeside calm.plain beside, idle, ?_⟩, fun {index s} short sane alone => ?_⟩
  · rw [beside.timers]
    exact calm.sound
  · by_cases here : g.unit = index
    · subst here
      obtain ⟨cpu, w, seated, -, same⟩ := soloSeen g.found alone
      have awake : cpu.runState.isTrapped = false := by
        have sane := sane s .refl
        rw [same] at sane
        rw [same] at alone
        exact sane live before (quietAlarms alone armed)
      obtain ⟨s', after, ticks⟩ := lived ⟨short _ (List.mem_singleton_self _) rfl, fun cpu' seat => by
        rw [seated] at seat
        cases seat
        exact awake⟩ s alone
      obtain ⟨first, rest⟩ := g.latestEarly calm.sound before armed
      exact ⟨s', after, Solo.ticksPath ticks first (quietAlarms alone rest)⟩
    · exact ⟨s, soloBeside calm.plain beside (Ne.symm here) alone, .refl⟩

namespace Lived
variable {events rest : List Event} {r : Option (Unit × Machine)}

theorem stuck : Lived plan target m events none := fun _ _ h => by cases h

theorem append {u : Unit} (first : Lived plan target m events (some (u, m')))
    (more : Lived plan target m' rest r) : Lived plan target m (events ++ rest) r := by
  intro v m'' ends
  obtain ⟨calm, way⟩ := more v m'' ends
  refine ⟨calm, fun {index s} short sane alone => ?_⟩
  obtain ⟨s', alone', path⟩ := (first u m' rfl).2
    (fun e mem => short e (List.mem_append_left _ mem)) sane alone
  obtain ⟨s'', alone'', path'⟩ := way (fun e mem => short e (List.mem_append_right _ mem))
    (Solo.untrappedPath sane path) alone'
  exact ⟨s'', alone'', path.trans path'⟩

theorem event (e : Event) (h : Lived plan target m events r) : Lived plan target m (e :: events) r := by
  intro u m' ends
  obtain ⟨calm, way⟩ := h u m' ends
  exact ⟨calm, fun short sane alone => way (fun e mem => short e (List.mem_cons_of_mem _ mem)) sane
    alone⟩

end Lived

theorem firedLived (calm : Calm plan m) {depth : Nat} {limit : Time} {fired : Timer.Fired}
    {timers : Timer.Queue} {u : Unit} (near : limit ≤ target)
    (behind : ∀ {i : Nat} {p : Processor}, m.units[i]? = some p → p.isLive = true →
      limit ≤ p.localTime) (popped : m.timers.popDue limit = some (fired, timers))
    (ran : dispatch (invoke depth) fired { m with timers } = some (u, m')) :
    Lived plan target m [] (some (u, m')) := by
  obtain ⟨sound, now, -, due, -⟩ := Timer.Queue.popInv calm.sound popped
  have calm₁ := calmTimers calm sound
  have clock : ({ m with timers } : Machine).now = fired.time := by
    unfold Machine.now
    rw [calm₁.idle]
    exact now
  rcases dispatchMoves calm₁.plain calm₁.idle ran with
    ⟨i, p, action, found, planned, moved⟩ | ⟨away, still⟩
  · intro v m'' ends
    cases ends
    refine ⟨calmMoves calm₁ moved, fun {index s} _ _ alone => ?_⟩
    obtain ⟨q, cpu, w, row, -, -, same⟩ := soloInv alone
    have early : s.isLive = true → limit ≤ s.localTime := by
      rw [same]
      exact behind row
    by_cases here : index = i
    · subst here
      rw [found] at row
      cases row
      have aimed : plan.aimed p.device fired.owner fired.param = some action := by
        simp [Plan.aimed, planned]
      obtain ⟨period, rest, alarms, left⟩ := soloAimed calm.sound popped found alone aimed
      have after := moved.solo left
      rw [clock, Solo.performAlarms] at after
      refine ⟨_, after, .single ?_⟩
      unfold Solo.next?
      rw [alarms]
      exact if_pos ⟨Nat.le_trans due near, fun live => Nat.le_trans due (early live)⟩
    · have away : plan.aimed q.device fired.owner fired.param = none := by
        have other : p.device ≠ q.device :=
          fun same => here (calm.plain.distinct row found same.symm)
        simp [Plan.aimed, planned, other]
      have left := soloUnaimed calm.sound popped row alone away
      exact ⟨s, soloBeside calm₁.plain moved.beside here left, .refl⟩
  · intro v m'' ends
    cases ends
    refine ⟨calmMoves calm₁ (still 0), fun {index s} _ _ alone => ?_⟩
    obtain ⟨q, cpu, w, row, -, -, -⟩ := soloInv alone
    have left := soloUnaimed calm.sound popped row alone (away row)
    exact ⟨s, (still index).solo left, .refl⟩

theorem waitedLived (calm : Calm plan m) {limit : Time}
    (late : ∀ key ∈ m.timers.order, limit < key.time) :
    Lived plan target m [] (some ((), { m with timers := m.timers.setNow limit })) := by
  have same : ∀ aimed, (m.timers.setNow limit).alarms aimed = m.timers.alarms aimed := by
    intro aimed
    unfold Timer.Queue.setNow
    split <;> rfl
  intro v m' ends
  cases ends
  refine ⟨calmTimers calm (Timer.Queue.soundSetNow calm.sound late), fun {index s} _ _ alone => ?_⟩
  obtain ⟨p, cpu, w, found, -, -, -⟩ := soloInv alone
  obtain ⟨before, after⟩ := soloTimers found alone (m.timers.setNow limit)
  rw [same, ← before] at after
  exact ⟨s, after, .refl⟩

structure Arrived (plan : Plan) (target : Time) (m : Machine) (events : List Event)
    (r : Option (Unit × Machine)) : Prop where
  lived : Lived plan target m events r
  done : ∀ u m', r = some (u, m') → ∀ index s, m'.solo plan index = some s →
    s.next? target = none

theorem Arrived.stuck {events : List Event} : Arrived plan target m events none :=
  ⟨.stuck, fun _ _ h => by cases h⟩

theorem Arrived.after {events rest : List Event} {r : Option (Unit × Machine)} {u : Unit}
    (first : Lived plan target m events (some (u, m'))) (more : Arrived plan target m' rest r) :
    Arrived plan target m (events ++ rest) r :=
  ⟨first.append more.lived, more.done⟩

theorem Arrived.quietly {rest : List Event} {r : Option (Unit × Machine)} {u : Unit}
    (first : Lived plan target m [] (some (u, m'))) (more : Arrived plan target m' rest r) :
    Arrived plan target m rest r :=
  .after first more

theorem Arrived.event {events : List Event} {r : Option (Unit × Machine)} (e : Event)
    (h : Arrived plan target m events r) : Arrived plan target m (e :: events) r :=
  ⟨.event e h.lived, h.done⟩

theorem Arrived.rest (calm : Calm plan m) (late : ∀ key ∈ m.timers.order, target < key.time)
    (reached : ∀ {i : Nat} {p : Processor}, m.units[i]? = some p → p.isLive = true →
      target ≤ p.localTime) : Arrived plan target m [.rest m] (some ((), m)) := by
  refine ⟨fun u m' ends => ?_, fun u m' ends index s alone => ?_⟩
  · cases ends
    exact ⟨calm, fun {index s} _ _ alone => ⟨s, alone, .refl⟩⟩
  · cases ends
    exact restDone late reached alone

theorem watchedArrived {depth : Nat} {events : List Event} {r : Option (Unit × Machine)}
    (watched : Watched (invoke depth) target m events r) (calm : Calm plan m) :
    Arrived plan target m events r := by
  induction watched with
  | stuck | lost | breaks => exact .stuck
  | @fires m _ _ _ _ _ _ due ran _ ih =>
    have fires := firedLived calm (horizonTarget m target) (horizonLive target) due ran
    exact .event _ (.event _ (.quietly fires (ih (fires _ _ rfl).1)))
  | rests quiet level =>
    have late := Timer.Queue.popNone calm.sound.toFiled quiet
    have waits : Lived plan target _ [] _ := waitedLived calm late
    refine .event _ (.quietly waits (.rest (waits _ _ rfl).1 ?_ level))
    rw [Timer.Queue.orderSetNow]
    exact late
  | @slices m _ p _ _ _ _ _ next ran _ ih =>
    have late := Timer.Queue.popNone calm.sound.toFiled next.quiet
    have waits : Lived plan target m [] (some ((), next.grant.machine)) := waitedLived calm late
    have armed : ∀ key ∈ (m.timers.setNow p.localTime).order, p.localTime < key.time := by
      rw [Timer.Queue.orderSetNow]
      exact late
    have slice := grantLived (g := next.grant) (waits _ _ rfl).1 next.live next.before armed ran
    exact .event _ (.quietly waits (.after slice (ih (slice _ _ rfl).1)))

theorem boostMoves (idle : m.frame = none) (quantum duration : Time) :
    Moves plan index id m (m.boostInterleave quantum duration) := by
  have boosted : m.boostInterleave quantum duration =
      { m with boost := some ⟨quantum, m.now + duration⟩ } := yieldIdle idle
  rw [boosted]
  exact ⟨besideSame rfl rfl rfl rfl rfl, rfl, fun alone => alone⟩

theorem boostLived (calm : Calm plan m) (quantum duration : Time) :
    Lived plan target m [] (some ((), m.boostInterleave quantum duration)) := by
  intro u m' ends
  cases ends
  have moves : ∀ index, Moves plan index id m (m.boostInterleave quantum duration) :=
    fun _ => boostMoves calm.idle quantum duration
  exact ⟨calmMoves calm (moves 0), fun {index s} _ _ alone => ⟨s, (moves index).solo alone, .refl⟩⟩

theorem Lived.later {nearer : Time} (before : nearer ≤ target) {events : List Event}
    {r : Option (Unit × Machine)} (h : Lived plan nearer m events r) :
    Lived plan target m events r := by
  intro u m' ends
  obtain ⟨calm, way⟩ := h u m' ends
  refine ⟨calm, fun {index s} short sane alone => ?_⟩
  obtain ⟨s', alone', path⟩ := way short (Solo.untrappedSooner sane before) alone
  exact ⟨s', alone', Solo.pathLater path before⟩

end Machine

end Lockstep
