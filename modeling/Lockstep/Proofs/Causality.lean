import Lockstep.Proofs.History

/-! Timers and processors see the same order of time. A timer fires when every live
processor has reached it, and a processor runs only up to the first armed timer. Since
every slice starts at the clock of the timers and ends within a quantum, what starts
later in a history starts no more than a quantum earlier in time. -/
namespace Lockstep

/-- A slice goes to the least advanced live processor, and nothing in it starts at or
after its end or an armed timer; with no span at all, a single start is left. -/
structure Grant.Causal (g : Grant) (starts : List Start) : Prop where
  live : g.processor.isLive = true
  least : ∀ {i : Nat} {p : Processor}, g.machine.units[i]? = some p → p.isLive = true →
    g.start ≤ p.localTime
  before : g.start < g.target
  armed : ∀ {id : Timer.Id} {time : Time}, g.machine.timers.fireTime? id = some time →
    g.start < time ∧ g.finish ≤ time
  inside : ∀ s ∈ starts, s.machine.now < g.finish ∨
    g.finish = g.start ∧ s.machine.now = g.start ∧ starts = [s]
  unfired : ∀ s ∈ starts, ∀ {id : Timer.Id} {time : Time},
    g.machine.timers.fireTime? id = some time → s.machine.now < time

def Event.Causal : Event → Prop
  | .rest _ => True
  | .fired timer m => ∀ {i : Nat} {p : Processor}, m.units[i]? = some p → p.isLive = true →
      timer.time ≤ p.localTime
  | .slice g starts => g.Causal starts

namespace Machine

theorem sliceCausal {g : Grant} {starts : List Start} (fair : Fair g.machine)
    (due : (Event.slice g starts).Due) : g.Causal starts := by
  obtain ⟨live, least, -, before, keys, started, length⟩ := due
  obtain ⟨ahead, bound⟩ := g.finishBounds fair.sound before keys
  have armed : ∀ {id : Timer.Id} {time : Time}, g.machine.timers.fireTime? id = some time →
      g.start < time ∧ g.finish ≤ time := by
    intro id time fires
    obtain ⟨key, mem, rfl⟩ := Timer.Queue.armedKey fair.sound.toFiled fires
    exact ⟨keys key mem, bound key mem⟩
  have inside : ∀ s ∈ starts, s.machine.now < g.finish ∨
      g.finish = g.start ∧ s.machine.now = g.start ∧ starts = [s] := by
    intro s mem
    obtain ⟨within, left⟩ := started s mem
    have latest := Grant.nowLeLatest within left
    have start := Grant.startLeNow within
    rcases g.latestCases ahead with early | ⟨empty, level, one⟩
    · exact .inl (Nat.lt_of_le_of_lt latest early)
    · rw [level] at latest
      refine .inr ⟨empty, Time.ext (Nat.le_antisymm latest start), ?_⟩
      rw [one] at length
      obtain ⟨t, rfl⟩ := List.length_eq_one_iff.mp
        (Nat.le_antisymm length (List.length_pos_of_mem mem))
      rw [List.mem_singleton.mp mem]
  refine ⟨live, least, before, armed, inside, fun s mem {id time} fires => ?_⟩
  obtain ⟨later, bound⟩ := armed fires
  rcases inside s mem with early | ⟨-, level, -⟩
  · exact Nat.lt_of_lt_of_le early bound
  · rw [level]
    exact later

/-- Every event of a history is causal: no timer fires ahead of a live processor, and no
processor starts anything at or after a timer that was armed when its slice began. -/
theorem timerCausality {depth : Nat} {origin : Machine} {events : List Event}
    {r : Option Machine} (built : Built (invoke depth) origin) (only : origin.OnlyAcc8)
    (history : History (invoke depth) origin events r) : ∀ e ∈ events, e.Causal := by
  intro e mem
  obtain ⟨fair, -, due⟩ := (historyPassed (invokeActs depth) built only history).each e mem
  cases e with
  | rest m => exact trivial
  | fired timer m => exact due
  | slice g starts => exact sliceCausal fair due

theorem pairCausality : ∃ origin events r, Built (invoke 3) origin ∧ origin.OnlyAcc8 ∧
    History (invoke 3) origin events r ∧ 10 < events.length ∧ ∀ e ∈ events, e.Causal := by
  obtain ⟨origin, built, only, events, r, history, long⟩ := pairRuns
  exact ⟨origin, events, r, built, only, history, long, timerCausality built only history⟩

end Machine

def Event.starts : Event → List (Nat × Start)
  | .slice g starts => starts.map (g.unit, ·)
  | _ => []

def Start.time (s : Start) : Time := s.machine.now

namespace Machine

theorem startWindow {e : Event} (fair : Fair e.machine) (due : e.Due) :
    ∀ s ∈ e.starts, e.machine.timers.now ≤ s.2.time ∧
      s.2.time.attos ≤ e.machine.timers.now.attos + e.machine.config.quantum.attos := by
  intro s mem
  cases e with
  | rest m => cases mem
  | fired timer m => cases mem
  | slice g starts =>
    obtain ⟨-, -, level, before, keys, started, -⟩ := due
    obtain ⟨start, among, rfl⟩ := List.mem_map.mp mem
    obtain ⟨within, left⟩ := started start among
    have ahead := (g.finishBounds fair.sound before keys).1
    have latest := Grant.nowLeLatest within left
    have quantum := g.latestLeQuantum ahead
    change g.machine.timers.now ≤ start.machine.now ∧
      start.machine.now.attos ≤ g.machine.timers.now.attos + _
    rw [level]
    rw [Time.le_def] at latest
    exact ⟨Grant.startLeNow within, Nat.le_trans latest quantum⟩

theorem startsOrdered {m : Machine} {events : List Event} {r : Option (Unit × Machine)}
    (passed : Passed m events r) :
    (events.flatMap Event.starts).Pairwise fun i j =>
      i.2.time.attos ≤ j.2.time.attos + m.config.quantum.attos := by
  have window : ∀ e ∈ events, ∀ s ∈ e.starts, e.machine.timers.now ≤ s.2.time ∧
      s.2.time.attos ≤ e.machine.timers.now.attos + m.config.quantum.attos := by
    intro e mem
    obtain ⟨fair, forward, due⟩ := passed.each e mem
    rw [← forward.config]
    exact startWindow fair due
  have order := passed.order
  clear passed
  induction events with
  | nil => exact .nil
  | cons e rest ih =>
    obtain ⟨first, order⟩ := List.pairwise_cons.mp order
    rw [List.flatMap_cons]
    refine List.pairwise_append.mpr ⟨?_, ih (fun e mem => window e (List.mem_cons_of_mem _ mem)) order,
      fun i left j right => ?_⟩
    · refine List.pairwise_of_forall_mem_list fun i left j right => ?_
      have one := (window e (List.mem_cons_self ..) i left).2
      have two := (window e (List.mem_cons_self ..) j right).1
      rw [Time.le_def] at two
      omega
    · obtain ⟨e', mem, right⟩ := List.mem_flatMap.mp right
      have one := (window e (List.mem_cons_self ..) i left).2
      have two := (window e' (List.mem_cons_of_mem _ mem) j right).1
      have clock := (first e' mem).clock
      rw [Time.le_def] at two clock
      omega

/-- Of two starts more than a quantum apart the earlier is executed first: in the order
of execution the times of starts never step back by more than a quantum. -/
theorem boundedSkew {depth : Nat} {origin : Machine} {events : List Event}
    {r : Option Machine} (built : Built (invoke depth) origin) (only : origin.OnlyAcc8)
    (history : History (invoke depth) origin events r) :
    (∀ {a b : Nat} {i j : Nat × Start}, (events.flatMap Event.starts)[a]? = some i →
      (events.flatMap Event.starts)[b]? = some j →
        i.2.time + origin.config.quantum < j.2.time → a < b) ∧
    (events.flatMap Event.starts).Pairwise fun i j =>
      i.2.time ≤ j.2.time + origin.config.quantum := by
  have order := startsOrdered (historyPassed (invokeActs depth) built only history)
  refine ⟨fun {a b i j} first second apart => ?_, order.imp fun {i j} close => ?_⟩
  · refine Nat.lt_of_not_le fun late => ?_
    rw [Time.lt_def, Time.attos_add] at apart
    have bounded := j.2.time.bounded
    rcases Nat.lt_or_eq_of_le late with late | rfl
    · obtain ⟨low, rfl⟩ := List.getElem?_eq_some_iff.mp second
      obtain ⟨high, rfl⟩ := List.getElem?_eq_some_iff.mp first
      have close := List.pairwise_iff_getElem.mp order b a low high late
      omega
    · rw [first] at second
      cases second
      omega
  · have bounded := i.2.time.bounded
    rw [Time.le_def, Time.attos_add]
    omega

theorem pairSkew : ∃ origin events r, Built (invoke 3) origin ∧ origin.OnlyAcc8 ∧
    History (invoke 3) origin events r ∧ 10 < events.length ∧
    (∀ {a b : Nat} {i j : Nat × Start}, (events.flatMap Event.starts)[a]? = some i →
      (events.flatMap Event.starts)[b]? = some j →
        i.2.time + origin.config.quantum < j.2.time → a < b) ∧
    (events.flatMap Event.starts).Pairwise fun i j =>
      i.2.time ≤ j.2.time + origin.config.quantum := by
  obtain ⟨origin, built, only, events, r, history, long⟩ := pairRuns
  exact ⟨origin, events, r, built, only, history, long, boundedSkew built only history⟩

end Machine

end Lockstep
