import Lockstep.Proofs.History

/-! No processor waits behind the clock of the timers, and none runs further ahead of it
than a quantum and seven of its cycles. This holds at every point outside a slice, inside
callbacks too, and nothing that counts time goes back. -/
namespace Lockstep.Machine

/-- How far processors are from the clock of the timers, and from one another. -/
structure Balanced (m : Machine) : Prop where
  outside : m.frame = none
  behind : ∀ {i : Nat} {p : Processor}, m.units[i]? = some p → p.isLive = true →
    m.timers.now ≤ p.localTime
  lead : ∀ {i : Nat} {p : Processor}, m.units[i]? = some p →
    p.localTime.attos ≤ m.timers.now.attos + m.config.quantum.attos + 7 * p.period.attos
  apart : ∀ {i j : Nat} {p q : Processor}, m.units[i]? = some p → m.units[j]? = some q →
    p.isLive = true → q.isLive = true →
      p.localTime.attos ≤ q.localTime.attos + m.config.quantum.attos + 7 * p.period.attos

theorem fairBalanced {m : Machine} (fair : Fair m) : m.Balanced := by
  refine ⟨fair.idle, fair.behind, fair.lead, fun left right _ live => ?_⟩
  have lead := fair.lead left
  have behind := fair.behind right live
  rw [Time.le_def] at behind
  omega

/-- At every point of a history, and at every point of a callback or host call from there
on, the processors are balanced; time only goes forward from point to point. -/
theorem quantumFairness {depth : Nat} {origin : Machine} {events : List Event}
    {r : Option Machine} (built : Built (invoke depth) origin) (only : origin.OnlyAcc8)
    (history : History (invoke depth) origin events r) :
    (∀ e ∈ events, ∀ m, Effect e.machine m → m.Balanced ∧ Forward e.machine m ∧
      ∀ m', Effect m m' → Forward m m') ∧
    events.Pairwise (fun a b => Forward a.machine b.machine) := by
  have passed := historyPassed (invokeActs depth) built only history
  refine ⟨fun e mem m acts => ?_, passed.order⟩
  obtain ⟨fair, -, -⟩ := passed.each e mem
  have kept := effectKept acts
  exact ⟨fairBalanced (fairKept fair kept), kept.toForward, fun m' more => (effectKept more).toForward⟩

theorem pairFairness : ∃ origin events r, Built (invoke 3) origin ∧ origin.OnlyAcc8 ∧
    History (invoke 3) origin events r ∧ 10 < events.length ∧
    (∀ e ∈ events, ∀ m, Effect e.machine m → m.Balanced ∧ Forward e.machine m ∧
      ∀ m', Effect m m' → Forward m m') ∧
    events.Pairwise (fun a b => Forward a.machine b.machine) := by
  obtain ⟨origin, built, only, events, r, history, long⟩ := pairRuns
  exact ⟨origin, events, r, built, only, history, long, quantumFairness built only history⟩

end Lockstep.Machine
