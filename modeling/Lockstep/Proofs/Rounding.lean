import Mathlib.Algebra.Order.Group.Nat
import Lockstep.Time

/-! Cycles and spans of time at one clock rate. As long as a second has no more cycles than
attoseconds, turning cycles into time is exact, and the two ways back are its adjoints: the
cycles within a span are the most that fit in it, the cycles covering it the fewest that last
as long. What the period leaves of a second is less than an attosecond a cycle. -/
namespace Lockstep.ClockRate
variable {c : ClockRate} {p t u : Time} {m n : Nat}

structure Ticks (c : ClockRate) (p : Time) : Prop where
  period : c.period? = some p
  share : p.attos = Time.perSecond / c.hz
  long : 0 < p.attos

theorem ticks (running : 1 ≤ c.hz) (slow : c.hz ≤ Time.perSecond) : ∃ p, c.Ticks p := by
  have short : Time.perSecond / c.hz ≤ Time.last :=
    Nat.le_trans (Nat.div_le_self ..) (by decide)
  refine ⟨.ofAttos (Time.perSecond / c.hz), ?_, Nat.min_eq_left short, ?_⟩
  · rw [period?, Time.ofHz?, if_neg (by omega)]
  · rw [Time.attos_ofAttos, Nat.min_eq_left short]
    exact Nat.div_pos slow running

namespace Ticks

theorem fits (ticks : c.Ticks p) (word : n ≤ Word.largest) : p.attos * n ≤ Time.last := by
  have second : p.attos ≤ Time.perSecond := ticks.share ▸ Nat.div_le_self ..
  exact Nat.le_trans (Nat.mul_le_mul second word) (by decide)

theorem span (ticks : c.Ticks p) (word : n ≤ Word.largest) : (c.span n).attos = p.attos * n := by
  simp only [ClockRate.span, ticks.period, Time.attos_scale]
  exact Nat.min_eq_left (ticks.fits word)

theorem within (ticks : c.Ticks p) (t : Time) :
    c.cyclesWithin t = Word.clamp (t.attos / p.attos) := by
  simp only [cyclesWithin, ticks.period]

theorem covering (ticks : c.Ticks p) (t : Time) :
    c.cyclesCovering t = Word.clamp ((t.attos + p.attos - 1) / p.attos) := by
  simp only [cyclesCovering, ticks.period, if_neg (Nat.ne_of_gt ticks.long)]

theorem leWithin (ticks : c.Ticks p) (word : n ≤ Word.largest) :
    n ≤ c.cyclesWithin t ↔ c.span n ≤ t := by
  rw [ticks.within, Time.le_def, ticks.span word, Word.clamp, Nat.le_min, and_iff_left word,
    Nat.le_div_iff_mul_le ticks.long, Nat.mul_comm]

theorem coveringLe (ticks : c.Ticks p) (word : n < Word.largest) :
    c.cyclesCovering t ≤ n ↔ t ≤ c.span n := by
  have long := ticks.long
  rw [ticks.covering, Time.le_def, ticks.span (Nat.le_of_lt word), Word.clamp, min_le_iff,
    or_iff_left (Nat.not_le_of_lt word), Nat.div_le_iff_le_mul_add_pred long]
  omega

theorem withinMono (ticks : c.Ticks p) (order : t ≤ u) : c.cyclesWithin t ≤ c.cyclesWithin u := by
  rw [ticks.within, ticks.within]
  exact Word.clamp_mono (Nat.div_le_div_right order)

theorem coveringMono (ticks : c.Ticks p) (order : t ≤ u) :
    c.cyclesCovering t ≤ c.cyclesCovering u := by
  rw [Time.le_def] at order
  rw [ticks.covering, ticks.covering]
  exact Word.clamp_mono (Nat.div_le_div_right (by omega))

theorem withinLeCovering (ticks : c.Ticks p) (t : Time) :
    c.cyclesWithin t ≤ c.cyclesCovering t := by
  have long := ticks.long
  rw [ticks.within, ticks.covering]
  exact Word.clamp_mono (Nat.div_le_div_right (by omega))

theorem coveringLeSucc (ticks : c.Ticks p) (t : Time) :
    c.cyclesCovering t ≤ c.cyclesWithin t + 1 := by
  have up : (t.attos + p.attos - 1) / p.attos ≤ t.attos / p.attos + 1 := by
    rw [← Nat.add_div_right _ ticks.long]
    exact Nat.div_le_div_right (Nat.sub_le ..)
  rw [ticks.within, ticks.covering]
  simp only [Word.clamp]
  omega

theorem withinSpan (ticks : c.Ticks p) (word : n ≤ Word.largest) :
    c.cyclesWithin (c.span n) = n := by
  have bound : c.cyclesWithin (c.span n) ≤ Word.largest := by
    rw [ticks.within]
    exact Word.clamp_le _
  refine Nat.le_antisymm ?_ ((ticks.leWithin word).mpr (Nat.le_refl _))
  have back : c.span (c.cyclesWithin (c.span n)) ≤ c.span n :=
    (ticks.leWithin bound).mp (Nat.le_refl _)
  rw [Time.le_def, ticks.span bound, ticks.span word] at back
  exact Nat.le_of_mul_le_mul_left back ticks.long

theorem coveringSpan (ticks : c.Ticks p) (word : n ≤ Word.largest) :
    c.cyclesCovering (c.span n) = n := by
  refine Nat.le_antisymm ?_ ?_
  · rcases Nat.lt_or_eq_of_le word with small | rfl
    · exact (ticks.coveringLe small).mpr (Nat.le_refl _)
    · rw [ticks.covering]
      exact Word.clamp_le _
  · calc n = c.cyclesWithin (c.span n) := (ticks.withinSpan word).symm
      _ ≤ c.cyclesCovering (c.span n) := ticks.withinLeCovering _

theorem second (ticks : c.Ticks p) (slow : c.hz ≤ Time.perSecond) :
    (c.span c.hz).attos + Time.perSecond % c.hz = Time.perSecond := by
  rw [ticks.span (Nat.le_trans slow (by decide)), ticks.share, Nat.mul_comm]
  exact Nat.div_add_mod ..

end Ticks

/-- At any rate of one to 10^18 cycles a second, cycles and time convert into each other without
loss but for rounding. A span of whole cycles is the exact product and gives the cycles back by
either rounding; rounding down is adjoint to it from below, rounding up from above; both
roundings are monotone and at most one cycle apart; and the cycles of a second last no longer
than it and fall short by less than their number in attoseconds. -/
theorem roundingAdjoint (running : 1 ≤ c.hz) (slow : c.hz ≤ 10 ^ 18) :
    (∀ n < 2 ^ 64, c.cyclesWithin (c.span n) = n ∧ c.cyclesCovering (c.span n) = n) ∧
    (∀ n < 2 ^ 64, ∀ t, n ≤ c.cyclesWithin t ↔ c.span n ≤ t) ∧
    (∀ n < 2 ^ 64 - 1, ∀ t, c.cyclesCovering t ≤ n ↔ t ≤ c.span n) ∧
    (∃ p, c.period? = some p ∧ ∀ n < 2 ^ 64,
      p.attos * n ≤ Time.last ∧ (c.span n).attos = p.attos * n) ∧
    (∀ t u, t ≤ u →
      c.cyclesWithin t ≤ c.cyclesWithin u ∧ c.cyclesCovering t ≤ c.cyclesCovering u) ∧
    (∀ t, c.cyclesWithin t ≤ c.cyclesCovering t ∧ c.cyclesCovering t ≤ c.cyclesWithin t + 1) ∧
    c.span c.hz ≤ .ofSecs 1 ∧ (Time.ofSecs 1 - c.span c.hz).attos < c.hz := by
  obtain ⟨p, ticks⟩ := c.ticks running slow
  have word {n : Nat} (small : n < 2 ^ 64) : n ≤ Word.largest := Nat.le_of_lt_succ small
  refine ⟨fun n small => ⟨ticks.withinSpan (word small), ticks.coveringSpan (word small)⟩,
    fun n small t => ticks.leWithin (word small), fun n small t => ticks.coveringLe small,
    ⟨p, ticks.period, fun n small => ⟨ticks.fits (word small), ticks.span (word small)⟩⟩,
    fun t u order => ⟨ticks.withinMono order, ticks.coveringMono order⟩,
    fun t => ⟨ticks.withinLeCovering t, ticks.coveringLeSucc t⟩, ?_⟩
  have whole := ticks.second slow
  have rest := Nat.mod_lt Time.perSecond (Nat.lt_of_lt_of_le Nat.zero_lt_one running)
  have one : (Time.ofSecs 1).attos = Time.perSecond := by decide
  rw [Time.le_def, Time.attos_sub, one]
  omega

theorem burstRounds :
    let c : ClockRate := ⟨3579545⟩
    (1 ≤ c.hz ∧ c.hz ≤ 10 ^ 18) ∧ c.period? = some (.ofAttos 279365114840) ∧
      c.cyclesCovering (c.span 3579545) = 3579545 ∧
      (Time.ofSecs 1 - c.span 3579545).attos < 3579545 := by
  have range : 1 ≤ 3579545 ∧ 3579545 ≤ 10 ^ 18 := by decide
  have rounds := roundingAdjoint (c := ⟨3579545⟩) range.1 range.2
  exact ⟨range, by decide, (rounds.1 3579545 (by decide)).2, rounds.2.2.2.2.2.2.2⟩

end Lockstep.ClockRate
