import Lockstep.Proofs.Slice

/-! The order in which a run does things. Between slices the clock of the timers is at
or behind every live processor, and no processor is further ahead of it than a quantum
and the longest overrun. A step of a run keeps that, starting from any such machine,
and moves neither the clock nor a local time back. -/
namespace Lockstep

namespace Machine

theorem settleKept {m : Machine} {unit : Nat} {p : Processor} (found : m.units[unit]? = some p)
    (cycles consumed : Nat) (trap : Option Trap) (start : Time) :
    Kept (m.modifyUnit unit fun q =>
      { q with
        localTime := start + p.period.scale (if consumed = 0 then cycles else consumed)
        totalCycles := Word.add q.totalCycles consumed
        yieldRequested := false }) (m.settle unit cycles consumed trap start) := by
  have yielded : ∀ s : Machine, Kept s (if p.yieldRequested then s.count (·.yielded) else s) := by
    intro s
    split
    · exact countKept s _
    · exact .refl s
  have marked : ∀ s : Machine, Kept s (s.modifyUnit unit fun p =>
      { p with suspension := p.suspension.union { trapped := true } }) := fun s =>
    .modifyUnit fun q _ => .still rfl rfl rfl rfl Suspension.emptyOfUnion
  have counted := countKept (m.modifyUnit unit fun q =>
    { q with
      localTime := start + p.period.scale (if consumed = 0 then cycles else consumed)
      totalCycles := Word.add q.totalCycles consumed
      yieldRequested := false }) (·.slice cycles consumed)
  have traced := (counted.trans (yielded _)).trans (Kept.trace _ (.sliceEnd p.device
    (start + p.period.scale (if consumed = 0 then cycles else consumed)) consumed))
  unfold settle
  rw [found]
  cases trap with
  | none => exact traced
  | some cause =>
    dsimp only
    by_cases out : p.suspension.trapped = true
    · rw [if_pos out]
      exact traced
    · rw [if_neg out]
      exact traced.trans (((marked _).trans (countKept _ _)).trans (.trace _ _))

end Machine

namespace Grant
open Machine (Kept)
variable {g : Grant} {m m' : Machine}

structure Closed (g : Grant) (m : Machine) : Prop where
  config : m.config = g.machine.config
  frame : m.frame = none
  clock : m.timers.now = g.machine.timers.now
  sound : g.machine.timers.Sound → m.timers.Sound
  size : m.units.size = g.machine.units.size
  classes : ∀ id, m.classOf? id = g.machine.classOf? id
  other : ∀ {i : Nat} {p : Processor}, i ≠ g.unit → g.machine.units[i]? = some p →
    ∃ p', m.units[i]? = some p' ∧ p.Kept g.start g.latest p'
  own : ∃ p, m.units[g.unit]? = some p ∧ p.device = g.processor.device ∧
    p.clock = g.processor.clock ∧ g.start ≤ p.localTime ∧
    p.localTime.attos ≤ g.start.attos + g.processor.period.attos * (g.cycles + 6)

theorem startLeLatest (g : Grant) : g.start ≤ g.latest := Time.leAdd ..

theorem latestBound (g : Grant) :
    g.latest.attos ≤ g.start.attos + g.processor.period.attos * (g.cycles - 1) := by
  unfold latest
  rw [Time.attos_add, Time.attos_scale]
  omega

theorem closedKept (level : g.machine.timers.now = g.start) (c : g.Closed m) (kept : Kept m m') :
    g.Closed m' := by
  have now : m.now = g.start := by
    unfold Machine.now
    rw [c.frame]
    exact c.clock.trans level
  refine ⟨kept.config.trans c.config, kept.frame.trans c.frame, kept.clock.trans c.clock,
    kept.sound ∘ c.sound, kept.size.trans c.size,
    fun id => (kept.classes id).trans (c.classes id), fun away found => ?_, ?_⟩
  · obtain ⟨q, found, one⟩ := c.other away found
    obtain ⟨r, found, two⟩ := kept.each found
    rw [now] at two
    exact ⟨r, found, one.trans (two.widen (Nat.le_refl _) g.startLeLatest)⟩
  · obtain ⟨p, found, device, clock, least, most⟩ := c.own
    obtain ⟨q, found, moved⟩ := kept.each found
    rw [now] at moved
    refine ⟨q, found, moved.device.trans device, moved.clock.trans clock,
      Nat.le_trans least moved.forward, ?_⟩
    have := moved.within
    omega

theorem closedModify (w : g.Within m) (f : Processor → Processor)
    (own : ∀ q : Processor, g.processor.Kept g.start g.latest q → (f q).device = q.device ∧
      (f q).clock = q.clock ∧ g.start ≤ (f q).localTime ∧
      (f q).localTime.attos ≤ g.start.attos + g.processor.period.attos * (g.cycles + 6)) :
    g.Closed ({ m with frame := none }.modifyUnit g.unit f) := by
  refine ⟨w.config, rfl, w.clock, w.sound, Array.size_modify.trans w.size, w.classes,
    fun {i p} away found => ?_, ?_⟩
  · obtain ⟨q, row, kept⟩ := w.each found
    exact ⟨q, by simp only [Machine.modifyUnit, Array.getElem?_modify, if_neg away.symm, row], kept⟩
  · obtain ⟨q, row, kept⟩ := w.each g.found
    obtain ⟨device, clock, least, most⟩ := own q kept
    refine ⟨f q, ?_, device.trans kept.device, clock.trans kept.clock, least, most⟩
    simp only [Machine.modifyUnit, Array.getElem?_modify, if_true, row, Option.map_some]

theorem closedDisabled (w : g.Within m) : g.Closed (g.concluded none m) := by
  refine closedModify w _ fun q kept => ?_
  have disabled : q.Kept g.start g.latest
      { q with suspension := q.suspension.union { disabled := true } } :=
    .still rfl rfl rfl rfl Suspension.emptyOfUnion
  have all := kept.trans disabled
  refine ⟨disabled.device, disabled.clock, all.forward, ?_⟩
  have most := all.within
  have bound := g.latestBound
  have more := Nat.mul_le_mul_left g.processor.period.attos
    (show g.cycles - 1 ≤ g.cycles + 6 by omega)
  change _ ≤ max g.start.attos _ at most
  omega

theorem closedSettled (level : g.machine.timers.now = g.start) (w : g.Within m) {count : Nat}
    (most : count ≤ g.cycles + 6) (trap : Option Trap) : g.Closed (g.concluded (some (count, trap)) m) := by
  obtain ⟨q, row, kept⟩ := w.each g.found
  have row' : ({ m with frame := none } : Machine).units[g.unit]? = some q := row
  refine closedKept level ?_ (Machine.settleKept row' g.cycles count trap g.start)
  refine closedModify w _ fun _ _ => ⟨rfl, rfl, Time.leAdd .., ?_⟩
  have period : q.period = g.processor.period := by
    rw [Processor.period, Processor.period, kept.clock]
  have charged : (if count = 0 then g.cycles else count) ≤ g.cycles + 6 := by
    split <;> omega
  have cost := Nat.mul_le_mul_left g.processor.period.attos charged
  simp only [Time.attos_add, Time.attos_scale, period]
  omega

theorem grantedCloses {call : Callback} (calls : ∀ s m, Machine.Acts (call s) m)
    (level : g.machine.timers.now = g.start)
    (acc8 : g.machine.classOf? g.processor.device ≠ some .sequencer) :
    (Machine.watchGranted call g).Ensures g.machine fun starts r =>
      (∀ s ∈ starts, g.Started s) ∧ starts.length ≤ g.cycles ∧
        ∀ u m', r = some (u, m') → g.Closed m' := by
  have full := g.openedBudget
  have counted := grantCounted calls g.processor.device acc8 (withinOpened g)
    (by rw [full]; exact g.budgetPos)
  have within : ∀ {α : Type} {notes : List Start} {r : Option (α × Machine)},
      g.Stretch g.opened notes r → notes.length ≤ g.cycles := by
    intro α notes r stretch
    have paid := stretch.paid
    rw [full] at paid
    omega
  refine Watch.ensuresOf (fun h => by cases h) fun _ m₁ opened => ?_
  cases opened
  refine Watch.ensuresThen counted
    (fun _ lost => ⟨lost.1.started, within lost.1, fun _ _ h => by cases h⟩)
    fun notes outcome m₂ ended => ?_
  obtain ⟨stretch, bound⟩ := ended
  obtain ⟨w, -, -⟩ := stretch.ends _ _ rfl
  refine Watch.ensuresOf (fun h => by cases h) fun _ m₃ left => ?_
  cases left
  -- settling notes nothing more
  have started : ∀ s ∈ notes ++ [], g.Started s := by
    rw [List.append_nil]
    exact stretch.started
  have length : (notes ++ []).length ≤ g.cycles := by
    rw [List.append_nil]
    exact within stretch
  cases outcome with
  | none =>
    refine ⟨started, length, fun u m' h => ?_⟩
    cases h
    exact closedDisabled w
  | some row =>
    obtain ⟨count, trap⟩ := row
    refine ⟨started, length, fun u m' h => ?_⟩
    cases h
    exact closedSettled level w (bound count trap m₂ rfl) trap

theorem quantumAtLe (m : Machine) (time : Time) : m.quantumAt time ≤ m.config.quantum := by
  unfold Machine.quantumAt
  rw [Time.le_def]
  split
  · split
    · rw [Time.attos_min]
      exact Nat.min_le_right ..
    · exact Nat.le_refl _
  · exact Nat.le_refl _

theorem finishLeQuantum (g : Grant) :
    g.finish.attos ≤ g.start.attos + g.machine.config.quantum.attos := by
  have short := quantumAtLe g.machine g.start
  rw [Time.le_def] at short
  unfold finish Machine.sliceEnd
  dsimp only
  split <;> simp only [Time.attos_min, Time.attos_add] <;> omega

theorem cyclesFit (g : Grant) :
    g.cycles = 1 ∨ g.processor.period.attos * (g.cycles - 1) < g.finish.attos - g.start.attos := by
  have least := g.cyclesPos
  unfold cycles at *
  unfold ClockRate.cyclesCovering at *
  unfold Processor.period
  cases g.processor.clock.period? with
  | none => exact .inl rfl
  | some p =>
    simp only [Option.getD_some, Time.attos_max, Time.attos_ofAttos, Time.attos_sub] at *
    have one : min 1 Time.last = 1 := rfl
    rw [one]
    by_cases stopped : p.attos = 0
    · rw [if_pos stopped]
      exact .inl rfl
    · rw [if_neg stopped]
      generalize g.finish.attos - g.start.attos = span
      have period : max p.attos 1 = p.attos := by omega
      rw [period]
      by_cases few : max (Word.clamp ((span + p.attos - 1) / p.attos)) 1 = 1
      · exact .inl few
      · right
        have fit := Nat.mul_div_le (span + p.attos - 1) p.attos
        have most : Word.clamp ((span + p.attos - 1) / p.attos) ≤ (span + p.attos - 1) / p.attos :=
          Nat.min_le_left ..
        have less := Nat.mul_le_mul_left p.attos
          (show max (Word.clamp ((span + p.attos - 1) / p.attos)) 1 - 1 ≤
            (span + p.attos - 1) / p.attos - 1 by omega)
        have whole : p.attos * ((span + p.attos - 1) / p.attos - 1) =
            p.attos * ((span + p.attos - 1) / p.attos) - p.attos := by
          rw [Nat.mul_sub, Nat.mul_one]
        have some : 1 ≤ (span + p.attos - 1) / p.attos := by omega
        have more := Nat.mul_le_mul_left p.attos some
        omega

theorem latestCases (g : Grant) (ahead : g.start ≤ g.finish) :
    g.latest < g.finish ∨ g.finish = g.start ∧ g.latest = g.start ∧ g.cycles = 1 := by
  rw [Time.le_def] at ahead
  have bound := g.latestBound
  rcases g.cyclesFit with one | fit
  · have latest : g.latest = g.start := by
      apply Time.ext
      unfold Grant.latest
      rw [one, Time.attos_add, Time.attos_scale]
      have := g.start.bounded
      omega
    by_cases empty : g.finish = g.start
    · exact .inr ⟨empty, latest, one⟩
    · left
      have different : g.finish.attos ≠ g.start.attos := fun h => empty (Time.ext h)
      rw [latest, Time.lt_def]
      omega
  · left
    rw [Time.lt_def]
    omega

theorem latestLeQuantum (g : Grant) (ahead : g.start ≤ g.finish) :
    g.latest.attos ≤ g.start.attos + g.machine.config.quantum.attos := by
  have short := g.finishLeQuantum
  rcases g.latestCases ahead with early | ⟨-, latest, -⟩
  · rw [Time.lt_def] at early
    omega
  · rw [latest]
    omega

theorem overrunSplit (g : Grant) : g.processor.period.attos * (g.cycles + 6) =
    g.processor.period.attos * (g.cycles - 1) + 7 * g.processor.period.attos := by
  have positive := g.cyclesPos
  rw [Nat.mul_comm 7, ← Nat.mul_add]
  congr 1
  omega

theorem overrunBound (g : Grant) (ahead : g.start ≤ g.finish) :
    g.start.attos + g.processor.period.attos * (g.cycles + 6) ≤
      g.start.attos + g.machine.config.quantum.attos + 7 * g.processor.period.attos := by
  have short := g.finishLeQuantum
  rw [Time.le_def] at ahead
  have split_ := g.overrunSplit
  rcases g.cyclesFit with one | fit
  · rw [one, Nat.sub_self, Nat.mul_zero] at split_
    rw [one]
    omega
  · omega

end Grant

end Lockstep
