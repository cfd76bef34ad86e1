import Lockstep.Proofs.Changes

/-! Suspended processors. Reasons to be suspended are added and removed as a set, and only four
things remove any: a resume, an active line, the release of a reset and a reset of the machine.
A processor is live again when one of them takes the last reason, and not before. -/
namespace Lockstep

namespace Suspension
variable {s reasons : Suspension}

theorem emptyIff : s.isEmpty = true ↔ s = {} := beq_iff_eq

theorem diffApart (apart : s.intersects reasons = false) : s.diff reasons = s := by
  obtain ⟨s₁, s₂, s₃, s₄, s₅, s₆⟩ := s
  simp [intersects, inter, diff, zip, isEmpty] at apart ⊢
  grind

theorem diffDiff (s a b : Suspension) : (s.diff a).diff b = s.diff (a.union b) := by
  simp [diff, union, zip, Bool.and_assoc]

end Suspension

/-- What takes reasons from the processor at `i`, with the reasons that it takes. -/
inductive Processor.Relieved (a b : Machine) (i : Nat) (p : Processor) : Suspension → Prop where
  | resume {reasons} (ok : a.resume p.device reasons = .ok b) : Relieved a b i p reasons
  | line {line state vector} (ok : a.driveLine p.device line state vector = .ok b)
      (active : state.isActive = true) : Relieved a b i p { spin := true }
  | release (ok : a.driveReset p.device false = .ok b) (held : p.suspension.reset = true) :
      Relieved a b i p { reset := true, trapped := true }
  | restart {now s} (reset : a.resetUnit i = .ok s) (restarted : b = Machine.restartUnit now a i) :
      Relieved a b i p { trapped := true, spin := true }

section
variable {rule : Rule} {a b : Machine} {i : Nat} {p p' : Processor} {reasons : Suspension}

theorem Processor.Change.relief (change : p.Change rule a b i p') (held : p.isLive = false)
    (live : p'.isLive = true) :
    ∃ reasons, p.Relieved a b i reasons ∧ p'.suspension = p.suspension.diff reasons := by
  have same : p'.suspension = p.suspension → False := by
    intro same
    rw [isLive, same] at live
    exact absurd live (ne_true_of_eq_false held)
  have more : ∀ {added : Suspension}, p'.suspension = p.suspension.union added → False := by
    intro added more
    rw [isLive, more] at live
    exact absurd (Suspension.emptyOfUnion live) (ne_true_of_eq_false held)
  cases change with
  | publish | accept | ready => exact (same rfl).elim
  | disable => exact (more rfl).elim
  | settle localTime totalCycles trapped =>
    rcases trapped with trapped | trapped
    · exact (same trapped).elim
    · exact (more trapped).elim
  | restart reset restarted =>
    refine ⟨_, .restart reset restarted, (catchUpLines ..).2.1.trans ?_⟩
    exact Suspension.diffDiff ..
  | move moved =>
    cases moved with
    | same | yields | drive => exact (same rfl).elim
    | suspend | spin => exact (more rfl).elim
    | wake ok active => exact ⟨_, .line ok active, (liftLines ..).2.1⟩
    | resume ok => exact ⟨_, .resume ok, (liftLines ..).2.1⟩
    | release ok held =>
      exact ⟨_, .release ok held, (liftLines ..).2.1.trans (Suspension.diffDiff ..)⟩

namespace Machine

theorem relievedSuspension (unit : a.unit p.device = .ok (i, p))
    (relieved : p.Relieved a b i reasons) :
    ∃ p', b.units[i]? = some p' ∧ p'.suspension = p.suspension.diff reasons := by
  have found := (unitInv unit).2
  have after : ∀ {f : Processor → Processor}, b.units = (a.modifyUnit i f).units →
      (f p).suspension = p.suspension.diff reasons →
      ∃ p', b.units[i]? = some p' ∧ p'.suspension = p.suspension.diff reasons := by
    intro f units same
    refine ⟨f p, ?_, same⟩
    rw [units]
    exact unitModified found f
  cases relieved with
  | resume ok =>
    obtain ⟨index, q, unit', kept⟩ := resumeUnits ok
    rw [unit] at unit'
    cases unit'
    rcases kept with ⟨apart, rfl⟩ | ⟨-, units⟩
    · exact ⟨p, found, (Suspension.diffApart apart).symm⟩
    · exact after units (Processor.liftLines ..).2.1
  | line ok active =>
    obtain ⟨index, q, lines, unit', -, units⟩ := driveLineUnits ok
    rw [unit] at unit'
    cases unit'
    refine after units ?_
    cases spins : p.suspension.spin with
    | true => simp only [active, Bool.and_self, if_true, (Processor.liftLines ..).2.1]
    | false =>
      simp only [Bool.and_false]
      refine (Suspension.diffApart ?_).symm
      simp [Suspension.intersects, Suspension.inter, Suspension.zip, Suspension.isEmpty, spins]
  | release ok held =>
    obtain ⟨index, q, unit', kept⟩ := driveResetUnits ok
    rw [unit] at unit'
    cases unit'
    rcases kept with ⟨free, -⟩ | ⟨-, units⟩
    · exact absurd held (ne_true_of_eq_false free)
    · exact after units ((Processor.liftLines ..).2.1.trans (Suspension.diffDiff ..))
  | restart reset restarted =>
    subst restarted
    refine after (restartUnits _ reset) ((Processor.catchUpLines ..).2.1.trans ?_)
    exact Suspension.diffDiff ..

theorem suspendAdds {device : DeviceId} (ok : a.suspend device reasons = .ok b) :
    ∃ i p p', a.unit device = .ok (i, p) ∧ b.units[i]? = some p' ∧
      p'.suspension = p.suspension.union reasons := by
  obtain ⟨i, p, unit, units⟩ := suspendUnits ok
  have found := unitModified (unitInv unit).2 fun q =>
    { q with
      suspension := p.suspension.union reasons
      yieldRequested := q.yieldRequested || a.running i }
  rw [← units] at found
  exact ⟨i, p, _, unit, found, rfl⟩

theorem stepRelief {device : DeviceId} (unit : a.unit device = .ok (i, p))
    (held : p.suspension ≠ {}) (step : Step rule a b) :
    ∃ p', b.units[i]? = some p' ∧ (p'.suspension = {} ↔
      ∃ reasons, p.Relieved a b i reasons ∧ p.suspension.diff reasons = {}) := by
  have here := unitFound unit
  subst here
  obtain ⟨p', found, change⟩ := (stepChanged step).each (unitInv unit).2
  refine ⟨p', found, fun live => ?_, fun ⟨reasons, relieved, last⟩ => ?_⟩
  · have stopped : p.isLive = false := by
      refine Bool.eq_false_iff.mpr fun live => held (Suspension.emptyIff.mp live)
    obtain ⟨reasons, relieved, rest⟩ := change.relief stopped (Suspension.emptyIff.mpr live)
    exact ⟨reasons, relieved, rest.symm.trans live⟩
  · obtain ⟨q, found', rest⟩ := relievedSuspension unit relieved
    rw [found] at found'
    cases found'
    exact rest.trans last

end Machine

end

end Lockstep
