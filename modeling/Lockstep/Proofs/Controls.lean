import Lockstep.Proofs.Deeds
import Lockstep.Proofs.Kept

/-! What devices do to processors. Suspending one, waking it, driving its lines, resetting it and
making it yield change nothing but the processor, its device and what is recorded, and none of
them counts anything. -/
namespace Lockstep

def Activity.event? : Activity → Option TraceEvent
  | .traced _ event => some event
  | _ => none

def TraceEvent.isControl : TraceEvent → Bool
  | .inputLineChanged .. | .suspended .. | .resumed .. => true
  | _ => false

@[simp] theorem Processor.catchUpCycles (p : Processor) (time : Time) :
    (p.catchUp time).totalCycles = p.totalCycles := by
  unfold catchUp
  split <;> rfl

theorem Device.resetEntries (d : Device) : ∀ entry ∈ d.resetUnit.2, entry.event? = none := by
  intro entry mem
  cases d with
  | acc8 | peripheral => cases mem
  | sequencer s =>
    unfold resetUnit at mem
    dsimp only at mem
    split at mem
    · cases List.mem_singleton.mp mem
      rfl
    · cases mem

namespace Machine

structure Steers (R : Machine → Machine → Prop) : Prop where
  refl : ∀ m, R m m
  trans : ∀ {a b c}, R a b → R b c → R a c
  unit : ∀ {m : Machine} (index : Nat) {f : Processor → Processor},
    (∀ p, (f p).totalCycles = p.totalCycles) → R m (m.modifyUnit index f)
  control : ∀ {m : Machine} {event : TraceEvent}, event.isControl = true → R m (m.trace event)

structure Restarts (R : Machine → Machine → Prop) : Prop extends Steers R where
  enter : ∀ {m : Machine} {entry : Activity}, entry.event? = none → R m (m.enter entry)
  place : ∀ {m : Machine} (id : DeviceId) (device : Device), R m (m.withDevice id device)

variable {R : Machine → Machine → Prop} {m m' : Machine} {device : DeviceId}

namespace Steers
variable (steers : Steers R)
include steers

theorem yield (m : Machine) : R m m.requestYield := by
  unfold requestYield
  split
  · exact steers.unit _ fun _ => rfl
  · exact steers.refl m

theorem cut (m : Machine) (time : Time) : R m (m.cutBefore time) := by
  unfold cutBefore
  split
  · split
    · exact steers.yield m
    · exact steers.refl m
  · exact steers.refl m

theorem suspend {reasons : Suspension} (ok : m.suspend device reasons = .ok m') : R m m' := by
  obtain ⟨index, p, -, changed⟩ := suspendInv ok
  have marked : R m (m.modifyUnit index fun q =>
      { q with suspension := p.suspension.union reasons }) := steers.unit _ fun _ => rfl
  have traced := steers.trans (b := _) (c := if p.suspension.contains reasons then _ else _) marked <| by
    have told : TraceEvent.isControl (.suspended device reasons) = true := rfl
    split
    · exact steers.refl _
    · exact steers.control told
  rcases changed with rfl | rfl
  · exact traced
  · exact steers.trans traced (steers.yield _)

theorem resume {reasons : Suspension} (ok : m.resume device reasons = .ok m') : R m m' := by
  obtain ⟨index, p, -, ⟨-, rfl⟩ | ⟨-, rfl⟩⟩ := resumeInv ok
  · exact steers.refl _
  · refine steers.trans (steers.unit index fun q => ?_) (steers.control rfl)
    split
    · exact Processor.catchUpCycles ..
    · rfl

theorem driveLine {line : Nat} {state : LineState} {vector : Option Nat}
    (ok : m.driveLine device line state vector = .ok m') : R m m' := by
  obtain ⟨index, p, lines, -, -, rest⟩ := driveLineInv ok
  have driven : R m ((m.modifyUnit index fun q => { q with lines }).trace
      (.inputLineChanged device line state)) :=
    steers.trans (steers.unit index (f := fun q => { q with lines }) fun _ => rfl)
      (steers.control rfl)
  dsimp only at rest
  split at rest
  · exact steers.trans driven (steers.resume rest)
  · subst rest
    exact driven

theorem spin (ok : m.spinUntilInterrupt device = .ok m') : R m m' := by
  obtain ⟨index, p, -, ⟨-, rfl⟩ | ⟨-, ok⟩⟩ := spinInv ok
  · exact steers.refl _
  · exact steers.suspend ok

end Steers

namespace Restarts
variable (restarts : Restarts R)
include restarts

theorem resetUnit {index : Nat} (ok : m.resetUnit index = .ok m') : R m m' := by
  rcases resetUnitInv ok with ⟨-, rfl⟩ | ⟨p, d, -, -, rfl⟩
  · exact restarts.refl _
  · have entered : ∀ (entries : List Activity) (s : Machine),
        (∀ entry ∈ entries, entry.event? = none) → R s (s.enterAll entries) := by
      intro entries
      induction entries with
      | nil => exact fun s _ => restarts.refl s
      | cons entry rest ih =>
        intro s own
        exact restarts.trans (restarts.enter (own entry (List.mem_cons_self ..)))
          (ih _ fun other mem => own other (List.mem_cons_of_mem _ mem))
    refine restarts.trans (restarts.place p.device d.resetUnit.1) ?_
    exact restarts.trans (entered _ _ d.resetEntries) (restarts.unit index fun _ => rfl)

theorem driveReset {asserted : Bool} (ok : m.driveReset device asserted = .ok m') : R m m' := by
  rcases driveResetInv ok with ⟨-, ok⟩ | ⟨-, index, p, -, ⟨-, rfl⟩ | ⟨-, s, reset, ok⟩⟩
  · exact restarts.suspend ok
  · exact restarts.refl _
  · exact restarts.trans (restarts.resetUnit reset) (restarts.resume ok)

theorem restart (now : Time) (m : Machine) (index : Nat) : R m (restartUnit now m index) := by
  cases reset : m.resetUnit index with
  | error e =>
    rw [restartSkipped _ reset]
    exact restarts.refl m
  | ok s =>
    rw [restartDone _ reset]
    exact restarts.trans (restarts.resetUnit reset)
      (restarts.unit index fun p => Processor.catchUpCycles ..)

end Restarts

end Machine

end Lockstep
