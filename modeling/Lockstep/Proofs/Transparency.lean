import Lockstep.Proofs.Separate
import Lockstep.Proofs.Ways

/-! However a run is cut and whatever runs beside it, a processor goes the same way to the same
end, as long as no slice is granted to it in a trap. -/
namespace Lockstep

def Action.frees : Action → Bool
  | .resume reasons => reasons.trapped
  | _ => false

namespace Solo
variable {s t : Solo} {target : Time}

structure Held (s : Solo) : Prop where
  trapped : s.cpu.runState.isTrapped = true → s.suspension.trapped = true
  never : ∀ a ∈ s.alarms, a.action.frees = false

theorem heldTick (held : s.Held) : s.tick.Held := by
  refine ⟨fun trapped => ?_, ?_⟩
  · unfold tick settle at trapped ⊢
    split
    · simp [Suspension.union, Suspension.zip]
    · rename_i sane
      rw [if_neg sane] at trapped
      exact absurd trapped sane
  · rw [tickAlarms]
    exact held.never

theorem resumeTrapped (now : Time) {reasons : Suspension} (spared : reasons.trapped = false)
    (s : Solo) : (s.resume now reasons).cpu = s.cpu ∧
      (s.resume now reasons).suspension.trapped = s.suspension.trapped := by
  have kept : (s.suspension.diff reasons).trapped = s.suspension.trapped := by
    simp [Suspension.diff, Suspension.zip, spared]
  unfold resume
  split
  · dsimp only
    split
    · unfold catchUp
      split <;> exact ⟨rfl, kept⟩
    · exact ⟨rfl, kept⟩
  · exact ⟨rfl, rfl⟩

theorem heldPerform (now : Time) {action : Action} (spared : action.frees = false)
    (trapped : s.cpu.runState.isTrapped = true → s.suspension.trapped = true) :
    (s.perform now action).cpu.runState.isTrapped = true →
      (s.perform now action).suspension.trapped = true := by
  have suspends : ∀ reasons, (s.suspend reasons).cpu.runState.isTrapped = true →
      (s.suspend reasons).suspension.trapped = true := by
    intro reasons stuck
    simp [suspend, Suspension.union, Suspension.zip, trapped stuck]
  have resumes : ∀ (t : Solo) (reasons : Suspension), reasons.trapped = false →
      (t.cpu.runState.isTrapped = true → t.suspension.trapped = true) →
      (t.resume now reasons).cpu.runState.isTrapped = true →
        (t.resume now reasons).suspension.trapped = true := by
    intro t reasons spared trapped
    obtain ⟨cpu, kept⟩ := resumeTrapped now spared t
    rw [cpu, kept]
    exact trapped
  cases action with
  | drive line state vector =>
    simp only [perform, drive]
    cases s.lines.set? line state vector with
    | none => exact trapped
    | some lines =>
      dsimp only
      split
      · exact resumes { s with lines } { spin := true } rfl trapped
      · exact trapped
  | suspend reasons => exact suspends reasons
  | resume reasons => exact resumes s reasons spared trapped
  | spin =>
    simp only [perform]
    split
    · exact trapped
    · exact suspends _
  | reset asserted =>
    cases asserted with
    | true => exact suspends _
    | false =>
      simp only [perform]
      split
      · exact resumes s.restart { reset := true } rfl fun stuck => by cases stuck
      · exact trapped

theorem memInsert {a b : Alarm} {rows : List Alarm} : b ∈ a.insert rows ↔ b = a ∨ b ∈ rows := by
  induction rows with
  | nil => simp [Alarm.insert]
  | cons head rest ih =>
    unfold Alarm.insert
    split <;> simp [ih, or_left_comm]

theorem heldNext (held : s.Held) (step : s.next? target = some t) : t.Held := by
  have goes : s.advance? target = some t → t.Held := by
    intro goes
    unfold advance? at goes
    split at goes
    · cases goes
      exact heldTick held
    · cases goes
  unfold next? at step
  cases alarms : s.alarms with
  | nil =>
    rw [alarms] at step
    exact goes step
  | cons a rest =>
    rw [alarms] at step
    dsimp only at step
    split at step
    · cases step
      have never := held.never
      rw [alarms] at never
      refine ⟨heldPerform a.time (never a (List.mem_cons_self ..)) held.trapped, fun b mem => ?_⟩
      have known : b.action = a.action ∨ b ∈ rest := by
        change b ∈ a.next rest at mem
        unfold Alarm.next at mem
        split at mem
        · exact .inr mem
        · rcases memInsert.mp mem with rfl | mem
          · exact .inl rfl
          · exact .inr mem
      rcases known with same | mem
      · rw [same]
        exact never a (List.mem_cons_self ..)
      · exact never b (List.mem_cons_of_mem _ mem)
    · exact goes step

theorem untrappedHeld (held : s.Held) : s.Untrapped target := by
  intro t path
  have held : t.Held := by
    induction path with
    | refl => exact held
    | tail _ step ih => exact heldNext ih step
  intro live _ _
  cases stuck : t.cpu.runState.isTrapped with
  | false => rfl
  | true =>
    have out := held.trapped stuck
    have none : t.suspension = {} := of_decide_eq_true live
    rw [none] at out
    cases out

end Solo

namespace Machine
variable {m m' : Machine} {plan : Plan} {index : Nat} {target : Time}

inductive Cut (call : Callback) (target : Time) : Machine → List Event → Machine → Prop where
  | last {m m' : Machine} (fuel : Nat) : runUntil call target fuel m = some ((), m') →
      Cut call target m (watchUntil call target fuel m).1 m'
  | run {m m₁ m' : Machine} {events : List Event} (nearer : Time) (fuel : Nat) : nearer ≤ target →
      runUntil call nearer fuel m = some ((), m₁) → Cut call target m₁ events m' →
        Cut call target m ((watchUntil call nearer fuel m).1 ++ events) m'
  | boost {m m' : Machine} {events : List Event} (quantum duration : Time) :
      Cut call target (m.boostInterleave quantum duration) events m' → Cut call target m events m'

theorem runArrived {depth fuel : Nat} (calm : Calm plan m)
    (ran : runUntil (invoke depth) target fuel m = some ((), m')) :
    Arrived plan target m (watchUntil (invoke depth) target fuel m).1 (some ((), m')) := by
  have arrived := watchedArrived (untilWatched (invoke depth) target fuel m) calm
  rw [ran] at arrived
  exact arrived

theorem cutArrived {depth : Nat} {events : List Event} (calm : Calm plan m)
    (cut : Cut (invoke depth) target m events m') :
    Arrived plan target m events (some ((), m')) := by
  induction cut with
  | last fuel ran => exact runArrived calm ran
  | run nearer fuel before ran _ ih =>
    have first := (runArrived calm ran).lived.later before
    exact .after first (ih (first _ _ rfl).1)
  | boost quantum duration _ ih =>
    have first : Lived plan target _ [] _ := boostLived calm quantum duration
    exact .quietly first (ih (first _ _ rfl).1)

def Reached (call : Callback) (m : Machine) : Prop :=
  ∃ origin events, Built call origin ∧ origin.OnlyAcc8 ∧ History call origin events (some m)

theorem reachedCalm {depth : Nat} (reached : Reached (invoke depth) m) (plain : Plain plan m) :
    Calm plan m := by
  obtain ⟨origin, events, built, only, history⟩ := reached
  obtain ⟨fair, -⟩ := (historyPassed (invokeActs depth) built only history).ends () m rfl
  exact ⟨plain, fair.idle, fair.sound⟩

/-- A run of a plain machine to a target, in which a processor starts out as `s`. -/
structure Journey (depth : Nat) (plan : Plan) (index : Nat) (target : Time) (m m' : Machine)
    (s : Solo) : Prop where
  reached : Reached (invoke depth) m
  plain : Plain plan m
  alone : m.solo plan index = some s
  cut : ∃ events, Cut (invoke depth) target m events m' ∧ ∀ e ∈ events, e.Short index

theorem journeyEnds {depth : Nat} {s : Solo}
    (journey : Journey depth plan index target m m' s) (sane : s.Untrapped target) :
    ∃ t, m'.solo plan index = some t ∧ Solo.Path target s t ∧ t.next? target = none := by
  obtain ⟨events, cut, short⟩ := journey.cut
  have arrived := cutArrived (reachedCalm journey.reached journey.plain) cut
  obtain ⟨-, way⟩ := arrived.lived () m' rfl
  obtain ⟨t, alone, path⟩ := way short sane journey.alone
  exact ⟨t, alone, path, arrived.done () m' rfl index t alone⟩

/-- Where a processor gets on its way to a target depends on itself, on the bytes that it
reaches and on the timers that are aimed at it: not on the quantum, on boosts of the
interleave, on how the run is cut or on what else is in the machine. -/
theorem quantumTransparency {depth₁ depth₂ index₁ index₂ : Nat} {plan₁ plan₂ : Plan}
    {target : Time} {m₁ m₂ n₁ n₂ : Machine} {s : Solo}
    (first : Journey depth₁ plan₁ index₁ target m₁ n₁ s)
    (second : Journey depth₂ plan₂ index₂ target m₂ n₂ s) (sane : s.Untrapped target) :
    ∃ t, n₁.solo plan₁ index₁ = some t ∧ n₂.solo plan₂ index₂ = some t := by
  obtain ⟨t, alone, path, done⟩ := journeyEnds first sane
  obtain ⟨t', alone', path', done'⟩ := journeyEnds second sane
  cases Solo.pathEnds path path' done done'
  exact ⟨t, alone, alone'⟩

end Machine

instance (index : Nat) (e : Event) : Decidable (e.Short index) := by
  cases e <;> unfold Event.Short <;> infer_instance

def benchPlan : Plan := fun owner param =>
  if owner = ⟨0⟩ then
    match param with
    | 0 => some (⟨1⟩, .drive Acc8.irqLine .hold (some 2))
    | 1 => some (⟨1⟩, .suspend { halt := true })
    | 2 => some (⟨1⟩, .resume { halt := true })
    | 3 => some (⟨2⟩, .resume { trapped := true })
    | _ => none
  else none

def benchTimer : Peripheral := controller "timer" benchPlan fun id =>
  .step (.schedule id (.ofMicros 30) (.ofMicros 8) 0) fun _ =>
  .step (.schedule id (.ofMicros 33) (.ofMicros 9) 1) fun _ =>
  .step (.schedule id (.ofMicros 45) (.ofMicros 9) 2) fun _ =>
  .perform (.schedule id (.ofMicros 5) .zero 3)

def bench : Assembly :=
  ((((Assembly.new { quantum := .ofMicros 20 } .builtin).extend "timer" ⟨0⟩
    (.peripheral benchTimer)).extend "left" (.ofMhz 1)
      (.acc8 (.new "left" { resetPc := some 0 }))).extend "right" (.ofMhz 1)
        (.acc8 (.new "right" { resetPc := some 0, illegalFatal := true }))).place "left"
          ⟨"left", #[0x70, 0x31, 0x20, 8, 0, 0x50, 1, 0, 0, 0]⟩

theorem benchAssembled : Assembled bench :=
  (((((Assembled.new _ _).extend _ _ _).extend _ _ _).extend _ _ _).place _ _)

theorem benchRole {id : DeviceId} {p : Peripheral}
    (role : bench.machine.roleOf? id = some (.peripheral, some p)) : p = benchTimer := by
  unfold bench at role
  rw [Assembly.placeRole] at role
  rcases Assembly.extendRole role with right | role
  · cases right
  rcases Assembly.extendRole role with left | role
  · cases left
  rcases Assembly.extendRole role with timer | none
  · cases timer
    rfl
  · cases none

namespace Machine

theorem benchPlain {m : Machine} (built : bench.build (invoke 3) = some (none, m))
    (separate : m.Separate) (timer : m.classOf? ⟨0⟩ = some .peripheral) : Plain benchPlan m := by
  have kept := buildKept (invokeActs 3) built
  refine plainSeparate separate (fun {id p} role fired position owned => ?_) fun {id param} use => ?_
  · rw [kept.roles] at role
    rw [benchRole role, ← owned]
    exact controllerPerforms "timer" benchPlan _ fired position
  · have first : id = ⟨0⟩ := by
      refine Decidable.byContradiction fun other => use ?_
      exact if_neg other
    rw [first]
    exact classPeripheral timer

def benchDiffers : Bool :=
  match bench.build (invoke 3) with
  | some (none, m) =>
      let boosted := m.boostInterleave (.ofMicros 10) (.ofMicros 100)
      match runUntil (invoke 3) (.ofMicros 60) 90 m, runUntil (invoke 3) (.ofMicros 17) 90 boosted with
      | some (_, n₁), some (_, k) =>
          match runUntil (invoke 3) (.ofMicros 60) 90 k with
          | some (_, n₂) => decide (m.OnlyAcc8 ∧ m.Separate ∧ m.classOf? ⟨0⟩ = some .peripheral ∧
              (∀ e ∈ (watchUntil (invoke 3) (.ofMicros 60) 90 m).1 ++
                ((watchUntil (invoke 3) (.ofMicros 17) 90 boosted).1 ++
                  (watchUntil (invoke 3) (.ofMicros 60) 90 k).1), e.Short 0 ∧ e.Short 1) ∧
              (m.solo benchPlan 0).any (fun s => decide (s.cpu.runState.isTrapped = false ∧
                ∀ a ∈ s.alarms, a.action.frees = false)) ∧ (m.solo benchPlan 1).isSome ∧
              (n₁.solo benchPlan 1).map (·.localTime) = some (.ofMicros 25) ∧
              (n₂.solo benchPlan 1).map (·.localTime) = some (.ofMicros 15))
          | none => false
      | _, _ => false
  | _ => false

theorem benchRuns : ∃ m n₁ n₂ e₁ e₂, bench.build (invoke 3) = some (none, m) ∧
    Cut (invoke 3) (.ofMicros 60) m e₁ n₁ ∧ Cut (invoke 3) (.ofMicros 60) m e₂ n₂ ∧
    m.OnlyAcc8 ∧ m.Separate ∧ m.classOf? ⟨0⟩ = some .peripheral ∧
    (∀ e ∈ e₁ ++ e₂, e.Short 0 ∧ e.Short 1) ∧
    (m.solo benchPlan 0).any (fun s => decide (s.cpu.runState.isTrapped = false ∧
      ∀ a ∈ s.alarms, a.action.frees = false)) ∧ (m.solo benchPlan 1).isSome ∧
    (n₁.solo benchPlan 1).map (·.localTime) = some (.ofMicros 25) ∧
    (n₂.solo benchPlan 1).map (·.localTime) = some (.ofMicros 15) := by
  have runs : benchDiffers = true := by decide +kernel
  unfold benchDiffers at runs
  split at runs
  · rename_i m built
    dsimp only at runs
    split at runs
    · rename_i _ n₁ _ k ran boosted
      split at runs
      · rename_i _ n₂ ran'
        obtain ⟨only, separate, timer, short, held, alone, ends⟩ := of_decide_eq_true runs
        exact ⟨m, n₁, n₂, _, _, built, .last 90 ran, .boost _ _ (.run _ 90 (by decide) boosted
          (.last 90 ran')), only, separate, timer, short, held, alone, ends⟩
      · cases runs
    · cases runs
  · cases runs

theorem benchReached {m : Machine} (built : bench.build (invoke 3) = some (none, m))
    (only : m.OnlyAcc8) : Reached (invoke 3) m :=
  ⟨m, _, ⟨bench, benchAssembled, built⟩, only, .start⟩

theorem benchTransparency : ∃ m n₁ n₂ s, bench.build (invoke 3) = some (none, m) ∧
    Journey 3 benchPlan 0 (.ofMicros 60) m n₁ s ∧ Journey 3 benchPlan 0 (.ofMicros 60) m n₂ s ∧
    s.Untrapped (.ofMicros 60) ∧
    ∃ t, n₁.solo benchPlan 0 = some t ∧ n₂.solo benchPlan 0 = some t := by
  obtain ⟨m, n₁, n₂, e₁, e₂, built, cut₁, cut₂, only, separate, timer, short, held, -⟩ := benchRuns
  obtain ⟨s, alone, held⟩ := (Option.any_eq_true _ _).mp held
  obtain ⟨sane, never⟩ := of_decide_eq_true held
  have plain := benchPlain built separate timer
  have reached := benchReached built only
  have first : Journey 3 benchPlan 0 (.ofMicros 60) m n₁ s :=
    ⟨reached, plain, alone, e₁, cut₁, fun e mem => (short e (List.mem_append_left _ mem)).1⟩
  have second : Journey 3 benchPlan 0 (.ofMicros 60) m n₂ s :=
    ⟨reached, plain, alone, e₂, cut₂, fun e mem => (short e (List.mem_append_right _ mem)).1⟩
  have untrapped : s.Untrapped (.ofMicros 60) := Solo.untrappedHeld
    ⟨fun stuck => absurd (stuck.symm.trans sane) (fun h => by cases h), never⟩
  exact ⟨m, n₁, n₂, s, built, first, second, untrapped,
    quantumTransparency first second untrapped⟩

/-- A slice that is granted in a trap consumes nothing and is charged in full, so how far it
takes a processor depends on the quantum. -/
theorem trapOpaque : ∃ m n₁ n₂ s, bench.build (invoke 3) = some (none, m) ∧
    Journey 3 benchPlan 1 (.ofMicros 60) m n₁ s ∧ Journey 3 benchPlan 1 (.ofMicros 60) m n₂ s ∧
    (n₁.solo benchPlan 1).map (·.localTime) = some (.ofMicros 25) ∧
    (n₂.solo benchPlan 1).map (·.localTime) = some (.ofMicros 15) := by
  obtain ⟨m, n₁, n₂, e₁, e₂, built, cut₁, cut₂, only, separate, timer, short, -, alone, ends⟩ :=
    benchRuns
  obtain ⟨s, alone⟩ := Option.isSome_iff_exists.mp alone
  have plain := benchPlain built separate timer
  have reached := benchReached built only
  have first : Journey 3 benchPlan 1 (.ofMicros 60) m n₁ s :=
    ⟨reached, plain, alone, e₁, cut₁, fun e mem => (short e (List.mem_append_left _ mem)).2⟩
  have second : Journey 3 benchPlan 1 (.ofMicros 60) m n₂ s :=
    ⟨reached, plain, alone, e₂, cut₂, fun e mem => (short e (List.mem_append_right _ mem)).2⟩
  exact ⟨m, n₁, n₂, s, built, first, second, ends⟩

end Machine

end Lockstep
