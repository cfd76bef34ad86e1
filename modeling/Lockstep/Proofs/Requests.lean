import Lockstep.Proofs.Changes

/-! Requests to stop. Whoever asks for the end of the slice that runs raises the flag of its
processor, and nothing that callbacks do takes the flag down again. So a run that is broken off
at the first request differs from the whole run only where the flag is up. -/
namespace Lockstep

namespace Machine

def asked (m : Machine) : Bool := m.frame.any fun f => (m.units[f.unit]?).any (·.yieldRequested)

def runs (m : Machine) (device : DeviceId) : Bool :=
  match m.unit device with
  | .ok (index, _) => m.running index
  | .error _ => false

def early (m : Machine) (delay : Time) : Bool :=
  m.frame.any fun f => decide (m.now + delay < f.finish)

end Machine

def Command.asks (m : Machine) : Command → Bool
  | .requestYield | .boostInterleave .. => m.frame.isSome
  | .suspend device _ => m.runs device
  | .driveReset device asserted => asserted && m.runs device
  | .spinUntilInterrupt device => m.runs device &&
      match m.unit device with
      | .ok (_, p) => !p.lines.anyActive
      | .error _ => false
  | .schedule _ delay _ _ => m.early delay
  | .scheduleCycles owner cycles _ => m.early (((m.tree.get? owner).elim ⟨0⟩ (·.clock)).span cycles)
  | .adjustTimer position delay period => m.early delay &&
      (m.handles[position]?).any fun id => (m.timers.adjustAt id (m.now + delay) period).2
  | _ => false

def unasked : Rule := fun m command => !command.asks m

namespace Processor
variable {p p' q : Processor}

structure Inside (p p' : Processor) : Prop where
  flag : p.yieldRequested = true → p'.yieldRequested = true
  live : p.isLive = true → p'.isLive = true ∨ p'.yieldRequested = true

theorem Inside.same (flag : p'.yieldRequested = p.yieldRequested)
    (live : p.isLive = true → p'.isLive = true) : p.Inside p' :=
  ⟨fun up => flag.trans up, fun h => .inl (live h)⟩

theorem Inside.trans (first : p.Inside p') (rest : p'.Inside q) : p.Inside q := by
  refine ⟨fun up => rest.flag (first.flag up), fun live => ?_⟩
  rcases first.live live with live | up
  · exact rest.live live
  · exact .inr (rest.flag up)

theorem liftInside (same : q.yieldRequested = p.yieldRequested)
    (live : p.isLive = true → q.isLive = true) (now : Time) (reasons : Suspension) :
    p.Inside (q.lift now reasons) := by
  refine .same ((liftLines ..).2.2.trans same) fun h => ?_
  rw [isLive, (liftLines ..).2.1]
  exact Suspension.emptyDiff (live h) reasons

theorem Move.inside {rule : Rule} {a b : Machine} {i : Nat} (moved : p.Move rule a b i p')
    (running : a.running i = true) : p.Inside p' := by
  cases moved with
  | same => exact .same rfl id
  | drive => exact .same rfl id
  | yields => exact ⟨fun _ => rfl, fun _ => .inr rfl⟩
  -- its own slice runs, so the suspension comes with a request
  | suspend | spin =>
    refine ⟨fun _ => ?_, fun _ => .inr ?_⟩ <;> simp [running]
  | @wake _ _ _ lines => exact liftInside (p := p) (q := { p with lines }) rfl id _ _
  | resume => exact liftInside rfl id _ _
  | release =>
    exact liftInside (p := p) (q := p.cleared) rfl (fun live => Suspension.emptyDiff live _) _ _

end Processor

namespace Machine

def Slicing (m : Machine) : Prop := ∃ f p, m.frame = some f ∧ m.units[f.unit]? = some p

structure Inside (a b : Machine) : Prop where
  frame : b.frame = a.frame
  each : ∀ {i : Nat} {p : Processor}, a.running i = true → a.units[i]? = some p →
    ∃ p', b.units[i]? = some p' ∧ p.Inside p'

section
variable {a b c m : Machine} {i : Nat} {p : Processor}

theorem runningUnit {f : Frame} (frame : m.frame = some f) : m.running f.unit = true := by
  simp [running, frame]

theorem askedIff : m.asked = true ↔
    ∃ f p, m.frame = some f ∧ m.units[f.unit]? = some p ∧ p.yieldRequested = true := by
  simp only [asked, Option.any_eq_true]
  grind

theorem askedModify {f : Processor → Processor}
    (same : ∀ p, (f p).yieldRequested = p.yieldRequested) (index : Nat) :
    (m.modifyUnit index f).asked = m.asked := by
  unfold asked modifyUnit
  simp only [Array.getElem?_modify]
  congr
  funext g
  split
  · simp [Option.any_map, same]
  · rfl

namespace Inside

theorem same (frame : b.frame = a.frame) (units : b.units = a.units) : Inside a b := by
  refine ⟨frame, fun {i p} _ found => ⟨p, ?_, .same rfl id⟩⟩
  rw [units, found]

theorem refl (m : Machine) : Inside m m := .same rfl rfl

theorem trans (first : Inside a b) (rest : Inside b c) : Inside a c := by
  refine ⟨rest.frame.trans first.frame, fun {i p} running found => ?_⟩
  obtain ⟨q, found, one⟩ := first.each running found
  obtain ⟨p', found, two⟩ := rest.each (by rw [Machine.running, first.frame]; exact running) found
  exact ⟨p', found, one.trans two⟩

theorem unit {f : Processor → Processor} (inside : ∀ p, Processor.Inside p (f p)) (index : Nat) :
    Inside m (m.modifyUnit index f) := by
  refine ⟨rfl, fun {i p} _ found => ?_⟩
  rw [modifyUnit, Array.getElem?_modify, found]
  by_cases here : index = i
  · exact ⟨f p, by simp [here], inside p⟩
  · exact ⟨p, by simp [here], .same rfl id⟩

theorem slicing (inside : Inside a b) (slicing : a.Slicing) : b.Slicing := by
  obtain ⟨f, p, frame, found⟩ := slicing
  obtain ⟨p', found', -⟩ := inside.each (runningUnit frame) found
  exact ⟨f, p', inside.frame.trans frame, found'⟩

theorem asked (inside : Inside a b) (asked : a.asked = true) : b.asked = true := by
  obtain ⟨f, p, frame, found, up⟩ := askedIff.mp asked
  obtain ⟨p', found', kept⟩ := inside.each (runningUnit frame) found
  exact askedIff.mpr ⟨f, p', inside.frame.trans frame, found', kept.flag up⟩

end Inside

theorem deedInside {command : Command} (deed : Deed command a b) : Inside a b := by
  have moved := deedMoved (show free _ _ = true from rfl) deed
  refine ⟨(effectKept (deedEffect deed)).frame, fun running found => ?_⟩
  obtain ⟨p', found', move⟩ := moved.each found
  exact ⟨p', found', move.inside running⟩

theorem touchInside (touch : Touch a b) : Inside a b := by
  cases touch with
  | unmapped kind address write => exact .same (traceSame ..).2.2 (traceUnits ..)
  | drive | countRead | countWrite | store => exact .same rfl rfl

theorem pulseInside (pulse : Pulse a b) : Inside a b := by
  cases pulse with
  | enter | count | charge => exact .same rfl rfl
  | publish | accept =>
    refine .unit (fun p => ?_) _
    exact .same rfl id

theorem insideAll {R : Machine → Machine → Prop} (each : ∀ {a b}, R a b → Inside a b)
    (steps : Relation.ReflTransGen R a b) : Inside a b := by
  induction steps with
  | refl => exact .refl a
  | tail _ last ih => exact ih.trans (each last)

def Breaks {α : Type} (x y : Run α) (m : Machine) : Prop :=
  m.Slicing → Run.Keeps Inside y m ∧
    (x m = y m ∨ x m = none ∧ Run.Keeps (fun _ m' => m'.asked = true) y m)

theorem breaksSame {α : Type} {x : Run α} (kept : Run.Keeps Inside x m) : Breaks x x m :=
  fun _ => ⟨kept, .inl rfl⟩

theorem breaksModify {g : Machine → Machine} (inside : Inside m (g m)) : Breaks (modify g) (modify g) m :=
  breaksSame (Run.keepsModify inside)

theorem breaksBind {α β : Type} {x y : Run α} {f g : α → Run β} (first : Breaks x y m)
    (rest : ∀ a m', y m = some (a, m') → Inside m m' → Breaks (f a) (g a) m') :
    Breaks (x >>= f) (y >>= g) m := by
  intro slicing
  obtain ⟨inside, same⟩ := first slicing
  have after : ∀ a m', y m = some (a, m') → Run.Keeps Inside (g a) m' ∧ (f a m' = g a m' ∨
      f a m' = none ∧ Run.Keeps (fun _ m' => m'.asked = true) (g a) m') := fun a m' ran =>
    rest a m' ran (inside a m' ran) ((inside a m' ran).slicing slicing)
  refine ⟨Run.keepsBind @Inside.trans inside fun a m' ran => (after a m' ran).1, ?_⟩
  rcases same with same | ⟨none, up⟩
  · cases ran : y m with
    | none => exact .inl ((Run.bindNone (same.trans ran) f).trans (Run.bindNone ran g).symm)
    | some row =>
      obtain ⟨a, m'⟩ := row
      rw [Run.bindSome (same.trans ran) f]
      unfold Run.Keeps
      rw [Run.bindSome ran g]
      exact (after a m' ran).2
  -- broken off in `x`: the rest of the whole run keeps the flag up
  · refine .inr ⟨Run.bindNone none f, fun b m' h => ?_⟩
    obtain ⟨a, m₁, ran, h⟩ := Run.bindInv h
    exact ((after a m₁ ran).1 b m' h).asked (up a m₁ ran)

theorem breaksPlays : Plays fun _ => Breaks where
  pure a := breaksSame (Run.keepsPure Inside.refl a)
  bind first rest := breaksBind first fun a m' _ _ => rest a m'
  get h := h
  touch touches := breaksModify (insideAll touchInside touches)
  pulse pulses := breaksModify (insideAll pulseInside pulses)

theorem yieldAsked (slicing : m.Slicing) : m.requestYield.asked = true := by
  obtain ⟨f, p, frame, found⟩ := slicing
  unfold requestYield
  rw [frame]
  exact askedIff.mpr ⟨f, _, frame, unitModified found _, rfl⟩

theorem earlyAsked (slicing : m.Slicing) {delay : Time} (early : m.early delay = true)
    (timers : Timer.Queue) : ({ m with timers }.cutBefore (m.now + delay)).asked = true := by
  obtain ⟨f, p, frame, found⟩ := slicing
  have before : m.now + delay < f.finish := by simpa [Machine.early, frame] using early
  have cut : { m with timers }.cutBefore (m.now + delay) = { m with timers }.requestYield := by
    unfold cutBefore
    simp only [frame, before, if_true]
  rw [cut]
  exact yieldAsked ⟨f, p, frame, found⟩

theorem suspendAsked {device : DeviceId} (runs : m.runs device = true) (slicing : m.Slicing)
    (reasons : Suspension) : ∃ m', m.suspend device reasons = .ok m' ∧ m'.asked = true := by
  unfold Machine.runs at runs
  split at runs
  · rename_i index p unit
    have ok : ∃ m', m.suspend device reasons = .ok m' := by
      unfold suspend
      rw [unit]
      exact ⟨_, rfl⟩
    obtain ⟨m', ok⟩ := ok
    obtain ⟨index', p', unit', units⟩ := suspendUnits ok
    rw [unit] at unit'
    cases unit'
    obtain ⟨f, q, frame, found⟩ := slicing
    have here : f.unit = index := by simpa [running, frame] using runs
    subst here
    have found' := (unitInv unit).2
    have seen : m'.units[f.unit]? = some
        { p with suspension := p.suspension.union reasons, yieldRequested := true } := by
      rw [units, unitModified found', runs]
      simp
    exact ⟨m', ok, askedIff.mpr ⟨f, _, (suspendKept ok).frame.trans frame, seen, rfl⟩⟩
  · cases runs

theorem asksAsked {call : Callback} {command : Command} (asks : command.asks m = true)
    (slicing : m.Slicing) : Run.Keeps (fun _ m' => m'.asked = true) (command.run call) m := by
  have attempted : ∀ {f : Machine → Except AccessError Machine} {m' : Machine}, f m = .ok m' →
      m'.asked = true → Run.Keeps (fun _ m' => m'.asked = true) (attempt f) m := by
    intro f m₁ ok up reply m' ran
    unfold attempt at ran
    rw [Run.getBind, ok] at ran
    cases ran
    exact up
  cases command with
  | requestYield =>
    intro reply m' ran
    unfold Command.run at ran
    cases ran
    exact yieldAsked slicing
  | boostInterleave quantum duration =>
    intro reply m' ran
    unfold Command.run at ran
    cases ran
    exact yieldAsked slicing
  | suspend device reasons =>
    obtain ⟨m', ok, up⟩ := suspendAsked asks slicing reasons
    unfold Command.run
    exact attempted ok up
  | driveReset device asserted =>
    obtain ⟨rfl, runs⟩ := Bool.and_eq_true_iff.mp asks
    obtain ⟨m', ok, up⟩ := suspendAsked runs slicing { reset := true }
    unfold Command.run
    exact attempted ok up
  | spinUntilInterrupt device =>
    obtain ⟨runs, calm⟩ := Bool.and_eq_true_iff.mp asks
    obtain ⟨m', ok, up⟩ := suspendAsked runs slicing { spin := true }
    have spun : m.spinUntilInterrupt device = .ok m' := by
      unfold spinUntilInterrupt
      cases unit : m.unit device with
      | error e =>
        rw [unit] at calm
        cases calm
      | ok row =>
        rw [unit] at calm
        change (if row.2.lines.anyActive = true then _ else _) = _
        rw [if_neg (by simpa using calm), ok]
    unfold Command.run
    exact attempted spun up
  | schedule owner delay period param =>
    intro reply m' ran
    unfold Command.run at ran
    cases ran
    exact earlyAsked slicing asks _
  | scheduleCycles owner cycles param =>
    intro reply m' ran
    unfold Command.run at ran
    cases ran
    exact earlyAsked slicing asks _
  | adjustTimer position delay period =>
    obtain ⟨early, adjusted⟩ := Bool.and_eq_true_iff.mp asks
    obtain ⟨id, known, adjusted⟩ := (Option.any_eq_true _ _).mp adjusted
    unfold Command.run onTimer
    refine Run.keepsGet ?_
    rw [known]
    intro reply m' ran
    cases ran
    change ((m.adjustTimer id delay period).1).asked = true
    unfold Machine.adjustTimer
    dsimp only
    rcases row : m.timers.adjustAt id (m.now + delay) period with ⟨timers, _ | _⟩
    · rw [row] at adjusted
      cases adjusted
    · exact earlyAsked slicing early timers
  | _ => cases asks

theorem breaksObeys : Obeys unasked fun _ => Breaks where
  toBears := breaksPlays.toBears
  fails _ := ⟨fun _ _ h => (by cases h), .inl rfl⟩
  plain {command call m} plain slicing := by
    refine ⟨fun reply m' ran => deedInside (plainDeed plain m reply m' ran), ?_⟩
    unfold obeying unasked
    cases asks : command.asks m with
    | true => exact .inr ⟨rfl, asksAsked asks slicing⟩
    | false => exact .inl rfl
  barred {command x y m} plain same := by
    have free : obeying unasked command x = x := by
      cases command with
      | read | write | borrow => rfl
      | _ => cases plain
    rw [free]
    exact same
  lend idle inner rest :=
    have busy : ∀ (id : DeviceId) (busy : Bool) (m : Machine),
        Breaks (modify (·.setBusy id busy)) (modify (·.setBusy id busy)) m :=
      fun _ _ m => breaksModify (.same rfl rfl)
    breaksPlays.bind (busy _ true _) fun _ m => breaksPlays.bind (inner m) fun a m =>
      breaksPlays.bind (busy _ false m) fun _ m => rest a m

theorem invokeBreaks (depth : Nat) (s : Script) (m : Machine) :
    Breaks (invokeUnder unasked depth s) (invoke depth s) m :=
  breaksObeys.invoke depth s m

end

end Machine

end Lockstep
