import Lockstep.Proofs.Rules

/-! What one step does to a processor. Each operation on a processor leaves it in one state that
is known in full, and a step makes at most one such change to each. -/
namespace Lockstep

namespace Processor

@[simp] theorem catchUpLines (p : Processor) (now : Time) :
    (p.catchUp now).lines = p.lines ∧ (p.catchUp now).suspension = p.suspension ∧
      (p.catchUp now).yieldRequested = p.yieldRequested := by
  unfold catchUp
  split <;> exact ⟨rfl, rfl, rfl⟩

def lift (now : Time) (reasons : Suspension) (p : Processor) : Processor :=
  let p := { p with suspension := p.suspension.diff reasons }
  if p.isLive then p.catchUp now else p

@[simp] theorem liftLines (now : Time) (reasons : Suspension) (p : Processor) :
    (p.lift now reasons).lines = p.lines ∧
      (p.lift now reasons).suspension = p.suspension.diff reasons ∧
        (p.lift now reasons).yieldRequested = p.yieldRequested := by
  unfold lift
  dsimp only
  split
  · exact catchUpLines ..
  · exact ⟨rfl, rfl, rfl⟩

theorem liftDevice (now : Time) (reasons : Suspension) (p : Processor) :
    (p.lift now reasons).device = p.device := by
  unfold lift catchUp
  dsimp only
  split
  · split <;> rfl
  · rfl

def cleared (p : Processor) : Processor :=
  { p with lines := p.lines.clear, suspension := p.suspension.diff { trapped := true } }

end Processor

def Rule.Suspends (rule : Rule) (reasons : Suspension) : Prop :=
  reasons = { reset := true } ∨ ∃ m device, rule m (.suspend device reasons) = true

def Machine.running (m : Machine) (index : Nat) : Bool := m.frame.any (·.unit == index)

inductive Processor.Move (rule : Rule) (a b : Machine) (i : Nat) (p : Processor) :
    Processor → Prop where
  | same : Move rule a b i p p
  | yields : Move rule a b i p { p with yieldRequested := true }
  | drive {line state vector lines} (driven : p.lines.set? line state vector = some lines)
      (calm : (state.isActive && p.suspension.spin) = false) : Move rule a b i p { p with lines }
  | wake {line state vector lines} (ok : a.driveLine p.device line state vector = .ok b)
      (active : state.isActive = true) (spins : p.suspension.spin = true) :
      Move rule a b i p (lift a.now { spin := true } { p with lines })
  | suspend {reasons} (allowed : rule.Suspends reasons) :
      Move rule a b i p
        { p with
          suspension := p.suspension.union reasons
          yieldRequested := p.yieldRequested || a.running i }
  | spin (calm : p.lines.anyActive = false) :
      Move rule a b i p
        { p with
          suspension := p.suspension.union { spin := true }
          yieldRequested := p.yieldRequested || a.running i }
  | resume {reasons} (ok : a.resume p.device reasons = .ok b) :
      Move rule a b i p (p.lift a.now reasons)
  | release (ok : a.driveReset p.device false = .ok b) (held : p.suspension.reset = true) :
      Move rule a b i p (p.cleared.lift a.now { reset := true })

inductive Processor.Change (rule : Rule) (a b : Machine) (i : Nat) (p : Processor) :
    Processor → Prop where
  | move {p'} (moved : p.Move rule a b i p') : Change rule a b i p p'
  | publish (read : RegisterId → Option Nat) : Change rule a b i p (p.publish read)
  | accept {line lines answer} (row : p.lines.acknowledge? line = some (lines, answer)) :
      Change rule a b i p { p with lines }
  | ready : Change rule a b i p { p with yieldRequested := false }
  | restart {now s} (reset : a.resetUnit i = .ok s) (restarted : b = Machine.restartUnit now a i) :
      Change rule a b i p
        ({ p.cleared with
          suspension := p.cleared.suspension.diff { trapped := true, spin := true } }.catchUp now)
  | settle {suspension} (localTime : Time) (totalCycles : Nat)
      (trapped : suspension = p.suspension ∨
        suspension = p.suspension.union { trapped := true }) :
      Change rule a b i p { p with localTime, totalCycles, yieldRequested := false, suspension }
  | disable : Change rule a b i p
      { p with suspension := p.suspension.union { disabled := true } }

namespace Machine

section
variable {m m' s : Machine} {device : DeviceId} {index : Nat} {p : Processor}

theorem traceUnits (m : Machine) (event : TraceEvent) : (m.trace event).units = m.units := by
  unfold trace
  split
  · split <;> rfl
  · rfl

theorem countUnits (m : Machine) (f : Diag → Diag) : (m.count f).units = m.units := rfl

theorem unitUnits (units : m'.units = m.units) (unit : m.unit device = .ok (index, p)) :
    m'.unit device = .ok (index, p) := by
  obtain ⟨place, found⟩ := unitInv unit
  unfold Machine.unit unitIndex? at *
  rw [units, place]
  simp [found]

theorem unitModify {f : Processor → Processor} (fixed : ∀ q, (f q).device = q.device)
    (unit : m.unit device = .ok (index, p)) :
    (m.modifyUnit index f).unit device = .ok (index, f p) := by
  exact unitDevices (mapModify fixed m.units index) unit (unitModified (unitInv unit).2 f)

theorem modifyFound (found : m.units[index]? = some p) {f g : Processor → Processor}
    (same : f p = g p) : (m.modifyUnit index f).units = (m.modifyUnit index g).units := by
  refine Array.ext_getElem? fun i => ?_
  simp only [modifyUnit, Array.getElem?_modify]
  split
  · rename_i here
    subst here
    simp [found, same]
  · rfl

theorem modifyAbsent (absent : m.units[index]? = none) (f : Processor → Processor) :
    (m.modifyUnit index f).units = m.units := by
  refine Array.ext_getElem? fun i => ?_
  simp only [modifyUnit, Array.getElem?_modify]
  split
  · rename_i here
    subst here
    rw [absent, Option.map_none]
  · rfl

theorem modifySame (units : m'.units = m.units) (index : Nat) (f : Processor → Processor) :
    (m'.modifyUnit index f).units = (m.modifyUnit index f).units := by
  unfold modifyUnit
  rw [units]

theorem suspendMark {reasons : Suspension} (ok : m.suspend device reasons = .ok m') :
    ∃ index p s, m.unit device = .ok (index, p) ∧
      s.units = (m.modifyUnit index fun q =>
        { q with suspension := p.suspension.union reasons }).units ∧
      s.frame = m.frame ∧ m' = if m.running index then s.requestYield else s := by
  obtain ⟨⟨index, p⟩, unit, ok⟩ := okBindInv ok
  dsimp only at ok
  generalize marked : (if p.suspension.contains reasons = true then
    m.modifyUnit index fun q => { q with suspension := p.suspension.union reasons } else
    (m.modifyUnit index fun q => { q with suspension := p.suspension.union reasons }).trace
      (.suspended device reasons)) = s at ok
  have same : s.units = (m.modifyUnit index fun q =>
      { q with suspension := p.suspension.union reasons }).units ∧ s.frame = m.frame := by
    rw [← marked]
    split
    · exact ⟨rfl, rfl⟩
    · exact ⟨traceUnits .., (traceSame ..).2.2⟩
  refine ⟨index, p, s, unit, same.1, same.2, ?_⟩
  rw [same.2] at ok
  unfold running
  cases own : m.frame with
  | none =>
    rw [own] at ok
    cases ok
    rfl
  | some f =>
    rw [own] at ok
    cases ok
    simp

theorem yieldRunning (running : m.running index = true) :
    m.requestYield = m.modifyUnit index fun q => { q with yieldRequested := true } := by
  unfold Machine.running at running
  unfold requestYield
  cases frame : m.frame with
  | none => simp [frame] at running
  | some f =>
    rw [frame, Option.any_some] at running
    have here : f.unit = index := eq_of_beq running
    subst here
    rfl

theorem suspendUnits {reasons : Suspension} (ok : m.suspend device reasons = .ok m') :
    ∃ index p, m.unit device = .ok (index, p) ∧
      m'.units = (m.modifyUnit index fun q =>
        { q with
          suspension := p.suspension.union reasons
          yieldRequested := q.yieldRequested || m.running index }).units := by
  obtain ⟨index, p, s, unit, units, frame, rfl⟩ := suspendMark ok
  refine ⟨index, p, unit, ?_⟩
  cases running : m.running index with
  | false => simp [units]
  | true =>
    have own : s.running index = true := by rw [Machine.running, frame]; exact running
    simp only [if_true, Bool.or_true, yieldRunning own]
    rw [modifySame units, modifyUnitTwice]

theorem resumeUnits {reasons : Suspension} (ok : m.resume device reasons = .ok m') :
    ∃ index p, m.unit device = .ok (index, p) ∧
      ((p.suspension.intersects reasons = false ∧ m' = m) ∨
        p.suspension.intersects reasons = true ∧
          m'.units = (m.modifyUnit index (·.lift m.now reasons)).units) := by
  obtain ⟨index, p, unit, idle | ⟨meets, rfl⟩⟩ := resumeInv ok
  · exact ⟨index, p, unit, .inl idle⟩
  · refine ⟨index, p, unit, .inr ⟨meets, (traceUnits ..).trans (modifyFound (unitInv unit).2 ?_)⟩⟩
    rfl

theorem driveLineUnits {line : Nat} {state : LineState} {vector : Option Nat}
    (ok : m.driveLine device line state vector = .ok m') :
    ∃ index p lines, m.unit device = .ok (index, p) ∧ p.lines.set? line state vector = some lines ∧
      m'.units = (m.modifyUnit index fun q =>
        if state.isActive && p.suspension.spin then { q with lines }.lift m.now { spin := true }
        else { q with lines }).units := by
  obtain ⟨index, p, lines, unit, driven, rest⟩ := driveLineInv ok
  refine ⟨index, p, lines, unit, driven, ?_⟩
  dsimp only at rest
  split at rest
  · rename_i wakes
    obtain ⟨-, spins⟩ := Bool.and_eq_true_iff.mp wakes
    have set_ := unitModify (f := fun q => { q with lines }) (fun _ => rfl) unit
    have seen := unitUnits (traceUnits _ (.inputLineChanged device line state)) set_
    have first : Kept m (m.modifyUnit index fun q => { q with lines }) :=
      .modifyUnit fun q _ => .still rfl rfl rfl rfl id
    have kept := first.trans (.trace _ (.inputLineChanged device line state))
    obtain ⟨index', p', unit', ⟨apart, -⟩ | ⟨-, units⟩⟩ := resumeUnits rest
    · rw [seen] at unit'
      cases unit'
      simp [Suspension.intersects, Suspension.inter, Suspension.zip, Suspension.isEmpty, spins]
        at apart
    · rw [seen] at unit'
      cases unit'
      simp only [wakes, if_true]
      rw [units, modifySame (traceUnits ..), modifyUnitTwice, kept.now]
  · rename_i calm
    subst rest
    simp only [calm]
    exact traceUnits ..

theorem resetUnits (ok : m.resetUnit index = .ok m') :
    m'.units = (m.modifyUnit index Processor.cleared).units := by
  rcases resetUnitInv ok with ⟨none, rfl⟩ | ⟨p, d, -, -, rfl⟩
  · exact (modifyAbsent none _).symm
  · exact modifySame (enterAllUnits _ d.resetUnit.2) index _

theorem driveResetUnits (ok : m.driveReset device false = .ok m') :
    ∃ index p, m.unit device = .ok (index, p) ∧ ((p.suspension.reset = false ∧ m' = m) ∨
      p.suspension.reset = true ∧
        m'.units = (m.modifyUnit index (·.cleared.lift m.now { reset := true })).units) := by
  obtain ⟨on, -⟩ | ⟨-, index, p, unit, idle | ⟨held, s, reset, ok⟩⟩ := driveResetInv ok
  · cases on
  · exact ⟨index, p, unit, .inl idle⟩
  · refine ⟨index, p, unit, .inr ⟨held, ?_⟩⟩
    have units := resetUnits reset
    have cleared := unitUnits units (unitModify (f := Processor.cleared) (fun _ => rfl) unit)
    have now := (resetHeldKept (unitInv unit).2 held reset).now
    obtain ⟨index', p', unit', ⟨apart, -⟩ | ⟨-, lifted⟩⟩ := resumeUnits ok
    · rw [cleared] at unit'
      cases unit'
      simp [Suspension.intersects, Suspension.inter, Suspension.zip, Suspension.isEmpty,
        Processor.cleared, Suspension.diff, held] at apart
    · rw [cleared] at unit'
      cases unit'
      rw [lifted, now, modifySame units, modifyUnitTwice]

theorem restartUnits (now : Time) (reset : m.resetUnit index = .ok s) :
    (restartUnit now m index).units = (m.modifyUnit index fun p =>
      { p.cleared with
        suspension := p.cleared.suspension.diff { trapped := true, spin := true }
        }.catchUp now).units := by
  rw [restartDone _ reset]
  refine (modifySame (resetUnits reset) ..).trans ?_
  rw [modifyUnitTwice]

theorem cutUnits (m : Machine) (timers : Timer.Queue) (time : Time) :
    ({ m with timers }.cutBefore time).units = m.units ∨
      ({ m with timers }.cutBefore time).units = m.requestYield.units := by
  unfold cutBefore requestYield
  cases m.frame with
  | none => exact .inl rfl
  | some f =>
    dsimp only
    split
    · exact .inr rfl
    · exact .inl rfl

theorem settleUnits (m : Machine) (index cycles consumed : Nat) (trap : Option Trap)
    (start : Time) : (m.settle index cycles consumed trap start).units = (m.modifyUnit index fun p =>
      { p with
        localTime := start + p.period.scale (if consumed = 0 then cycles else consumed)
        totalCycles := Word.add p.totalCycles consumed
        yieldRequested := false
        suspension := if trap.isSome && !p.suspension.trapped then
          p.suspension.union { trapped := true } else p.suspension }).units := by
  cases found : m.units[index]? with
  | none =>
    unfold settle
    rw [found]
    exact (modifyAbsent found _).symm
  | some p =>
    have yielded : ∀ s : Machine, (if p.yieldRequested then s.count (·.yielded) else s).units =
        s.units := by
      intro s
      split <;> rfl
    unfold settle
    rw [found]
    cases trap with
    | none =>
      simp only [traceUnits, yielded, countUnits]
      exact modifyFound found (by simp)
    | some cause =>
      dsimp only
      split
      · rename_i trapped
        simp only [traceUnits, yielded, countUnits]
        exact modifyFound found (by simp [trapped])
      · rename_i sane
        rw [traceUnits, countUnits,
          modifySame ((traceUnits ..).trans ((yielded _).trans (countUnits ..))), modifyUnitTwice]
        exact modifyFound found (by simp [sane])

end

structure Changed (C : Nat → Processor → Processor → Prop) (a b : Machine) : Prop where
  size : b.units.size = a.units.size
  each : ∀ {i : Nat} {p : Processor}, a.units[i]? = some p →
    ∃ p', b.units[i]? = some p' ∧ C i p p'

namespace Changed
variable {C : Nat → Processor → Processor → Prop} {a b : Machine}

theorem unit (refl : ∀ i p, C i p p) {index : Nat} {f : Processor → Processor}
    (units : b.units = (a.modifyUnit index f).units)
    (change : ∀ p, a.units[index]? = some p → C index p (f p)) : Changed C a b := by
  refine ⟨by rw [units, modifyUnit, Array.size_modify], fun {i p} found => ?_⟩
  rw [units, modifyUnit, Array.getElem?_modify, found]
  by_cases here : index = i
  · subst here
    exact ⟨f p, by simp, change p found⟩
  · exact ⟨p, by simp [here], refl i p⟩

theorem back (h : Changed C a b) {i : Nat} {p' : Processor} (found : b.units[i]? = some p') :
    ∃ p, a.units[i]? = some p ∧ C i p p' := by
  have bound : i < a.units.size := by
    rw [← h.size]
    exact (Array.getElem?_eq_some_iff.mp found).1
  obtain ⟨q, found', change⟩ := h.each (Array.getElem?_eq_getElem bound)
  rw [found] at found'
  cases found'
  exact ⟨_, Array.getElem?_eq_getElem bound, change⟩

end Changed

section
variable {rule : Rule} {a b m : Machine}

abbrev Moved (rule : Rule) (a b : Machine) : Prop := Changed (Processor.Move rule a b) a b

namespace Moved

theorem same (units : b.units = a.units) : Moved rule a b := by
  refine ⟨by rw [units], fun {i p} found => ⟨p, ?_, .same⟩⟩
  rw [units, found]

theorem unit {device : DeviceId} {index : Nat} {p : Processor} {f : Processor → Processor}
    (found : a.unit device = .ok (index, p)) (units : b.units = (a.modifyUnit index f).units)
    (move : p.device = device → p.Move rule a b index (f p)) : Moved rule a b := by
  refine Changed.unit (fun _ _ => .same) units fun q row => ?_
  rw [(unitInv found).2] at row
  cases row
  exact move (unitFound found)

theorem yield (units : b.units = a.units ∨ b.units = a.requestYield.units) : Moved rule a b := by
  rcases units with units | units
  · exact same units
  · unfold requestYield at units
    split at units
    · exact Changed.unit (fun _ _ => .same) units fun _ _ => .yields
    · exact same units

theorem changed (moved : Moved rule a b) : Changed (Processor.Change rule a b) a b := by
  refine ⟨moved.size, fun found => ?_⟩
  obtain ⟨p', found', move⟩ := moved.each found
  exact ⟨p', found', .move move⟩

end Moved

theorem suspendMoved {device : DeviceId} {reasons : Suspension}
    (allowed : rule.Suspends reasons) (ok : a.suspend device reasons = .ok b) : Moved rule a b := by
  obtain ⟨index, p, unit, units⟩ := suspendUnits ok
  exact .unit unit units fun _ => .suspend allowed

theorem deedMoved {command : Command} (allowed : rule a command = true)
    (deed : Deed command a b) : Moved rule a b := by
  cases deed with
  | still | freeze | poke | load | selectBank | switchBank | allocateTimer | cancelTimer
  | removeTimer | hold | newCell | setCell | note => exact .same rfl
  | map _ _ ok =>
    obtain rfl | ⟨_, _, -, rfl⟩ := mapInv ok
    · exact .same rfl
    · exact .same rfl
  | setRegister ok =>
    obtain ⟨d, d', -, -, rfl⟩ := setRegisterInv ok
    exact .same rfl
  | emit event => exact .same (traceUnits a event)
  | schedule | scheduleCycles => exact .yield (cutUnits a _ _)
  | adjustTimer delay period =>
    unfold adjustTimer
    dsimp only
    split
    · exact .yield (cutUnits a _ _)
    · exact .same rfl
  | requestYield => exact .yield (.inr rfl)
  | boostInterleave quantum duration => exact .yield (.inr (by
      unfold boostInterleave requestYield
      dsimp only
      split <;> rfl))
  | suspend ok => exact suspendMoved (.inr ⟨a, _, allowed⟩) ok
  | spin ok =>
    obtain ⟨index, p, unit, ⟨-, rfl⟩ | ⟨calm, ok⟩⟩ := spinInv ok
    · exact .same rfl
    · obtain ⟨index', p', unit', units⟩ := suspendUnits ok
      rw [unit] at unit'
      cases unit'
      exact .unit unit units fun _ => .spin calm
  | resume ok =>
    obtain ⟨index, p, unit, ⟨-, rfl⟩ | ⟨-, units⟩⟩ := resumeUnits ok
    · exact .same rfl
    · exact .unit unit units fun here => .resume (by rw [here]; exact ok)
  | driveLine ok =>
    obtain ⟨index, p, lines, unit, driven, units⟩ := driveLineUnits ok
    refine .unit unit units fun here => ?_
    split
    · rename_i wakes
      obtain ⟨active, spins⟩ := Bool.and_eq_true_iff.mp wakes
      rw [← here] at ok
      exact .wake ok active spins
    · rename_i calm
      exact .drive driven (by simpa using calm)
  | @driveReset _ _ device asserted ok =>
    cases asserted with
    | true => exact suspendMoved (.inl rfl) ok
    | false =>
      obtain ⟨index, p, unit, ⟨-, rfl⟩ | ⟨held, units⟩⟩ := driveResetUnits ok
      · exact .same rfl
      · exact .unit unit units fun here => .release (by rw [here]; exact ok) held

theorem touchMoved (touch : Touch a b) : Moved rule a b := by
  cases touch with
  | unmapped kind address write => exact .same (traceUnits ..)
  | drive | countRead | countWrite | store => exact .same rfl

theorem stillChanged (units : b.units = a.units) : Changed (Processor.Change rule a b) a b :=
  (Moved.same units).changed

theorem tickChanged (tick : Tick a b) : Changed (Processor.Change rule a b) a b := by
  have refl : ∀ i p, Processor.Change rule a b i p p := fun _ _ => .move .same
  cases tick with
  | pulse h =>
    cases h with
    | enter | count | charge => exact stillChanged rfl
    | publish unit read => exact .unit refl rfl fun p _ => .publish read
    | accept row =>
      refine .unit refl rfl fun p found => ?_
      rw [found] at row
      exact .accept row
  | place | grant | close | freeze | sink => exact stillChanged rfl
  | ready unit => exact .unit refl rfl fun p _ => .ready
  | settle unit cycles consumed trap start =>
    refine .unit refl (settleUnits ..) fun p _ => .settle _ _ ?_
    split
    · exact .inr rfl
    · exact .inl rfl
  | disable unit => exact .unit refl rfl fun p _ => .disable
  | restart now index =>
    cases reset : a.resetUnit index with
    | ok s => exact .unit refl (restartUnits now reset) fun p _ => .restart reset rfl
    | error e =>
      rw [restartSkipped _ reset]
      exact stillChanged rfl

theorem stepChanged (step : Step rule a b) : Changed (Processor.Change rule a b) a b := by
  cases step with
  | deed allowed deed => exact (deedMoved allowed deed).changed
  | touch h => exact (touchMoved h).changed
  | tick h => exact tickChanged h
  | lend | giveBack | pop | wait => exact stillChanged rfl

end

end Machine

end Lockstep
