import Lockstep.Proofs.Changes

/-! No wake-up is lost. A processor that spins until an interrupt has no active line, in every
state that is reached: the check of the lines, the suspension, the wake-up and whatever clears a
line are steps, and each keeps it, in whatever order they come. -/
namespace Lockstep

def gentle : Rule := fun _ command =>
  match command with
  | .suspend _ reasons => !reasons.spin
  | _ => true

namespace InputLines
variable {κ : Type} {l l' : InputLines κ}

theorem calmIff : l.anyActive = false ↔
    ∀ {i : Nat} {e : InputLine}, l.lines[i]? = some e → e.state.isActive = false := by
  unfold anyActive
  rw [Array.any_eq_false]
  constructor
  · intro none i e found
    obtain ⟨bound, rfl⟩ := Array.getElem?_eq_some_iff.mp found
    simpa using none i bound
  · intro calm i bound
    simpa using calm (Array.getElem?_eq_getElem bound)

theorem calmLine (calm : l.anyActive = false) (line : Nat) : l.isActive line = false := by
  unfold isActive state?
  cases found : l.lines[line]? with
  | none => rfl
  | some e => exact calmIff.mp calm found

theorem calmClear (l : InputLines κ) : l.clear.anyActive = false := by
  refine calmIff.mpr fun {i e} found => ?_
  simp only [clear, Array.getElem?_map, Option.map_eq_some_iff] at found
  obtain ⟨_, -, rfl⟩ := found
  rfl

theorem calmSet {line : Nat} {state : LineState} {vector : Option Nat} (calm : l.anyActive = false)
    (off : state.isActive = false) (driven : l.set? line state vector = some l') :
    l'.anyActive = false := by
  unfold set? at driven
  split at driven
  · cases driven
    refine calmIff.mpr fun {i e} found => ?_
    rw [Array.getElem?_modify] at found
    split at found
    · obtain ⟨_, -, rfl⟩ := Option.map_eq_some_iff.mp found
      exact off
    · exact calmIff.mp calm found
  · cases driven

theorem calmAccept {line : Nat} {answer : VectorAnswer κ} (calm : l.anyActive = false)
    (row : l.acknowledge? line = some (l', answer)) : l'.anyActive = false := by
  obtain ⟨e, found, same⟩ := Option.map_eq_some_iff.mp row
  cases same
  refine calmIff.mpr fun {i e'} found' => ?_
  rw [Array.getElem?_modify] at found'
  split at found'
  · obtain ⟨_, -, rfl⟩ := Option.map_eq_some_iff.mp found'
    have off := calmIff.mp calm found
    dsimp only
    split
    · rfl
    · exact off
  · exact calmIff.mp calm found'

end InputLines

namespace Processor
variable {p p' : Processor} {now : Time}

def Listens (p : Processor) : Prop := p.suspension.spin = true → p.lines.anyActive = false

theorem liftTime {reasons : Suspension} (live : (p.lift now reasons).isLive = true) :
    now ≤ (p.lift now reasons).localTime := by
  have same : (p.lift now reasons).isLive =
      Processor.isLive { p with suspension := p.suspension.diff reasons } := by
    rw [isLive, isLive, (liftLines ..).2.1]
  rw [same] at live
  unfold lift
  simp only [live, if_true]
  unfold catchUp
  split
  · exact Nat.le_refl _
  · rename_i early
    exact Nat.le_of_not_lt early

theorem Listens.lift (h : p.suspension.spin = true → p.lines.anyActive = false)
    (reasons : Suspension) : (p.lift now reasons).Listens := by
  unfold Listens
  rw [(liftLines ..).1, (liftLines ..).2.1]
  intro spins
  exact h (by simpa [Suspension.diff, Suspension.zip] using (Bool.and_eq_true_iff.mp spins).1)

theorem suspendsGently {reasons : Suspension} (allowed : gentle.Suspends reasons) :
    reasons.spin = false := by
  rcases allowed with rfl | ⟨m, device, allowed⟩
  · rfl
  · simpa [gentle] using allowed

section
variable {a b : Machine} {i : Nat}

theorem Move.listens (moved : p.Move gentle a b i p') (listens : p.Listens) : p'.Listens := by
  cases moved with
  | same | yields => exact listens
  | drive driven calm =>
    intro spins
    rw [show p.suspension.spin = true from spins, Bool.and_true] at calm
    exact InputLines.calmSet (listens spins) calm driven
  | wake ok active spins =>
    intro spinning
    rw [(liftLines ..).2.1] at spinning
    simp [Suspension.diff, Suspension.zip] at spinning
  | suspend allowed =>
    intro spins
    have gently := suspendsGently allowed
    simp only [Suspension.union, Suspension.zip, gently, Bool.or_false] at spins
    exact listens spins
  | spin calm => exact fun _ => calm
  | resume ok => exact .lift listens _
  | release ok held => exact .lift (fun _ => InputLines.calmClear _) _

theorem Change.listens (change : p.Change gentle a b i p') (listens : p.Listens) : p'.Listens := by
  cases change with
  | move moved => exact moved.listens listens
  | publish | ready => exact listens
  | accept row => exact fun spins => InputLines.calmAccept (listens spins) row
  | restart reset restarted =>
    intro _
    rw [(catchUpLines ..).1]
    exact InputLines.calmClear _
  | settle localTime totalCycles trapped =>
    intro spins
    refine listens ?_
    rcases trapped with rfl | rfl
    · exact spins
    · simpa [Suspension.union, Suspension.zip] using spins
  | disable =>
    intro spins
    exact listens (by simpa [Suspension.union, Suspension.zip] using spins)

end

end Processor

namespace Machine
variable {m m' : Machine}

def Listens (m : Machine) : Prop := ∀ {i : Nat} {p : Processor}, m.units[i]? = some p → p.Listens

theorem listensStep (listens : m.Listens) (step : Step gentle m m') : m'.Listens := by
  intro i p' found
  obtain ⟨p, row, change⟩ := (stepChanged step).back found
  exact change.listens (listens row)

theorem listensInstance {a b : Assembly} {tag typeName : String} {clock : ClockRate}
    {parent : Option DeviceId} {device : Device} {id : DeviceId} (listens : a.machine.Listens)
    (added : a.addInstance tag typeName clock parent device = .ok (b, id)) : b.machine.Listens := by
  intro i p found
  rcases unitAdded added found with found | rfl
  · exact listens found
  · exact fun spins => by cases spins

theorem reachableListens (reached : Reachable gentle m) : m.Listens := by
  induction reached with
  | new config => exact fun h => by cases h
  | device _ added ih => exact listensInstance ih added
  | space | block | bank | looseBank | select => assumption
  | map _ ok _ ih =>
    obtain rfl | ⟨_, _, -, rfl⟩ := mapInv ok
    · exact ih
    · exact ih
  | vectors index source _ ih =>
    intro i p found
    simp only [modifyUnit, Array.getElem?_modify] at found
    split at found
    · obtain ⟨q, row, rfl⟩ := Option.map_eq_some_iff.mp found
      exact ih (p := q) row
    · exact ih found
  | step _ step ih => exact listensStep ih step

theorem resumeOk {device : DeviceId} {index : Nat} {p : Processor}
    (unit : m.unit device = .ok (index, p)) (reasons : Suspension) :
    ∃ m', m.resume device reasons = .ok m' := by
  unfold resume
  rw [unit]
  cases meets : p.suspension.intersects reasons with
  | true => exact ⟨_, by simp only [bind, Except.bind, meets]; rfl⟩
  | false => exact ⟨m, by simp only [bind, Except.bind, meets]; rfl⟩

theorem driveLineOk {device : DeviceId} {index : Nat} {p : Processor} {line : Nat}
    (unit : m.unit device = .ok (index, p)) (known : line < p.lines.count) (state : LineState)
    (vector : Option Nat) : ∃ m', m.driveLine device line state vector = .ok m' := by
  cases driven : p.lines.set? line state vector with
  | none =>
    rw [InputLines.set?, if_pos known] at driven
    cases driven
  | some lines =>
    have set_ := unitModify (f := fun q => { q with lines }) (fun _ => rfl) unit
    have seen := unitUnits (traceUnits _ (.inputLineChanged device line state)) set_
    obtain ⟨s, resumed⟩ := resumeOk seen { spin := true }
    unfold driveLine
    rw [unit]
    simp only [bind, Except.bind, driven]
    split
    · exact ⟨s, resumed⟩
    · exact ⟨_, rfl⟩

theorem driveWakes {device : DeviceId} {index : Nat} {p : Processor} {line : Nat}
    {state : LineState} (unit : m.unit device = .ok (index, p)) (spins : p.suspension.spin = true)
    (known : line < p.lines.count) (active : state.isActive = true) (vector : Option Nat) :
    ∃ m' q, m.driveLine device line state vector = .ok m' ∧ m'.now = m.now ∧
      m'.units[index]? = some q ∧ q.suspension = { p.suspension with spin := false } ∧
        (q.isLive = true → m.now ≤ q.localTime) := by
  obtain ⟨m', ok⟩ := driveLineOk unit known state vector
  obtain ⟨index', p', lines, unit', driven, units⟩ := driveLineUnits ok
  rw [unit] at unit'
  cases unit'
  simp only [active, spins, Bool.and_self, if_true] at units
  have found : m'.units[index]? =
      some ({ p with lines }.lift m.now { spin := true }) := by
    rw [units]
    exact unitModified (unitInv unit).2 _
  refine ⟨m', _, ok, (driveLineKept ok).now, found, ?_, Processor.liftTime⟩
  rw [(Processor.liftLines ..).2.1]
  simp [Suspension.diff, Suspension.zip]

/-- In every state that is reached, also inside callbacks, as long as processors are made to spin
by asking for it only: one that spins has no active line, and driving any of its lines active
takes the spin away and leaves every other reason, and brings it up to the present if that was
the last. Whatever a host has such a machine do, and starting it, leads to such states again. -/
theorem wakeUps (reached : Reachable gentle m) :
    (∀ (i : Nat) (p : Processor), m.units[i]? = some p → p.suspension.spin = true →
        ∀ line, p.lines.isActive line = false) ∧
      (∀ (call : Callback) (device : DeviceId) (index : Nat) (p : Processor),
        m.unit device = .ok (index, p) → p.suspension.spin = true →
        ∀ line < p.lines.count, ∀ (state : LineState) (vector : Option Nat),
          state.isActive = true → ∃ m' q,
            (Command.driveLine device line state vector).run call m = some (.ok, m') ∧
            m'.now = m.now ∧ m'.units[index]? = some q ∧
            q.suspension = { p.suspension with spin := false } ∧
            (q.isLive = true → m.now ≤ q.localTime)) ∧
      (∀ (depth : Nat) (notices : List Notice) (m' : Machine),
        Course (invokeUnder gentle depth) m notices (some m') →
          Course (invoke depth) m notices (some m') ∧ Reachable gentle m') ∧
      ∀ (depth : Nat) (a : Assembly) (failed : Option ConfigError) (m' : Machine), a.machine = m →
        a.build (invokeUnder gentle depth) = some (failed, m') →
          a.build (invoke depth) = some (failed, m') ∧ Reachable gentle m' := by
  refine ⟨fun i p found spins => ?_, fun call device index p unit spins line known state vector
    active => ?_, fun depth notices m' course => ?_, ?_⟩
  · exact InputLines.calmLine (reachableListens reached found spins)
  · obtain ⟨m', q, driven, rest⟩ := driveWakes unit spins known active vector
    refine ⟨m', q, ?_, rest⟩
    unfold Command.run
    exact attemptDone driven
  · exact ⟨(courseSteps course).1, reached.course course⟩
  · rintro depth a failed m' rfl built
    exact ⟨(buildSteps built).1, reached.built built⟩

theorem Reachable.extend {rule : Rule} {a : Assembly} (before : Reachable rule a.machine)
    (tag : String) (clock : ClockRate) (device : Device) :
    Reachable rule (a.extend tag clock device).machine := by
  unfold Assembly.extend
  split
  · rename_i b id added
    exact before.device added
  · exact before

def cradle : Assembly :=
  (Assembly.new {} .builtin).extend "cpu" (.ofMhz 1) (.acc8 (.new "cpu" {}))

def cradleRocks : Bool :=
  match invokeUnder gentle 1 (.perform (.spinUntilInterrupt ⟨0⟩)) cradle.machine with
  | some (_, m) =>
      match m.unit ⟨0⟩ with
      | .ok (_, p) => p.suspension.spin && decide (0 < p.lines.count)
      | .error _ => false
  | none => false

theorem cradleWakes : ∃ m index p, Reachable gentle m ∧ m.unit ⟨0⟩ = .ok (index, p) ∧
    p.suspension.spin = true ∧ p.lines.isActive 0 = false ∧
    ∃ m' q, (Command.driveLine ⟨0⟩ 0 .assert none).run (invoke 1) m = some (.ok, m') ∧
      m'.units[index]? = some q ∧ q.suspension = { p.suspension with spin := false } := by
  have rocks : cradleRocks = true := by decide +kernel
  unfold cradleRocks at rocks
  split at rocks
  · rename_i reply m ran
    split at rocks
    · rename_i index p unit
      obtain ⟨spins, known⟩ := Bool.and_eq_true_iff.mp rocks
      have ready : Reachable gentle cradle.machine := (Reachable.new {}).extend ..
      have reached := ready.steps (invokeSteps gentle 1 _ _ reply m ran).2
      obtain ⟨calm, wakes, -⟩ := wakeUps reached
      obtain ⟨m', q, driven, -, found, rest, -⟩ :=
        wakes (invoke 1) ⟨0⟩ index p unit spins 0 (of_decide_eq_true known) .assert none rfl
      exact ⟨m, index, p, reached, unit, spins, calm index p (unitInv unit).2 spins 0, m', q,
        driven, found, rest⟩
    · cases rocks
  · cases rocks

end Machine

end Lockstep
