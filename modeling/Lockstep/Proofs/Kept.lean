import Lockstep.Proofs.Scripts
import Lockstep.Proofs.TimerQueue

/-! What acts leave alone. The slice that runs, its budget and the clock of the timers
stay, so the present time does. A processor keeps its device and clock; its local time
never goes back and goes no further than the present; and one that becomes live has
been brought up to the present. -/
namespace Lockstep

section
variable {α β : Type} {rows rows' : Array α} {g : α → β}

theorem mapModify {f : α → α} (same : ∀ x, g (f x) = g x) (rows : Array α) (index : Nat) :
    (rows.modify index f).map g = rows.map g := by
  refine Array.ext_getElem? fun i => ?_
  simp only [Array.getElem?_map, Array.getElem?_modify]
  split
  · rw [Option.map_map]
    exact congrArg (Option.map · _) (funext same)
  · rfl

theorem mapEach (size : rows'.size = rows.size) (each : ∀ {i : Nat} {x : α}, rows[i]? = some x →
    ∃ y, rows'[i]? = some y ∧ g y = g x) : rows'.map g = rows.map g := by
  refine Array.ext_getElem? fun i => ?_
  rw [Array.getElem?_map, Array.getElem?_map]
  cases found : rows[i]? with
  | none =>
    rw [Array.getElem?_eq_none_iff, ← size, ← Array.getElem?_eq_none_iff] at found
    rw [found]
  | some x =>
    obtain ⟨y, found', same⟩ := each found
    rw [found', Option.map_some, Option.map_some, same]

theorem modifyTwice (rows : Array α) (index : Nat) (f g : α → α) :
    (rows.modify index f).modify index g = rows.modify index fun x => g (f x) := by
  refine Array.ext_getElem? fun i => ?_
  simp only [Array.getElem?_modify]
  split
  · rw [Option.map_map]
    rfl
  · rfl

end

structure Processor.Kept (since upto : Time) (p p' : Processor) : Prop where
  device : p'.device = p.device
  clock : p'.clock = p.clock
  cycles : p'.totalCycles = p.totalCycles
  forward : p.localTime ≤ p'.localTime
  within : p'.localTime.attos ≤ max p.localTime.attos upto.attos
  woken : p'.isLive = true → p.isLive = true ∨ since ≤ p'.localTime

namespace Processor.Kept
variable {since upto now : Time} {p q r : Processor}

theorem refl (since upto : Time) (p : Processor) : Kept since upto p p :=
  ⟨rfl, rfl, rfl, Nat.le_refl _, Nat.le_max_left .., .inl⟩

theorem trans (first : Kept since upto p q) (rest : Kept since upto q r) :
    Kept since upto p r := by
  refine ⟨rest.device.trans first.device, rest.clock.trans first.clock,
    rest.cycles.trans first.cycles, Nat.le_trans first.forward rest.forward, ?_, fun live => ?_⟩
  · have := first.within
    have := rest.within
    omega
  · rcases rest.woken live with live | late
    · rcases first.woken live with live | late
      · exact .inl live
      · exact .inr (Nat.le_trans late rest.forward)
    · exact .inr late

theorem widen {since' upto' : Time} (h : Kept since upto p q) (sooner : since' ≤ since)
    (later : upto ≤ upto') : Kept since' upto' p q := by
  refine ⟨h.device, h.clock, h.cycles, h.forward, ?_, fun live => ?_⟩
  · have := h.within
    rw [Time.le_def] at later
    omega
  · exact (h.woken live).imp_right (Nat.le_trans sooner)

theorem still (device : q.device = p.device) (clock : q.clock = p.clock)
    (cycles : q.totalCycles = p.totalCycles) (time : q.localTime = p.localTime)
    (live : q.isLive = true → p.isLive = true) : Kept since upto p q := by
  refine ⟨device, clock, cycles, ?_, ?_, fun h => .inl (live h)⟩
  · rw [time]; exact Nat.le_refl _
  · rw [time]; exact Nat.le_max_left ..

theorem caughtUp (device : q.device = p.device) (clock : q.clock = p.clock)
    (cycles : q.totalCycles = p.totalCycles) (time : q.localTime = p.localTime) :
    Kept now now p (q.catchUp now) := by
  unfold catchUp
  split
  · rename_i late
    rw [time] at late
    exact ⟨device, clock, cycles, Nat.le_of_lt late, Nat.le_max_right ..,
      fun _ => .inr (Nat.le_refl _)⟩
  · rename_i early
    rw [time, Time.lt_def] at early
    refine ⟨device, clock, cycles, ?_, ?_, fun _ => .inr ?_⟩
    · rw [time]; exact Nat.le_refl _
    · rw [time]; exact Nat.le_max_left ..
    · rw [time, Time.le_def]; omega

end Processor.Kept

namespace Suspension

theorem emptyOfUnion {a b : Suspension} (h : (a.union b).isEmpty = true) : a.isEmpty = true := by
  obtain ⟨a₁, a₂, a₃, a₄, a₅, a₆⟩ := a
  simp [union, zip, isEmpty] at h ⊢
  grind

theorem emptyDiff {a : Suspension} (empty : a.isEmpty = true) (b : Suspension) :
    (a.diff b).isEmpty = true := by
  rw [eq_of_beq empty]
  rfl

end Suspension

def Device.role : Device → DeviceClass × Option Peripheral
  | .peripheral p => (.peripheral, some p)
  | d => (d.kind, none)

theorem Device.roleKind (d : Device) : d.role.1 = d.kind := by cases d <;> rfl

namespace Machine

def classOf? (m : Machine) (id : DeviceId) : Option DeviceClass :=
  (m.tree.get? id).map fun node => node.device.device.kind

def roleOf? (m : Machine) (id : DeviceId) : Option (DeviceClass × Option Peripheral) :=
  (m.tree.get? id).map fun node => node.device.device.role

theorem roleClass (m : Machine) (id : DeviceId) : m.classOf? id = (m.roleOf? id).map Prod.fst := by
  simp [classOf?, roleOf?, Function.comp_def, Device.roleKind]

theorem treeModify {α : Type} (m : Machine) {id : DeviceId} {f : Seat → Seat} (view : Device → α)
    (h : ∀ node, m.tree.get? id = some node → view (f node.device).device = view node.device.device)
    (other : DeviceId) : ((m.tree.modify id f).get? other).map (fun node => view node.device.device) =
      (m.tree.get? other).map fun node => view node.device.device := by
  simp only [Tree.modify, Tree.get?, Array.getElem?_modify]
  split
  · rename_i here
    rw [← here]
    cases found : m.tree.nodes[id.index]? with
    | none => rfl
    | some node =>
      have := h node found
      simp only [Option.map_some, this]
  · rfl

structure Kept (m m' : Machine) : Prop where
  config : m'.config = m.config
  frame : m'.frame = m.frame
  budget : m'.budget = m.budget
  clock : m'.timers.now = m.timers.now
  sound : m.timers.Sound → m'.timers.Sound
  size : m'.units.size = m.units.size
  each : ∀ {i : Nat} {p : Processor}, m.units[i]? = some p →
    ∃ p', m'.units[i]? = some p' ∧ p.Kept m.now m.now p'
  roles : ∀ id, m'.roleOf? id = m.roleOf? id

namespace Kept
variable {m m' a b c : Machine}

theorem classes (h : Kept m m') (id : DeviceId) : m'.classOf? id = m.classOf? id := by
  rw [roleClass, roleClass, h.roles]

theorem back (h : Kept m m') {i : Nat} {p' : Processor} (found : m'.units[i]? = some p') :
    ∃ p, m.units[i]? = some p ∧ p.Kept m.now m.now p' := by
  have bound : i < m.units.size := by
    rw [← h.size]
    exact (Array.getElem?_eq_some_iff.mp found).1
  have row : m.units[i]? = some m.units[i] := Array.getElem?_eq_getElem bound
  obtain ⟨q, found', kept⟩ := h.each row
  rw [found] at found'
  cases found'
  exact ⟨_, row, kept⟩

theorem consumed (h : Kept m m') (f : Frame) : m'.consumedIn f = m.consumedIn f := by
  unfold consumedIn
  rw [h.budget]

theorem now (h : Kept m m') : m'.now = m.now := by
  unfold Machine.now
  rw [h.frame]
  cases m.frame with
  | none => exact h.clock
  | some f =>
    dsimp only
    cases found : m.units[f.unit]? with
    | none =>
      have : m'.units[f.unit]? = none := by
        rw [Array.getElem?_eq_none_iff] at found ⊢
        rw [h.size]
        exact found
      rw [this]
    | some p =>
      obtain ⟨p', found', kept⟩ := h.each found
      rw [found']
      dsimp only
      rw [h.consumed, Processor.period, Processor.period, kept.clock]

theorem refl (m : Machine) : Kept m m :=
  ⟨rfl, rfl, rfl, rfl, id, rfl, fun {_ p} found => ⟨p, found, .refl m.now m.now p⟩, fun _ => rfl⟩

theorem trans (first : Kept a b) (rest : Kept b c) : Kept a c := by
  refine ⟨rest.config.trans first.config, rest.frame.trans first.frame,
    rest.budget.trans first.budget, rest.clock.trans first.clock, rest.sound ∘ first.sound,
    rest.size.trans first.size, fun found => ?_,
    fun id => (rest.roles id).trans (first.roles id)⟩
  obtain ⟨q, found, one⟩ := first.each found
  obtain ⟨r, found, two⟩ := rest.each found
  rw [first.now] at two
  exact ⟨r, found, one.trans two⟩

theorem timers (config : m'.config = m.config) (frame : m'.frame = m.frame)
    (budget : m'.budget = m.budget) (units : m'.units = m.units) (tree : m'.tree = m.tree)
    (clock : m'.timers.now = m.timers.now) (sound : m.timers.Sound → m'.timers.Sound) :
    Kept m m' := by
  refine ⟨config, frame, budget, clock, sound, by rw [units], fun {i p} found => ?_, fun id => ?_⟩
  · rw [units]
    exact ⟨p, found, .refl _ _ p⟩
  · rw [roleOf?, roleOf?, tree]

theorem same (config : m'.config = m.config) (frame : m'.frame = m.frame)
    (budget : m'.budget = m.budget) (units : m'.units = m.units) (tree : m'.tree = m.tree)
    (timers : m'.timers = m.timers) : Kept m m' :=
  .timers config frame budget units tree (by rw [timers]) (by rw [timers]; exact id)

theorem modifyUnit {index : Nat} {f : Processor → Processor}
    (h : ∀ p, m.units[index]? = some p → p.Kept m.now m.now (f p)) : Kept m (m.modifyUnit index f) := by
  refine ⟨rfl, rfl, rfl, rfl, id, Array.size_modify, fun {i p} found => ?_, fun _ => rfl⟩
  change ∃ p', (m.units.modify index f)[i]? = some p' ∧ _
  rw [Array.getElem?_modify]
  by_cases here : index = i
  · subst here
    exact ⟨f p, by rw [if_pos rfl, found, Option.map_some], h p found⟩
  · exact ⟨p, by rw [if_neg here, found], .refl _ _ p⟩

theorem modifySeat {id : DeviceId} {f : Seat → Seat}
    (h : ∀ node, m.tree.get? id = some node → (f node.device).device.role = node.device.device.role) :
    Kept m { m with tree := m.tree.modify id f } :=
  ⟨rfl, rfl, rfl, rfl, fun s => s, rfl, fun {_ p} found => ⟨p, found, .refl _ _ p⟩,
    treeModify m Device.role h⟩

theorem trace (m : Machine) (event : TraceEvent) : Kept m (m.trace event) := by
  unfold Machine.trace
  split
  · split
    · exact .same rfl rfl rfl rfl rfl rfl
    · exact refl m
  · exact refl m

theorem requestYield (m : Machine) : Kept m m.requestYield := by
  unfold Machine.requestYield
  split
  · exact modifyUnit fun p _ => .still rfl rfl rfl rfl id
  · exact refl m

theorem cutBefore (m : Machine) (time : Time) : Kept m (m.cutBefore time) := by
  unfold Machine.cutBefore
  split
  · split
    · exact requestYield m
    · exact refl m
  · exact refl m

end Kept

section
variable {m m' : Machine} {device : DeviceId} {index : Nat} {p : Processor}

theorem unitInv (h : m.unit device = .ok (index, p)) :
    m.unitIndex? device = some index ∧ m.units[index]? = some p := by
  unfold unit at h
  split at h
  · rename_i found
    cases h
    obtain ⟨i, place, row⟩ := Option.bind_eq_some_iff.mp found
    obtain ⟨q, row, same⟩ := Option.map_eq_some_iff.mp row
    cases same
    exact ⟨place, row⟩
  · cases h

theorem unitDevices {p' : Processor}
    (devices : m'.units.map (·.device) = m.units.map (·.device))
    (unit : m.unit device = .ok (index, p)) (found : m'.units[index]? = some p') :
    m'.unit device = .ok (index, p') := by
  have place : m'.unitIndex? device = m.unitIndex? device := by
    have search := congrArg (Array.findIdx? (· == device)) devices
    rw [Array.findIdx?_map, Array.findIdx?_map] at search
    exact search
  unfold Machine.unit
  rw [place, (unitInv unit).1, Option.bind_some, found]
  rfl

theorem Kept.devices (h : Kept m m') : m'.units.map (·.device) = m.units.map (·.device) := by
  refine mapEach h.size fun found => ?_
  obtain ⟨p', found', kept⟩ := h.each found
  exact ⟨p', found', kept.device⟩

theorem unitFound (unit : m.unit device = .ok (index, p)) : p.device = device := by
  obtain ⟨place, found⟩ := unitInv unit
  have here := Array.of_findIdx?_eq_some place
  rw [found] at here
  exact eq_of_beq here

theorem unitModified (found : m.units[index]? = some p) (f : Processor → Processor) :
    (m.modifyUnit index f).units[index]? = some (f p) := by
  simp [Machine.modifyUnit, Array.getElem?_modify, found]

theorem suspendInv {reasons : Suspension} (ok : m.suspend device reasons = .ok m') :
    ∃ index p, m.unit device = .ok (index, p) ∧
      let s := m.modifyUnit index fun q => { q with suspension := p.suspension.union reasons }
      let s := if p.suspension.contains reasons then s else s.trace (.suspended device reasons)
      m' = s ∨ m' = s.requestYield := by
  obtain ⟨⟨index, p⟩, unit, ok⟩ := okBindInv ok
  refine ⟨index, p, unit, ?_⟩
  dsimp only at ok ⊢
  cases ok
  split
  · split
    · exact .inr rfl
    · exact .inl rfl
  · exact .inl rfl

theorem suspendKept {reasons : Suspension} (ok : m.suspend device reasons = .ok m') : Kept m m' := by
  obtain ⟨index, p, unit, changed⟩ := suspendInv ok
  have found := (unitInv unit).2
  have first : Kept m (m.modifyUnit index fun q =>
      { q with suspension := p.suspension.union reasons }) := by
    refine .modifyUnit fun q row => .still rfl rfl rfl rfl fun live => ?_
    rw [found] at row
    cases row
    exact Suspension.emptyOfUnion live
  have second := first.trans (b := _) (c := if p.suspension.contains reasons then _ else _) <| by
    split
    · exact .refl _
    · exact .trace _ (.suspended device reasons)
  rcases changed with rfl | rfl
  · exact second
  · exact second.trans (.requestYield _)

theorem resumeInv {reasons : Suspension} (ok : m.resume device reasons = .ok m') :
    ∃ index p, m.unit device = .ok (index, p) ∧
      ((p.suspension.intersects reasons = false ∧ m' = m) ∨ p.suspension.intersects reasons = true ∧
        m' = (m.modifyUnit index fun q =>
          if (p.suspension.diff reasons).isEmpty then
            { q with suspension := p.suspension.diff reasons }.catchUp m.now
          else { q with suspension := p.suspension.diff reasons }).trace
            (.resumed device reasons)) := by
  obtain ⟨⟨index, p⟩, unit, ok⟩ := okBindInv ok
  refine ⟨index, p, unit, ?_⟩
  dsimp only at ok
  split at ok
  · rename_i apart
    cases ok
    exact .inl ⟨by simpa using apart, rfl⟩
  · rename_i meet
    cases ok
    exact .inr ⟨by simpa using meet, rfl⟩

theorem resumeKept {reasons : Suspension} (ok : m.resume device reasons = .ok m') : Kept m m' := by
  obtain ⟨index, p, unit, ⟨-, rfl⟩ | ⟨-, rfl⟩⟩ := resumeInv ok
  · exact .refl _
  · refine Kept.trans (.modifyUnit fun q row => ?_) (.trace _ _)
    split
    · exact .caughtUp rfl rfl rfl rfl
    · rename_i held
      exact .still rfl rfl rfl rfl fun live => absurd live held

theorem driveLineInv {line : Nat} {state : LineState} {vector : Option Nat}
    (ok : m.driveLine device line state vector = .ok m') :
    ∃ index p lines, m.unit device = .ok (index, p) ∧ p.lines.set? line state vector = some lines ∧
      let s := (m.modifyUnit index fun q => { q with lines }).trace
        (.inputLineChanged device line state)
      if state.isActive && p.suspension.spin then s.resume device { spin := true } = .ok m'
      else m' = s := by
  obtain ⟨⟨index, p⟩, unit, ok⟩ := okBindInv ok
  dsimp only at ok
  split at ok
  · cases ok
  · rename_i lines driven
    refine ⟨index, p, lines, unit, driven, ?_⟩
    dsimp only at ok ⊢
    split at ok
    · rename_i spins
      rw [if_pos spins]
      exact ok
    · rename_i calm
      rw [if_neg calm]
      cases ok
      rfl

theorem driveLineKept {line : Nat} {state : LineState} {vector : Option Nat}
    (ok : m.driveLine device line state vector = .ok m') : Kept m m' := by
  obtain ⟨index, p, lines, unit, -, rest⟩ := driveLineInv ok
  have driven : Kept m (m.modifyUnit index fun q => { q with lines }) :=
    .modifyUnit fun q _ => .still rfl rfl rfl rfl id
  have first := driven.trans (.trace _ (.inputLineChanged device line state))
  dsimp only at rest
  split at rest
  · exact first.trans (resumeKept rest)
  · subst rest
    exact first

theorem idleInv {id : DeviceId} {d : Device} (idle : m.idle id = .ok d) :
    ∃ node, m.tree.get? id = some node ∧ node.device.device = d ∧ node.device.busy = false := by
  unfold Machine.idle at idle
  split at idle
  · cases idle
  · rename_i node found
    split at idle
    · cases idle
    · rename_i free
      cases idle
      exact ⟨node, found, rfl, by simpa using free⟩

theorem withDeviceKept {id : DeviceId} {d d' : Device} (idle : m.idle id = .ok d)
    (role : d'.role = d.role) : Kept m (m.withDevice id d') := by
  obtain ⟨node, found, rfl, -⟩ := idleInv idle
  refine .modifySeat fun other row => ?_
  rw [found] at row
  cases row
  exact role

theorem enterAllKept (m : Machine) (entries : List Activity) : Kept m (m.enterAll entries) := by
  induction entries generalizing m with
  | nil => exact .refl m
  | cons entry rest ih =>
    have first : Kept m (m.enter entry) := .same rfl rfl rfl rfl rfl rfl
    exact first.trans (ih (m.enter entry))

theorem enterAllUnits (m : Machine) (entries : List Activity) :
    (m.enterAll entries).units = m.units := by
  induction entries generalizing m with
  | nil => rfl
  | cons entry rest ih => exact ih (m.enter entry)

theorem modifyUnitTwice (m : Machine) (index : Nat) (f g : Processor → Processor) :
    (m.modifyUnit index f).modifyUnit index g = m.modifyUnit index fun p => g (f p) := by
  unfold Machine.modifyUnit
  rw [modifyTwice]

theorem resetUnitRole (d : Device) : d.resetUnit.1.role = d.role := by
  cases d with
  | acc8 cpu => rfl
  | peripheral p => rfl
  | sequencer s =>
    unfold Device.resetUnit
    dsimp only
    split <;> rfl

theorem resetUnitInv (ok : m.resetUnit index = .ok m') :
    (m.units[index]? = none ∧ m' = m) ∨ ∃ p d, m.units[index]? = some p ∧ m.idle p.device = .ok d ∧
      m' = ((m.withDevice p.device d.resetUnit.1).enterAll d.resetUnit.2).modifyUnit index fun q =>
        { q with lines := q.lines.clear, suspension := q.suspension.diff { trapped := true } } := by
  unfold resetUnit at ok
  split at ok
  · rename_i none
    cases ok
    exact .inl ⟨none, rfl⟩
  · rename_i p found
    obtain ⟨d, idle, ok⟩ := okBindInv ok
    cases ok
    exact .inr ⟨p, d, found, idle, rfl⟩

theorem restartSkipped {e : AccessError} (now : Time) (refused : m.resetUnit index = .error e) :
    restartUnit now m index = m := by
  unfold restartUnit
  rw [refused]

theorem restartDone (now : Time) (reset : m.resetUnit index = .ok m') :
    restartUnit now m index = m'.modifyUnit index fun p =>
      { p with suspension := p.suspension.diff { trapped := true, spin := true } }.catchUp now := by
  unfold restartUnit
  rw [reset]

theorem resetUnitKept (ok : m.resetUnit index = .ok m') {f : Processor → Processor}
    (h : ∀ p, m.units[index]? = some p → p.Kept m.now m.now
      (f { p with lines := p.lines.clear, suspension := p.suspension.diff { trapped := true } })) :
    Kept m (m'.modifyUnit index f) := by
  rcases resetUnitInv ok with ⟨none, rfl⟩ | ⟨p, d, found, idle, rfl⟩
  · refine .modifyUnit fun p found => ?_
    rw [none] at found
    cases found
  · have placed := (withDeviceKept idle (resetUnitRole d)).trans (enterAllKept _ d.resetUnit.2)
    refine placed.trans ?_
    rw [modifyUnitTwice]
    refine .modifyUnit fun q row => ?_
    rw [enterAllUnits] at row
    rw [placed.now]
    exact h q row

theorem driveResetInv {asserted : Bool} (ok : m.driveReset device asserted = .ok m') :
    (asserted = true ∧ m.suspend device { reset := true } = .ok m') ∨
      asserted = false ∧ ∃ index p, m.unit device = .ok (index, p) ∧
        ((p.suspension.reset = false ∧ m' = m) ∨ p.suspension.reset = true ∧
          ∃ s, m.resetUnit index = .ok s ∧ s.resume device { reset := true } = .ok m') := by
  unfold driveReset at ok
  split at ok
  · rename_i on
    exact .inl ⟨on, ok⟩
  · rename_i off
    obtain ⟨⟨index, p⟩, unit, ok⟩ := okBindInv ok
    refine .inr ⟨by simpa using off, index, p, unit, ?_⟩
    dsimp only at ok
    split at ok
    · rename_i released
      cases ok
      exact .inl ⟨by simpa using released, rfl⟩
    · rename_i held
      exact .inr ⟨by simpa using held, okBindInv ok⟩

theorem modifyUnitId (m : Machine) (index : Nat) : m.modifyUnit index (fun p => p) = m := by
  have same : m.units.modify index (fun p => p) = m.units := by
    refine Array.ext_getElem? fun i => ?_
    rw [Array.getElem?_modify]
    split <;> simp
  unfold Machine.modifyUnit
  rw [same]

theorem resetHeldKept {p : Processor} (found : m.units[index]? = some p)
    (held : p.suspension.reset = true) (ok : m.resetUnit index = .ok m') : Kept m m' := by
  rw [← modifyUnitId m' index]
  refine resetUnitKept ok fun q row => ?_
  rw [found] at row
  cases row
  -- still held in reset, so out of a trap or not it stays asleep
  refine .still rfl rfl rfl rfl fun live => ?_
  simp [Processor.isLive, Suspension.isEmpty, Suspension.diff, Suspension.zip, held] at live

theorem driveResetKept {asserted : Bool} (ok : m.driveReset device asserted = .ok m') :
    Kept m m' := by
  rcases driveResetInv ok with ⟨-, ok⟩ | ⟨-, index, p, unit, ⟨-, rfl⟩ | ⟨held, s, reset, ok⟩⟩
  · exact suspendKept ok
  · exact .refl _
  · exact (resetHeldKept (unitInv unit).2 held reset).trans (resumeKept ok)

theorem setRegisterInv {id : RegisterId} {value : Nat}
    (ok : m.setRegister device id value = .ok m') :
    ∃ d d', m.idle device = .ok d ∧ d.setRegister id value = .ok d' ∧
      m' = m.withDevice device d' := by
  obtain ⟨d, idle, ok⟩ := okBindInv ok
  by_cases runnable : d.isRunnable = true
  · rw [runnable] at ok
    cases written : d.setRegister id value with
    | ok d' =>
      rw [written] at ok
      cases ok
      exact ⟨d, d', idle, written, rfl⟩
    | error e =>
      rw [written] at ok
      cases ok
  · rw [Bool.not_eq_true] at runnable
    rw [runnable] at ok
    cases ok

theorem setRegisterRole {d d' : Device} {id : RegisterId} {value : Nat}
    (ok : d.setRegister id value = .ok d') : d'.role = d.role := by
  cases d with
  | acc8 cpu =>
    obtain ⟨c, -, rfl⟩ := okMapInv ok
    rfl
  | peripheral p => cases ok
  | sequencer s =>
    obtain ⟨c, -, rfl⟩ := okMapInv ok
    rfl

theorem mapAdopts {override : Bool} {id : SpaceId} {first last : Nat} {handler : Bus.Handler Port}
    (ok : m.map override id first last handler = .ok m') :
    m' = m ∨ ∃ s t, m.space? id = some s ∧
      (if override then s.override m.memory first last handler
        else s.install m.memory first last handler) = .ok t ∧ m' = m.modifySpace id fun _ => t := by
  unfold Machine.map at ok
  cases found : m.space? id with
  | none =>
    rw [found] at ok
    cases ok
    exact .inl rfl
  | some s =>
    rw [found] at ok
    cases override with
    | true =>
      obtain ⟨t, mapped, ok⟩ := okBindInv (x := s.override m.memory first last handler) ok
      cases ok
      exact .inr ⟨s, t, rfl, mapped, rfl⟩
    | false =>
      obtain ⟨t, mapped, ok⟩ := okBindInv (x := s.install m.memory first last handler) ok
      cases ok
      exact .inr ⟨s, t, rfl, mapped, rfl⟩

theorem mapInv {override : Bool} {id : SpaceId} {first last : Nat} {handler : Bus.Handler Port}
    (ok : m.map override id first last handler = .ok m') :
    m' = m ∨ ∃ s entries, m.space? id = some s ∧
      m' = m.modifySpace id fun _ => { s with entries } := by
  obtain rfl | ⟨s, t, found, mapped, rfl⟩ := mapAdopts ok
  · exact .inl rfl
  split at mapped
  · obtain ⟨-, -, mapped⟩ := okBindInv mapped
    cases mapped
    exact .inr ⟨s, _, found, rfl⟩
  · obtain ⟨-, -, mapped⟩ := okBindInv mapped
    dsimp only at mapped
    split at mapped
    · cases mapped
    · cases mapped
      exact .inr ⟨s, _, found, rfl⟩

theorem scheduleKept (m : Machine) (owner : DeviceId) (delay period : Time) (param : Nat) :
    Kept m (m.schedule owner delay period param).1 := by
  have armed : Kept m { m with
      timers := (m.timers.scheduleAt owner (m.now + delay) period param).1 } :=
    .timers rfl rfl rfl rfl rfl (Timer.Queue.nowScheduleAt ..)
      fun sound => Timer.Queue.soundScheduleAt sound ..
  exact armed.trans (.cutBefore _ _)

theorem adjustTimerKept (m : Machine) (id : Timer.Id) (delay period : Time) :
    Kept m (m.adjustTimer id delay period).1 := by
  unfold adjustTimer
  dsimp only
  split
  · rename_i timers adjusted
    have same : timers = (m.timers.adjustAt id (m.now + delay) period).1 := by rw [adjusted]
    have armed : Kept m { m with timers } := by
      subst same
      exact .timers rfl rfl rfl rfl rfl (Timer.Queue.nowAdjustAt ..)
        fun sound => Timer.Queue.soundAdjustAt sound ..
    exact armed.trans (.cutBefore _ _)
  · exact .refl m

theorem actKept (h : Act m m') : Kept m m' := by
  cases h with
  | enter | count | sink | drive | countRead | countWrite | freeze | store | select | issue
  | newCell | setCell => exact .same rfl rfl rfl rfl rfl rfl
  | map ok =>
    obtain rfl | ⟨_, _, -, rfl⟩ := mapInv ok
    · exact .refl _
    · exact .same rfl rfl rfl rfl rfl rfl
  | schedule owner delay period param => exact scheduleKept ..
  | allocateTimer owner param =>
    exact .timers rfl rfl rfl rfl rfl (Timer.Queue.nowOccupy ..)
      fun sound => Timer.Queue.soundOccupy sound ..
  | adjustTimer id delay period => exact adjustTimerKept ..
  | cancelTimer id =>
    exact .timers rfl rfl rfl rfl rfl Timer.Queue.nowCancel Timer.Queue.soundCancel
  | removeTimer id =>
    exact .timers rfl rfl rfl rfl rfl Timer.Queue.nowRemove Timer.Queue.soundRemove
  | requestYield => exact .requestYield m
  | suspend ok => exact suspendKept ok
  | resume ok => exact resumeKept ok
  | driveLine ok => exact driveLineKept ok
  | driveReset ok => exact driveResetKept ok
  | boostInterleave quantum duration =>
    have boosted : Kept m { m with boost := some ⟨quantum, m.now + duration⟩ } :=
      .same rfl rfl rfl rfl rfl rfl
    exact boosted.trans (.requestYield _)
  | setRegister ok =>
    obtain ⟨d, d', idle, written, rfl⟩ := setRegisterInv ok
    exact withDeviceKept idle (setRegisterRole written)
  | hold => exact .modifySeat fun _ _ => rfl
  | giveBack => exact .modifySeat fun _ _ => rfl

theorem effectKept (h : Effect m m') : Kept m m' :=
  h.lift Kept.refl Kept.trans actKept

theorem restartUnitKept (m : Machine) (index : Nat) : Kept m (restartUnit m.now m index) := by
  cases reset : m.resetUnit index with
  | error e =>
    rw [restartSkipped _ reset]
    exact .refl m
  | ok s =>
    rw [restartDone _ reset]
    exact resetUnitKept reset fun p _ => .caughtUp rfl rfl rfl rfl

end

end Machine

end Lockstep
