import Lockstep.Proofs.Entry
import Lockstep.Proofs.Fixtures
import Lockstep.Proofs.Separate
import Lockstep.Proofs.Wakeful

/-! The two ways out of reset. To release the reset line of a processor does to it what a reset of
the machine does that takes it off the line afterwards, with one difference: a processor that waits
for an interrupt goes on waiting if its line is released, although its lines are cleared. -/
namespace Lockstep

namespace Processor

def restarted (now : Time) (p : Processor) : Processor :=
  { p.cleared with
    suspension := p.cleared.suspension.diff { trapped := true, spin := true } }.catchUp now

theorem restartedDevice (now : Time) (p : Processor) : (p.restarted now).device = p.device := by
  unfold restarted catchUp
  split <;> rfl

theorem catchUpTwice (now : Time) (p : Processor) : (p.catchUp now).catchUp now = p.catchUp now := by
  by_cases late : p.localTime < now
  · simp [catchUp, late, Time.lt_def]
  · simp [catchUp, late]

theorem catchUpSuspended (now : Time) (s : Suspension) (p : Processor) :
    { p.catchUp now with suspension := s } = { p with suspension := s }.catchUp now := by
  unfold catchUp
  split <;> rfl

theorem catchUpRest (now : Time) (p : Processor) : ∃ t, p.catchUp now = { p with localTime := t } := by
  unfold catchUp
  split
  · exact ⟨now, rfl⟩
  · exact ⟨p.localTime, rfl⟩

theorem liftEmpty {reasons : Suspension} (now : Time) {p : Processor}
    (empty : p.suspension.diff reasons = {}) :
    p.lift now reasons = { p with suspension := {} }.catchUp now := by
  unfold lift
  rw [empty]
  rfl

theorem liftRest (now : Time) (reasons : Suspension) (p : Processor) : ∃ t,
    p.lift now reasons = { p with suspension := p.suspension.diff reasons, localTime := t } := by
  unfold lift
  dsimp only
  split
  · obtain ⟨t, same⟩ := catchUpRest now { p with suspension := p.suspension.diff reasons }
    exact ⟨t, same⟩
  · exact ⟨p.localTime, rfl⟩

section
variable (now : Time) (p : Processor)

def released : Processor := p.cleared.lift now { reset := true }

theorem releasedSuspension :
    (p.released now).suspension = p.suspension.diff { reset := true, trapped := true } := by
  rw [released, (liftLines ..).2.1, cleared, Suspension.diffDiff]
  rfl

theorem restartedSuspension : ((p.restarted now).lift now { reset := true }).suspension =
    (p.released now).suspension.diff { spin := true } := by
  rw [(liftLines ..).2.1, restarted, (catchUpLines ..).2.1, releasedSuspension, cleared,
    Suspension.diffDiff, Suspension.diffDiff, Suspension.diffDiff]
  rfl

theorem releasedLive : (p.released now).isLive = true ↔
    p.suspension.diff { reset := true, trapped := true } = {} := by
  rw [isLive, releasedSuspension, Suspension.emptyIff]

theorem releasedGoes (live : (p.released now).isLive = true) :
    (p.restarted now).lift now { reset := true } = p.released now := by
  have empty := (releasedLive now p).mp live
  have one : p.cleared.suspension.diff { reset := true } = {} := by
    rw [← empty, ← releasedSuspension now, released, (liftLines ..).2.1]
  have two : (p.restarted now).suspension.diff { reset := true } = {} := by
    have both := restartedSuspension now p
    rw [(liftLines ..).2.1, releasedSuspension, empty] at both
    exact both
  rw [released, liftEmpty now one, liftEmpty now two, restarted, catchUpSuspended, catchUpTwice]

theorem releasedRest : ∃ t, p.released now = { (p.restarted now).lift now { reset := true } with
    suspension := p.suspension.diff { reset := true, trapped := true }, localTime := t } := by
  obtain ⟨t, one⟩ := liftRest now { reset := true } p.cleared
  obtain ⟨u, two⟩ := liftRest now { reset := true } (p.restarted now)
  obtain ⟨v, three⟩ := catchUpRest now { p.cleared with
    suspension := p.cleared.suspension.diff { trapped := true, spin := true } }
  have reasons := releasedSuspension now p
  rw [released, one] at reasons
  refine ⟨t, ?_⟩
  rw [released, one, two, restarted, three, ← reasons]

end

end Processor

namespace Machine

structure Undisturbed (a b : Machine) : Prop where
  tree : b.tree = a.tree
  units : b.units = a.units
  frame : b.frame = a.frame
  clock : b.timers.now = a.timers.now

/-- The reset hooks of all devices come back and leave devices, processors and the time alone. -/
def InertResets (call : Callback) (m : Machine) : Prop :=
  ∀ id p, m.roleOf? id = some (.peripheral, some p) →
    ∀ a, ∃ reply b, call p.reset a = some (reply, b) ∧ Undisturbed a b

section
variable {a b m m' : Machine} {call : Callback} {id device : DeviceId} {index : Nat} {p : Processor}
  {cpu : Acc8} {now : Time}

theorem Undisturbed.trans {c : Machine} (first : Undisturbed a b) (rest : Undisturbed b c) :
    Undisturbed a c :=
  ⟨rest.tree.trans first.tree, rest.units.trans first.units, rest.frame.trans first.frame,
    rest.clock.trans first.clock⟩

theorem treeBack {d : Device} (idle : m.idle id = .ok d) (tree : b.tree = (m.setBusy id true).tree) :
    (b.setBusy id false).tree = m.tree := by
  obtain ⟨node, found, -, free⟩ := idleInv idle
  have back : (b.tree.modify id fun s => { s with busy := false }).nodes = m.tree.nodes := by
    rw [tree]
    refine Array.ext_getElem? fun i => ?_
    simp only [setBusy, Tree.modify, Array.getElem?_modify]
    split
    · rename_i here
      subst here
      rw [show m.tree.nodes[id.index]? = some node from found, Option.map_some, Option.map_some, ← free]
    · rfl
  exact Tree.ext back (congrArg Tree.names tree :)

theorem resetDevicesInert (inert : InertResets call m) (ids : List DeviceId) :
    ∃ m', resetDevices call ids m = some (⟨⟩, m') ∧ Undisturbed m m' := by
  induction ids generalizing m with
  | nil => exact ⟨m, rfl, rfl, rfl, rfl, rfl⟩
  | cons id rest ih =>
    unfold resetDevices
    rw [Run.getBind]
    cases idle : m.idle id with
    | error e => exact ih inert
    | ok device =>
      -- a hook runs while its device is in use; the tree is what it was when that is given back
      have onward : ∀ b : Machine, b.tree = (m.setBusy id true).tree → b.units = m.units → b.frame = m.frame →
          b.timers.now = m.timers.now → ∃ m', resetDevices call rest (b.setBusy id false) =
            some (⟨⟩, m') ∧ Undisturbed m m' := by
        intro b tree units frame clock
        have back : Undisturbed m (b.setBusy id false) := ⟨treeBack idle tree, units, frame, clock⟩
        obtain ⟨m', ran, same⟩ := ih (m := b.setBusy id false) fun other p role =>
          inert other p (by rw [← role, roleOf?, roleOf?, back.tree])
        exact ⟨m', ran, back.trans same⟩
      cases device with
      | acc8 | sequencer => exact onward _ rfl rfl rfl rfl
      | peripheral p =>
        obtain ⟨node, found, kind, -⟩ := idleInv idle
        have role : m.roleOf? id = some (.peripheral, some p) := by
          rw [roleOf?, found, Option.map_some, kind]
          rfl
        obtain ⟨reply, b, ran, same⟩ := inert id p role (m.setBusy id true)
        have discarded : discard (call p.reset) (m.setBusy id true) = some (⟨⟩, b) := by
          change (call p.reset (m.setBusy id true)).bind _ = _
          rw [ran]
          rfl
        obtain ⟨m', goes, kept⟩ := onward b same.tree same.units same.frame same.clock
        refine ⟨m', ?_, kept⟩
        dsimp only
        rw [Run.modifyBind, Run.bindSome discarded, Run.modifyBind]
        exact goes

theorem placedIdle {d : Device} (idle : m.idle id = .ok d) (d' : Device) :
    (m.withDevice id d').idle id = .ok d' := by
  obtain ⟨node, found, -, free⟩ := idleInv idle
  have seat : (m.withDevice id d').seat? id = some { node.device with device := d' } := by
    rw [withDevice, seatModify, if_pos rfl, seat?, found]
    rfl
  exact idleSeat seat free

theorem placedBeside {d : Device} (idle : m.idle id = .ok d) (away : id ≠ device) (d' : Device) :
    (m.withDevice device d').idle id = .ok d := by
  obtain ⟨node, found, rfl, free⟩ := idleInv idle
  have seat : (m.withDevice device d').seat? id = some node.device := by
    rw [withDevice, seatModify, if_neg away, seat?, found]
    rfl
  exact idleSeat seat free

theorem resetUnitOk (found : m.units[index]? = some p) (idle : m.idle p.device = .ok (.acc8 cpu)) :
    ∃ s, m.resetUnit index = .ok s ∧ s.idle p.device = .ok (.acc8 cpu.reset) := by
  refine ⟨(m.withDevice p.device (.acc8 cpu.reset)).modifyUnit index Processor.cleared, ?_,
    placedIdle idle _⟩
  unfold resetUnit
  rw [found]
  dsimp only
  rw [idle]
  rfl

theorem restartOwn (found : m.units[index]? = some p) (idle : m.idle p.device = .ok (.acc8 cpu))
    (now : Time) : (restartUnit now m index).units[index]? = some (p.restarted now) ∧
      (restartUnit now m index).idle p.device = .ok (.acc8 cpu.reset) := by
  obtain ⟨s, reset, free⟩ := resetUnitOk found idle
  refine ⟨?_, ?_⟩
  · rw [restartUnits now reset]
    exact unitModified found _
  · rw [restartDone _ reset]
    exact free

theorem restartBeside {other : Nat} (away : other ≠ index) (found : m.units[index]? = some p)
    (idle : m.idle p.device = .ok (.acc8 cpu)) (now : Time) :
    (restartUnit now m other).units[index]? = some p ∧
      ((restartUnit now m other).idle p.device = .ok (.acc8 cpu) ∨
        (restartUnit now m other).idle p.device = .ok (.acc8 cpu.reset)) := by
  cases reset : m.resetUnit other with
  | error e =>
    rw [restartSkipped _ reset]
    exact ⟨found, .inl idle⟩
  | ok s =>
    refine ⟨?_, ?_⟩
    · rw [restartUnits now reset]
      simp only [modifyUnit, Array.getElem?_modify, if_neg away, found]
    · rw [restartDone _ reset]
      rcases resetUnitInv reset with ⟨-, rfl⟩ | ⟨q, d, -, free, rfl⟩
      · exact .inl idle
      · have placed := @idleTree _ _ p.device
          (enterAllTree (m.withDevice q.device d.resetUnit.1) d.resetUnit.2)
        by_cases same : p.device = q.device
        · rw [← same] at free placed ⊢
          rw [idle] at free
          cases free
          exact .inr (placed.trans (placedIdle idle _))
        · exact .inl (placed.trans (placedBeside idle same _))

theorem restartsBeside {indices : List Nat} (away : index ∉ indices)
    (found : m.units[index]? = some p) (idle : m.idle p.device = .ok (.acc8 cpu)) (now : Time) :
    (indices.foldl (restartUnit now) m).units[index]? = some p ∧
      ((indices.foldl (restartUnit now) m).idle p.device = .ok (.acc8 cpu) ∨
        (indices.foldl (restartUnit now) m).idle p.device = .ok (.acc8 cpu.reset)) := by
  induction indices generalizing m cpu with
  | nil => exact ⟨found, .inl idle⟩
  | cons other rest ih =>
    have before := List.ne_of_not_mem_cons away
    have after := List.not_mem_of_not_mem_cons away
    obtain ⟨found', idle' | idle'⟩ := restartBeside (Ne.symm before) found idle now
    · exact ih after found' idle'
    · obtain ⟨last, once | twice⟩ := ih after found' idle'
      · exact ⟨last, .inr once⟩
      · exact ⟨last, .inr twice⟩

theorem restartsOwn {indices : List Nat} (mem : index ∈ indices) (nodup : indices.Nodup)
    (found : m.units[index]? = some p) (idle : m.idle p.device = .ok (.acc8 cpu)) (now : Time) :
    (indices.foldl (restartUnit now) m).units[index]? = some (p.restarted now) ∧
      (indices.foldl (restartUnit now) m).idle p.device = .ok (.acc8 cpu.reset) := by
  induction indices generalizing m cpu with
  | nil => cases mem
  | cons other rest ih =>
    obtain ⟨fresh, nodup⟩ := List.nodup_cons.mp nodup
    by_cases here : other = index
    · subst here
      obtain ⟨found', idle'⟩ := restartOwn found idle now
      rw [← Processor.restartedDevice now p] at idle' ⊢
      -- another processor on the device resets it once more, which changes nothing
      obtain ⟨last, once | twice⟩ := restartsBeside fresh found' idle' now
      · exact ⟨last, once⟩
      · exact ⟨last, twice⟩
    · have later : index ∈ rest := (List.mem_cons.mp mem).resolve_left (Ne.symm here)
      obtain ⟨found', idle' | idle'⟩ := restartBeside here found idle now
      · exact ih later nodup found' idle'
      · obtain ⟨last, twice⟩ := ih later nodup found' idle'
        exact ⟨last, twice⟩

theorem resetRestarts (rests : m.frame = none) (inert : InertResets call m)
    (unit : m.unit device = .ok (index, p)) (idle : m.idle device = .ok (.acc8 cpu)) :
    ∃ b, reset call m = some (⟨⟩, b) ∧ b.now = m.now ∧
      b.unit device = .ok (index, p.restarted m.now) ∧ b.idle device = .ok (.acc8 cpu.reset) := by
  obtain ⟨s, devices, same⟩ := resetDevicesInert inert m.tree.ids
  have present : s.now = m.now := by
    rw [Machine.now, Machine.now, same.frame, rests]
    exact same.clock
  obtain ⟨-, found⟩ := unitInv unit
  rw [← unitFound unit] at idle
  rw [← same.units] at found
  have free : s.idle p.device = .ok (.acc8 cpu) := (idleTree same.tree).trans idle
  have inside : index ∈ List.range s.units.size :=
    List.mem_range.mpr (Array.getElem?_eq_some_iff.mp found).1
  obtain ⟨own, after⟩ := restartsOwn inside List.nodup_range found free s.now
  have kept := restartsKept (m := s) rfl (List.range s.units.size)
  refine ⟨(List.range s.units.size).foldl (restartUnit s.now) s, ?_, kept.now.trans present, ?_, ?_⟩
  · unfold reset
    rw [Run.getBind, Run.bindSome devices]
    rfl
  · rw [present] at own kept ⊢
    exact unitDevices (kept.devices.trans (congrArg _ same.units)) unit own
  · rw [← unitFound unit]
    exact after

theorem releaseOk (unit : m.unit device = .ok (index, p)) (held : p.suspension.reset = true)
    (idle : m.idle device = .ok (.acc8 cpu)) : ∃ a, m.driveReset device false = .ok a ∧
      a.unit device = .ok (index, p.released m.now) ∧ a.idle device = .ok (.acc8 cpu.reset) := by
  have own := unitFound unit
  obtain ⟨s, reset, free⟩ := resetUnitOk (unitInv unit).2 (by rw [own]; exact idle)
  rw [own] at free
  have cleared := unitUnits (resetUnits reset) (unitModify (f := Processor.cleared) (fun _ => rfl) unit)
  obtain ⟨a, resumed⟩ := resumeOk cleared { reset := true }
  have ok : m.driveReset device false = .ok a := by
    unfold driveReset
    rw [unit]
    simp only [bind, Except.bind, held, reset, resumed]
    rfl
  refine ⟨a, ok, ?_, (idleTree (treeSteers.resume resumed)).trans free⟩
  obtain ⟨_, _, same, ⟨apart, -⟩ | ⟨-, units⟩⟩ := driveResetUnits ok
  · rw [unit] at same
    cases same
    rw [held] at apart
    cases apart
  · rw [unit] at same
    cases same
    exact unitUnits units (unitModify (fun q => Processor.liftDevice ..) unit)

/-- A processor is taken off its reset line in two ways. Where its device is in use, the release of
the line is refused and changes nothing. Otherwise it leaves the processor and its registers as a
reset of the machine does after which the reason is taken away, provided that no hook interferes,
except that it leaves the processor waiting if it was waiting for an interrupt, and its time behind
while it is suspended. So the processor goes on, from its entry point and the same in every respect,
exactly if it was held for no reason but the line and a trap. -/
theorem releaseResets (rests : m.frame = none) (unit : m.unit device = .ok (index, p))
    (held : p.suspension.reset = true) (acc8 : m.classOf? device = some .acc8)
    (inert : InertResets call m) :
    (∀ e, m.idle device = .error e →
      (Command.driveReset device false).run call m = some (.fault (.access e), m)) ∧
    ∀ d, m.idle device = .ok d → ∃ cpu a b c q r, d = .acc8 cpu ∧
      (Command.driveReset device false).run call m = some (.ok, a) ∧
      reset call m = some (⟨⟩, b) ∧
      (Command.resume device { reset := true }).run call b = some (.ok, c) ∧
      a.idle device = .ok (.acc8 cpu.reset) ∧ c.idle device = .ok (.acc8 cpu.reset) ∧
      a.unit device = .ok (index, q) ∧ c.unit device = .ok (index, r) ∧
      q = { r with suspension := q.suspension, localTime := q.localTime } ∧
      r.suspension = q.suspension.diff { spin := true } ∧
      (q.isLive = true ↔ p.suspension.diff { reset := true, trapped := true } = {}) ∧
      (q.isLive = true → q = r) := by
  refine ⟨fun e busy => ?_, fun d idle => ?_⟩
  · have refused : m.driveReset device false = .error e := by
      have own := unitFound unit
      unfold driveReset resetUnit
      rw [unit]
      simp only [bind, Except.bind, held, (unitInv unit).2, own, busy]
      rfl
    unfold Command.run
    exact attemptRefused refused
  · obtain ⟨cpu, seated⟩ := classCpu.mp acc8
    cases idleCpu idle seated
    obtain ⟨a, released, mine, fresh⟩ := releaseOk unit held idle
    obtain ⟨b, ran, present, yours, restarted⟩ := resetRestarts rests inert unit idle
    obtain ⟨c, resumed⟩ := resumeOk yours { reset := true }
    have off : c.unit device = .ok (index, (p.restarted m.now).lift m.now { reset := true }) := by
      obtain ⟨_, _, same, ⟨apart, -⟩ | ⟨-, units⟩⟩ := resumeUnits resumed
      · rw [yours] at same
        cases same
        simp [Processor.restarted, Processor.cleared, Suspension.intersects, Suspension.inter,
          Suspension.diff, Suspension.zip, Suspension.isEmpty, held] at apart
      · rw [yours] at same
        cases same
        rw [present] at units
        exact unitUnits units (unitModify (fun q => Processor.liftDevice ..) yours)
    obtain ⟨t, rest⟩ := Processor.releasedRest m.now p
    refine ⟨cpu, a, b, c, _, _, rfl, ?_, ran, ?_, fresh, ?_, mine, off, ?_,
      Processor.restartedSuspension .., Processor.releasedLive .., fun live =>
        (Processor.releasedGoes m.now p live).symm⟩
    · unfold Command.run
      exact attemptDone released
    · unfold Command.run
      exact attemptDone resumed
    · exact (idleTree (treeSteers.resume resumed)).trans restarted
    · rw [rest]

end

end Machine

def paddock : Assembly :=
  ((Assembly.new {} .builtin).extend "gate" ⟨0⟩
    (.peripheral { name := "gate", reset := .noting (.reset "gate") .ok })).extend "colt" (.ofMhz 1)
      (.acc8 (.new "colt" { resetPc := some 0x200, illegalFatal := true }))

theorem paddockAssembled : Assembled paddock := ((Assembled.new _ _).extend _ _ _).extend _ _ _

theorem paddockRole {id : DeviceId} {p : Peripheral}
    (role : paddock.machine.roleOf? id = some (.peripheral, some p)) :
    p.reset = .noting (.reset "gate") .ok := by
  unfold paddock at role
  rcases Assembly.extendRole role with colt | role
  · cases colt
  rcases Assembly.extendRole role with gate | none
  · cases gate
    rfl
  · cases none

namespace Machine

theorem paddockInert {origin m : Machine} {notices : List Notice}
    (built : paddock.build (invoke 2) = some (none, origin))
    (course : Course (invoke 2) origin notices (some m)) : InertResets (invoke 2) m := by
  intro id p role a
  rw [courseRoles (invokeActs 2) course, (buildKept (invokeActs 2) built).roles] at role
  rw [paddockRole role]
  exact ⟨_, _, rfl, rfl, rfl, rfl, rfl⟩

def bridle : Script :=
  .step (.driveLine ⟨1⟩ 1 .assert none) fun _ => .perform (.driveReset ⟨1⟩ true)

def coltHeld : Bool :=
  match paddock.build (invoke 2) with
  | some (none, origin) =>
      match runUntil (invoke 2) (.ofMicros 5) 40 origin with
      | some (_, ran) =>
          match invoke 2 bridle ran with
          | some (_, m) =>
              match m.unit ⟨1⟩, m.idle ⟨1⟩ with
              | .ok (_, p), .ok (.acc8 cpu) => m.frame.isNone &&
                  decide (p.suspension = { reset := true, trapped := true }) && p.lines.isActive 1 &&
                  cpu.runState.isTrapped
              | _, _ => false
          | none => false
      | none => false
  | _ => false

theorem coltReleased : ∃ origin m notices index p cpu, Built (invoke 2) origin ∧
    Course (invoke 2) origin notices (some m) ∧ m.frame = none ∧ m.unit ⟨1⟩ = .ok (index, p) ∧
    p.suspension = { reset := true, trapped := true } ∧ p.lines.isActive 1 = true ∧
    m.idle ⟨1⟩ = .ok (.acc8 cpu) ∧ cpu.runState.isTrapped = true ∧ InertResets (invoke 2) m ∧
    ∃ a b c q, (Command.driveReset ⟨1⟩ false).run (invoke 2) m = some (.ok, a) ∧
      reset (invoke 2) m = some (⟨⟩, b) ∧
      (Command.resume ⟨1⟩ { reset := true }).run (invoke 2) b = some (.ok, c) ∧
      a.idle ⟨1⟩ = .ok (.acc8 cpu.reset) ∧ c.idle ⟨1⟩ = .ok (.acc8 cpu.reset) ∧
      q.isLive = true ∧ a.unit ⟨1⟩ = .ok (index, q) ∧ c.unit ⟨1⟩ = .ok (index, q) := by
  have held : coltHeld = true := by decide +kernel
  unfold coltHeld at held
  split at held
  · rename_i origin built
    split at held
    · rename_i u ran runs
      split at held
      · rename_i reply m bridled
        split at held
        · rename_i index p cpu unit idle
          simp only [Bool.and_eq_true, decide_eq_true_eq, Option.isNone_iff_eq_none] at held
          obtain ⟨⟨⟨rests, reasons⟩, line⟩, trapped⟩ := held
          have fresh : Course (invoke 2) origin [] (some origin) := .start
          have first := fresh.run (.ofMicros 5) 40
          rw [runs] at first
          have course := first.script bridle
          rw [bridled] at course
          have inert := paddockInert built course
          have acc8 : m.classOf? ⟨1⟩ = some .acc8 := classCpu.mpr ⟨cpu, cpuIdle idle⟩
          obtain ⟨_, a, b, c, q, r, same, released, reset, resumed, mine, yours, unit', unit'', -, -,
            live, goes⟩ := (releaseResets rests unit (by rw [reasons]) acc8 inert).2 _ idle
          cases same
          have alive := live.mpr (by rw [reasons]; rfl)
          rw [← goes alive] at unit''
          exact ⟨origin, m, _, index, p, cpu, ⟨paddock, paddockAssembled, built⟩, course, rests, unit,
            reasons, line, idle, trapped, inert, a, b, c, q, released, reset, resumed, mine, yours,
            alive, unit', unit''⟩
        · cases held
      · cases held
    · cases held
  · cases held

def slumber : Script := .step (.spinUntilInterrupt ⟨1⟩) fun _ => .perform (.driveReset ⟨1⟩ true)

def coltWaits : Bool :=
  match paddock.build (invoke 2) with
  | some (none, origin) =>
      match invoke 2 slumber origin with
      | some (_, m) =>
          match m.unit ⟨1⟩, m.driveReset ⟨1⟩ false, reset (invoke 2) m with
          | .ok (_, p), .ok a, some (_, b) =>
              match a.unit ⟨1⟩, b.resume ⟨1⟩ { reset := true } with
              | .ok (_, q), .ok c =>
                  match c.unit ⟨1⟩ with
                  | .ok (_, r) => m.frame.isNone &&
                      decide (p.suspension = { reset := true, spin := true }) &&
                      decide (q.suspension = { spin := true }) && decide (r.suspension = {}) &&
                      !q.lines.anyActive
                  | .error _ => false
              | _, _ => false
          | _, _, _ => false
      | none => false
  | _ => false

/-- To release the line of a processor that waits for an interrupt does not make it go on, as a
reset of the machine does, although all its lines are clear. -/
theorem releaseLeavesWaiting : ∃ origin m notices index p a b c q r, Built (invoke 2) origin ∧
    Course (invoke 2) origin notices (some m) ∧ InertResets (invoke 2) m ∧ m.frame = none ∧
    m.unit ⟨1⟩ = .ok (index, p) ∧ p.suspension = { reset := true, spin := true } ∧
    m.driveReset ⟨1⟩ false = .ok a ∧ a.unit ⟨1⟩ = .ok q ∧ q.2.suspension = { spin := true } ∧
    q.2.lines.anyActive = false ∧ reset (invoke 2) m = some (⟨⟩, b) ∧
    b.resume ⟨1⟩ { reset := true } = .ok c ∧ c.unit ⟨1⟩ = .ok r ∧ r.2.suspension = {} := by
  have waits : coltWaits = true := by decide +kernel
  unfold coltWaits at waits
  split at waits
  · rename_i origin built
    split at waits
    · rename_i reply m slept
      split at waits
      · rename_i index p a u b unit released ran
        split at waits
        · rename_i i q c mine resumed
          split at waits
          · rename_i j r yours
            simp only [Bool.and_eq_true, decide_eq_true_eq, Option.isNone_iff_eq_none,
              Bool.not_eq_true'] at waits
            obtain ⟨⟨⟨⟨rests, reasons⟩, waiting⟩, awake⟩, calm⟩ := waits
            have fresh : Course (invoke 2) origin [] (some origin) := .start
            have course := fresh.script slumber
            rw [slept] at course
            exact ⟨origin, m, _, index, p, a, b, c, (i, q), (j, r),
              ⟨paddock, paddockAssembled, built⟩, course, paddockInert built course, rests, unit,
              reasons, released, mine, waiting, calm, ran, resumed, yours, awake⟩
          · cases waits
        · cases waits
      · cases waits
    · cases waits
  · cases waits

end Machine

end Lockstep
