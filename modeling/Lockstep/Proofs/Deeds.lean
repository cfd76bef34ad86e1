import Lockstep.Proofs.Effect

/-! What each command does to a machine. A command that neither goes over a bus nor lends a
device out runs no callback, so what it does is one deed, whatever callbacks do. -/
namespace Lockstep

def Command.isPlain : Command → Bool
  | .read .. | .write .. | .borrow .. => false
  | _ => true

namespace Machine

inductive Deed : Command → Machine → Machine → Prop where
  | still {m} (command : Command) : Deed command m m
  | map {m m' override route id first last target handler} (routed : m.resolve route = .ok id)
      (named : m.handler? target = some handler)
      (ok : m.map override id first last handler = .ok m') :
      Deed (.map override route first last target) m m'
  | freeze {m route id} (routed : m.resolve route = .ok id) :
      Deed (.freeze route) m (m.modifySpace id (·.freeze))
  | poke {m block id} (offset : Nat) (value : UInt8) (named : m.memory.blockId? block = some id) :
      Deed (.poke block offset value) m { m with memory := m.memory.write id offset [value] }
  | load {m block id} (offset : Nat) (bytes : List UInt8)
      (named : m.memory.blockId? block = some id) :
      Deed (.load block offset bytes) m { m with memory := m.memory.write id offset bytes }
  | selectBank {m tag bank index memory} (named : m.memory.bankId? tag = some bank)
      (ok : m.memory.selectBank bank index = .ok memory) :
      Deed (.selectBank tag index) m { m with memory }
  | switchBank {m tag index memory} (ok : m.memory.switch tag index = .ok memory) :
      Deed (.switchBank tag index) m { m with memory }
  | schedule {m} (owner : DeviceId) (delay period : Time) (param : Nat) :
      Deed (.schedule owner delay period param) m
        ((m.schedule owner delay period param).1.issue (m.schedule owner delay period param).2).1
  | scheduleCycles {m} (owner : DeviceId) (cycles param : Nat) :
      Deed (.scheduleCycles owner cycles param) m
        ((m.scheduleCycles owner cycles param).1.issue (m.scheduleCycles owner cycles param).2).1
  | allocateTimer {m} (owner : DeviceId) (param : Nat) :
      Deed (.allocateTimer owner param) m
        ((m.allocateTimer owner param).1.issue (m.allocateTimer owner param).2).1
  | adjustTimer {m position id} (delay period : Time) (known : m.handles[position]? = some id) :
      Deed (.adjustTimer position delay period) m (m.adjustTimer id delay period).1
  | cancelTimer {m position id} (known : m.handles[position]? = some id) :
      Deed (.cancelTimer position) m (m.cancelTimer id).1
  | removeTimer {m position id} (known : m.handles[position]? = some id) :
      Deed (.removeTimer position) m (m.removeTimer id)
  | driveLine {m m' unit line state vector} (ok : m.driveLine unit line state vector = .ok m') :
      Deed (.driveLine unit line state vector) m m'
  | requestYield {m} : Deed .requestYield m m.requestYield
  | suspend {m m' unit reasons} (ok : m.suspend unit reasons = .ok m') :
      Deed (.suspend unit reasons) m m'
  | resume {m m' unit reasons} (ok : m.resume unit reasons = .ok m') :
      Deed (.resume unit reasons) m m'
  | spin {m m' unit} (ok : m.spinUntilInterrupt unit = .ok m') :
      Deed (.spinUntilInterrupt unit) m m'
  | driveReset {m m' unit asserted} (ok : m.driveReset unit asserted = .ok m') :
      Deed (.driveReset unit asserted) m m'
  | boostInterleave {m} (quantum duration : Time) :
      Deed (.boostInterleave quantum duration) m (m.boostInterleave quantum duration)
  | setRegister {m m' unit id value} (ok : m.setRegister unit id value = .ok m') :
      Deed (.setRegister unit id value) m m'
  | hold {m id d} (idle : m.idle id = .ok d) : Deed (.hold id) m (m.setBusy id true)
  | emit {m} (event : TraceEvent) : Deed (.emit event) m (m.trace event)
  | newCell {m} : Deed .newCell m m.newCell.1
  | setCell {m} (cell value : Nat) :
      Deed (.setCell cell value) m { m with cells := m.cells.setIfInBounds cell value }
  | note {m} (entry : Activity) : Deed (.note entry) m (m.enter entry)

theorem attemptDone {f : Machine → Except AccessError Machine} {m m' : Machine}
    (done : f m = .ok m') : attempt f m = some (.ok, m') := by
  unfold attempt
  rw [Run.getBind, done]
  rfl

theorem attemptRefused {f : Machine → Except AccessError Machine} {m : Machine} {e : AccessError}
    (refused : f m = .error e) : attempt f m = some (.fault (.access e), m) := by
  unfold attempt
  rw [Run.getBind, refused]
  rfl

section
variable {R : Machine → Machine → Prop} {m : Machine} (still : R m m)
include still

theorem keepsStill {α : Type} (a : α) : Run.Keeps R (pure a) m := by
  intro b m' h
  obtain ⟨-, rfl⟩ := Run.pureInv h
  exact still

theorem keepsAttempt {f : Machine → Except AccessError Machine}
    (changed : ∀ m', f m = .ok m' → R m m') : Run.Keeps R (attempt f) m := by
  intro reply m' ran
  unfold attempt at ran
  rw [Run.getBind] at ran
  cases result : f m with
  | ok m₁ =>
    rw [result] at ran
    cases ran
    exact changed m' result
  | error e =>
    rw [result] at ran
    exact keepsStill still _ _ m' ran

theorem keepsReplace {changed : Except BankError Memory}
    (replaced : ∀ memory, changed = .ok memory → R m { m with memory }) :
    Run.Keeps R (replaceMemory changed) m := by
  intro reply m' ran
  unfold replaceMemory at ran
  cases result : changed with
  | ok memory =>
    rw [result] at ran
    cases ran
    exact replaced memory result
  | error e =>
    rw [result] at ran
    exact keepsStill still _ _ m' ran

theorem keepsSpace {route : Route} {f : SpaceId → Run Reply}
    (kept : ∀ id, m.resolve route = .ok id → Run.Keeps R (f id) m) :
    Run.Keeps R (onSpace route f) m := by
  refine Run.keepsGet ?_
  cases routed : m.resolve route with
  | ok id => exact kept id routed
  | error e => exact keepsStill still _

theorem keepsTimer {position : Nat} {f : Machine → Timer.Id → Machine × Reply}
    (changed : ∀ id, m.handles[position]? = some id → R m (f m id).1) :
    Run.Keeps R (onTimer position f) m := by
  refine Run.keepsGet ?_
  cases known : m.handles[position]? with
  | none => exact keepsStill still _
  | some id =>
    intro reply m' ran
    cases ran
    exact changed id known

end

theorem plainDeed {call : Callback} {command : Command} (plain : command.isPlain = true)
    (m : Machine) : Run.Keeps (Deed command) (Command.run call command) m := by
  have still : Deed command m m := .still command
  cases command with
  | read | write | borrow => cases plain
  | map override route first last target =>
    unfold Command.run
    refine keepsSpace still fun id routed => Run.keepsGet ?_
    cases named : m.handler? target with
    | none => exact keepsStill still _
    | some handler =>
      dsimp only
      cases mapped : m.map override id first last handler with
      | error e => exact keepsStill still _
      | ok m₁ =>
        intro reply m' ran
        cases ran
        exact .map routed named mapped
  | freeze route =>
    unfold Command.run
    refine keepsSpace still fun id routed reply m' ran => ?_
    cases ran
    exact .freeze routed
  | poke block offset value =>
    unfold Command.run
    refine Run.keepsGet ?_
    cases named : m.memory.blockId? block with
    | none => exact keepsStill still _
    | some id =>
      intro reply m' ran
      cases ran
      exact .poke offset value named
  | load block offset bytes =>
    unfold Command.run
    refine Run.keepsGet ?_
    cases named : m.memory.blockId? block with
    | none => exact keepsStill still _
    | some id =>
      intro reply m' ran
      cases ran
      exact .load offset bytes named
  | selectBank tag index =>
    unfold Command.run
    refine Run.keepsGet ?_
    cases named : m.memory.bankId? tag with
    | none => simp only [named]; exact keepsStill still _
    | some bank => simp only [named]; exact keepsReplace still fun _ ok => .selectBank named ok
  | switchBank tag index =>
    unfold Command.run
    exact Run.keepsGet (keepsReplace still fun _ ok => .switchBank ok)
  | schedule owner delay period param =>
    intro reply m' ran
    unfold Command.run at ran
    cases ran
    exact .schedule ..
  | scheduleCycles owner cycles param =>
    intro reply m' ran
    unfold Command.run at ran
    cases ran
    exact .scheduleCycles ..
  | allocateTimer owner param =>
    intro reply m' ran
    unfold Command.run at ran
    cases ran
    exact .allocateTimer ..
  | adjustTimer position delay period =>
    unfold Command.run
    exact keepsTimer still fun _ known => .adjustTimer delay period known
  | cancelTimer position =>
    unfold Command.run
    exact keepsTimer still fun _ known => .cancelTimer known
  | removeTimer position =>
    unfold Command.run
    exact keepsTimer still fun _ known => .removeTimer known
  | timerEnabled | timerFireTime =>
    unfold Command.run
    exact keepsTimer still fun _ _ => still
  | driveLine =>
    unfold Command.run
    exact keepsAttempt still fun _ ok => .driveLine ok
  | suspend =>
    unfold Command.run
    exact keepsAttempt still fun _ ok => .suspend ok
  | resume =>
    unfold Command.run
    exact keepsAttempt still fun _ ok => .resume ok
  | spinUntilInterrupt =>
    unfold Command.run
    exact keepsAttempt still fun _ ok => .spin ok
  | driveReset =>
    unfold Command.run
    exact keepsAttempt still fun _ ok => .driveReset ok
  | setRegister =>
    unfold Command.run
    exact keepsAttempt still fun _ ok => .setRegister ok
  | requestYield =>
    intro reply m' ran
    unfold Command.run at ran
    cases ran
    exact .requestYield
  | boostInterleave quantum duration =>
    intro reply m' ran
    unfold Command.run at ran
    cases ran
    exact .boostInterleave ..
  | hold id =>
    unfold Command.run
    refine Run.keepsGet ?_
    cases idle : m.idle id with
    | error e => exact keepsStill still _
    | ok d =>
      intro reply m' ran
      cases ran
      exact .hold idle
  | emit event =>
    intro reply m' ran
    unfold Command.run at ran
    cases ran
    exact .emit event
  | newCell =>
    intro reply m' ran
    unfold Command.run at ran
    cases ran
    exact .newCell
  | setCell cell value =>
    intro reply m' ran
    unfold Command.run at ran
    cases ran
    exact .setCell cell value
  | note entry =>
    intro reply m' ran
    unfold Command.run at ran
    cases ran
    exact .note entry
  | ranges | rangeAt | floating | describeSpace =>
    unfold Command.run
    exact keepsSpace still fun _ _ => keepsStill still _
  | describePort =>
    unfold Command.run
    exact keepsStill still _
  | peek | dump | describeBlock | describeBank | describeTarget | now | executing | settings
  | untilNextTimer | lineState | quantumAt | unitTime | unitCycles | suspension | units
  | getRegister | runState | findDevice | requireDevice | describeDevice | deviceCount | counters
  | getCell =>
    unfold Command.run
    exact keepsStill still _

theorem spinInv {m m' : Machine} {device : DeviceId} (ok : m.spinUntilInterrupt device = .ok m') :
    ∃ index p, m.unit device = .ok (index, p) ∧ ((p.lines.anyActive = true ∧ m' = m) ∨
      p.lines.anyActive = false ∧ m.suspend device { spin := true } = .ok m') := by
  obtain ⟨⟨index, p⟩, unit, ok⟩ := okBindInv ok
  refine ⟨index, p, unit, ?_⟩
  dsimp only at ok
  split at ok
  · rename_i active
    cases ok
    exact .inl ⟨active, rfl⟩
  · rename_i calm
    exact .inr ⟨by simpa using calm, ok⟩

theorem switchInv {memory memory' : Memory} {tag : String} {index : Nat}
    (ok : memory.switch tag index = .ok memory') :
    ∃ bank, memory.bankTags.find? tag = some bank ∧ memory.selectBank bank index = .ok memory' := by
  unfold Memory.switch at ok
  split at ok
  · cases ok
  · rename_i bank named
    exact ⟨bank, named, ok⟩

theorem deedEffect {command : Command} {a b : Machine} (deed : Deed command a b) : Effect a b := by
  cases deed with
  | still => exact .refl a
  | map _ _ ok => exact .act (.map ok)
  | freeze => exact .act (.freeze _)
  | poke | load => exact .act (.store ..)
  | selectBank _ ok => exact .act (.select ok)
  | switchBank ok =>
    obtain ⟨bank, -, ok⟩ := switchInv ok
    exact .act (.select ok)
  | schedule | scheduleCycles => exact (Effect.act (.schedule ..)).trans (.act (.issue _))
  | allocateTimer => exact (Effect.act (.allocateTimer ..)).trans (.act (.issue _))
  | adjustTimer delay period => exact .act (.adjustTimer _ delay period)
  | cancelTimer => exact .act (.cancelTimer _)
  | removeTimer => exact .act (.removeTimer _)
  | driveLine ok => exact .act (.driveLine ok)
  | requestYield => exact .act .requestYield
  | suspend ok => exact .act (.suspend ok)
  | resume ok => exact .act (.resume ok)
  | spin ok =>
    obtain ⟨index, p, -, ⟨-, rfl⟩ | ⟨-, ok⟩⟩ := spinInv ok
    · exact .refl _
    · exact .act (.suspend ok)
  | driveReset ok => exact .act (.driveReset ok)
  | boostInterleave quantum duration => exact .act (.boostInterleave quantum duration)
  | setRegister ok => exact .act (.setRegister ok)
  | hold idle => exact .act (.hold idle)
  | emit event => exact .traced a event
  | newCell => exact .act .newCell
  | setCell cell value => exact .act (.setCell cell value)
  | note entry => exact .act (.enter entry)

end Machine

end Lockstep
