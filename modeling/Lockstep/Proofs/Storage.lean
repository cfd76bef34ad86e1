import Lockstep.Proofs.Cells
import Lockstep.Proofs.Rules

/-! What a machine that runs does to memory and to the maps of its spaces. Only bytes of blocks,
the selected entries of banks and ranges change, and a range changes only where a command maps
one. -/
namespace Lockstep.Machine
open Bus (Space)

def Sealed (m : Machine) : Prop := ∀ id s, m.space? id = some s → s.frozen = true

structure Unmoved (m m' : Machine) : Prop where
  memory : m'.memory = m.memory
  layout : ∀ id, (m'.space? id).map (·.layout) = (m.space? id).map (·.layout)
  names : ∀ id, (m'.space? id).map (·.name) = (m.space? id).map (·.name)
  seals : m.Sealed → m'.Sealed

inductive Rework (rule : Rule) : Machine → Machine → Prop where
  | unmoved {m m'} (same : Unmoved m m') : Rework rule m m'
  | store {m} (block : Memory.BlockId) (offset : Nat) (bytes : List UInt8) :
      Rework rule m { m with memory := m.memory.write block offset bytes }
  | select {m bank index memory} (ok : m.memory.selectBank bank index = .ok memory) :
      Rework rule m { m with memory }
  | map {m m' override route id first last target handler}
      (allowed : rule m (.map override route first last target) = true)
      (routed : m.resolve route = .ok id) (named : m.handler? target = some handler)
      (ok : m.map override id first last handler = .ok m') : Rework rule m m'

variable {m m' a b c : Machine} {device : DeviceId} {index : Nat}

@[simp] theorem traceStored (m : Machine) (event : TraceEvent) :
    (m.trace event).memory = m.memory ∧ (m.trace event).spaces = m.spaces := by
  obtain ⟨diag, journal, same⟩ := notedTrace m event
  rw [same]
  exact ⟨rfl, rfl⟩

theorem settleStored (m : Machine) (unit cycles consumed : Nat) (trap : Option Trap) (start : Time) :
    (m.settle unit cycles consumed trap start).memory = m.memory ∧
      (m.settle unit cycles consumed trap start).spaces = m.spaces := by
  unfold settle
  dsimp only
  repeat' split
  all_goals simp [count, modifyUnit]

namespace Unmoved

theorem same (memory : m'.memory = m.memory) (spaces : m'.spaces = m.spaces) : Unmoved m m' := by
  have same : ∀ id, m'.space? id = m.space? id := fun id => by rw [space?, space?, spaces]
  exact ⟨memory, fun id => by rw [same], fun id => by rw [same],
    fun whole id s found => whole id s ((same id).symm.trans found)⟩

theorem refl (m : Machine) : Unmoved m m := .same rfl rfl

theorem trans (first : Unmoved a b) (rest : Unmoved b c) : Unmoved a c :=
  ⟨rest.memory.trans first.memory, fun id => (rest.layout id).trans (first.layout id),
    fun id => (rest.names id).trans (first.names id), rest.seals ∘ first.seals⟩

theorem trace (m : Machine) (event : TraceEvent) : Unmoved m (m.trace event) :=
  .same (traceStored m event).1 (traceStored m event).2

theorem modifySpace (m : Machine) (id : SpaceId) {f : Space Port → Space Port}
    (same : ∀ s, (f s).layout = s.layout ∧ (f s).name = s.name)
    (frozen : ∀ s, s.frozen = true → (f s).frozen = true) : Unmoved m (m.modifySpace id f) := by
  refine ⟨rfl, (spacePorted ⟨id, id⟩ m id fun s => (same s).1).layout, fun other => ?_,
    fun whole other s found => ?_⟩
  · simp only [space?, Machine.modifySpace, Array.getElem?_modify]
    split
    · rw [Option.map_map]
      exact congrArg (Option.map · _) (funext fun s => (same s).2)
    · rfl
  · simp only [space?, Machine.modifySpace, Array.getElem?_modify] at found
    split at found
    · obtain ⟨t, before, rfl⟩ := Option.map_eq_some_iff.mp found
      exact frozen t (whole other t before)
    · exact whole other s found

theorem restarts : Restarts Unmoved where
  refl := .refl
  trans := .trans
  unit _ _ _ := .same rfl rfl
  control _ := .trace ..
  enter _ := .same rfl rfl
  place _ _ := .same rfl rfl

theorem cutBefore (m : Machine) (timers : Timer.Queue) (time : Time) :
    Unmoved m ({ m with timers }.cutBefore time) :=
  (.same rfl rfl : Unmoved m { m with timers }).trans (restarts.cut ..)

theorem adjustTimer (m : Machine) (id : Timer.Id) (delay period : Time) :
    Unmoved m (m.adjustTimer id delay period).1 := by
  unfold Machine.adjustTimer
  dsimp only
  split
  · exact .cutBefore ..
  · exact .refl m

theorem settle (m : Machine) (unit cycles consumed : Nat) (trap : Option Trap) (start : Time) :
    Unmoved m (m.settle unit cycles consumed trap start) :=
  .same (settleStored m unit cycles consumed trap start).1
    (settleStored m unit cycles consumed trap start).2

theorem pulse (h : Pulse m m') : Unmoved m m' := by
  cases h <;> exact .same rfl rfl

theorem tick (h : Tick m m') : Unmoved m m' := by
  cases h with
  | pulse h => exact .pulse h
  | settle => exact .settle ..
  | restart => exact restarts.restart ..
  | freeze =>
    refine ⟨rfl, fun id => ?_, fun id => ?_, fun _ id s found => ?_⟩
    · simp [space?, Function.comp_def, Space.layout, Space.freeze]
    · simp [space?, Function.comp_def, Space.freeze]
    · simp only [space?, Array.getElem?_map] at found
      obtain ⟨t, -, rfl⟩ := Option.map_eq_some_iff.mp found
      rfl
  | _ => exact .same rfl rfl

end Unmoved

theorem deedRework {rule : Rule} {command : Command} (allowed : rule a command = true)
    (deed : Deed command a b) : Rework rule a b := by
  cases deed with
  | still => exact .unmoved (.refl a)
  | map routed named ok => exact .map allowed routed named ok
  | freeze => exact .unmoved (.modifySpace a _ (fun _ => ⟨rfl, rfl⟩) fun _ _ => rfl)
  | poke | load => exact .store ..
  | selectBank _ ok => exact .select ok
  | switchBank ok =>
    obtain ⟨bank, -, ok⟩ := switchInv ok
    exact .select ok
  | schedule | scheduleCycles =>
    exact .unmoved (.trans (.cutBefore ..) (.same rfl rfl))
  | adjustTimer => exact .unmoved (.adjustTimer ..)
  | driveLine ok => exact .unmoved (Unmoved.restarts.driveLine ok)
  | requestYield => exact .unmoved (Unmoved.restarts.yield a)
  | suspend ok => exact .unmoved (Unmoved.restarts.suspend ok)
  | resume ok => exact .unmoved (Unmoved.restarts.resume ok)
  | spin ok => exact .unmoved (Unmoved.restarts.spin ok)
  | driveReset ok => exact .unmoved (Unmoved.restarts.driveReset ok)
  | boostInterleave quantum duration =>
    have boosted : Unmoved a { a with boost := some ⟨quantum, a.now + duration⟩ } := .same rfl rfl
    exact .unmoved (boosted.trans (Unmoved.restarts.yield _))
  | setRegister ok =>
    obtain ⟨d, d', -, -, rfl⟩ := setRegisterInv ok
    exact .unmoved (.same rfl rfl)
  | emit event => exact .unmoved (.trace a event)
  | _ => exact .unmoved (.same rfl rfl)

theorem stepRework {rule : Rule} (step : Step rule a b) : Rework rule a b := by
  cases step with
  | deed allowed deed => exact deedRework allowed deed
  | touch h =>
    cases h with
    | drive | countRead | countWrite =>
      exact .unmoved (.modifySpace a _ (fun _ => ⟨rfl, rfl⟩) fun _ frozen => frozen)
    | unmapped kind address write => exact .unmoved ((.same rfl rfl : Unmoved a (a.count _)).trans (.trace ..))
    | store block offset bytes => exact .store block offset bytes
  | tick h => exact .unmoved (.tick h)
  | lend | giveBack | pop | wait => exact .unmoved (.same rfl rfl)

end Lockstep.Machine
