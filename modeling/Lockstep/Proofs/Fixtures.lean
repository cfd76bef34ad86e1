import Lockstep.Proofs.Cabling
import Lockstep.Proofs.Storage

/-! What of a machine is settled once it has started: the devices and their spaces, the clocks of
its processors, all maps and the sizes of its memory. Whatever runs and whatever callbacks do, none
of it changes, and a device is what it was. -/
namespace Lockstep

def Memory.Bank.rewound (b : Memory.Bank) : Memory.Bank :=
  { b with selected := 0, selected_lt := Nat.zero_lt_of_lt b.selected_lt }

def Memory.blank (m : Memory) : Memory :=
  { m with
    blocks := m.blocks.map fun b => .zeroed b.tag b.length
    banks := m.banks.map (·.rewound) }

def Bus.Space.unused {κ : Type} (s : Bus.Space κ) : Bus.Space κ :=
  { s with lastDriven := 0, unmappedReads := 0, unmappedWrites := 0 }

theorem Bus.Space.unusedSame {κ : Type} {s t : Bus.Space κ} (layout : t.layout = s.layout)
    (name : t.name = s.name) (frozen : t.frozen = s.frozen) : t.unused = s.unused := by
  obtain ⟨shape, entries⟩ := Prod.mk.inj layout
  simp only [unused, shape, entries, name, frozen]

structure Fixtures where
  config : Config
  tree : Tree (List (Bus.SpaceKind × SpaceId))
  units : Array (DeviceId × ClockRate × Option (Nat → Script))
  spaces : Array (Bus.Space Port)
  memory : Memory

def Machine.fixtures (m : Machine) : Fixtures :=
  { config := m.config
    tree := m.tree.map Seat.spaces
    units := m.units.map (·.fixed)
    spaces := m.spaces.map (·.unused)
    memory := m.memory.blank }

namespace Memory

theorem blankWrite (m : Memory) (id : BlockId) (offset : Nat) (bytes : List UInt8) :
    (m.write id offset bytes).blank = m.blank := by
  have same : ∀ b : Block, Block.zeroed (b.setAll offset bytes).tag (b.setAll offset bytes).length =
      .zeroed b.tag b.length := by
    intro b
    have tag : (b.setAll offset bytes).tag = b.tag := by
      induction bytes generalizing b offset with
      | nil => rfl
      | cons value rest ih => exact ih _ _
    rw [tag, Block.length_setAll]
  exact congrArg (fun blocks => { m.blank with blocks })
    (mapModify (g := fun b => .zeroed b.tag b.length) (f := (·.setAll offset bytes)) same m.blocks
      id.index)

theorem blankSelect {m m' : Memory} {id : BankId} {index : Nat}
    (ok : m.selectBank id index = .ok m') : m'.blank = m.blank := by
  unfold selectBank at ok
  cases found : m.bank? id with
  | none =>
    rw [found] at ok
    cases ok
    rfl
  | some bank =>
    rw [found] at ok
    obtain ⟨bank', selected, ok⟩ := okBindInv ok
    cases ok
    have rewound : bank'.rewound = bank.rewound := by
      unfold Bank.select at selected
      split at selected <;> cases selected
      rfl
    have same : (m.banks.setIfInBounds id.index bank').map (·.rewound) =
        m.banks.map (·.rewound) := by
      refine Array.ext_getElem? fun i => ?_
      simp only [Array.getElem?_map, Array.getElem?_setIfInBounds]
      split
      · rename_i here
        subst here
        have row : m.banks[id.index]? = some bank := found
        rw [row, if_pos (Array.getElem?_eq_some_iff.mp row).1]
        exact congrArg some rewound
      · rfl
    exact congrArg (fun banks => { m.blank with banks }) same

end Memory

namespace Machine

section
variable {a b m m' : Machine} {rule : Rule} {id : DeviceId} {call : Callback}

theorem mapSealed (whole : m.Sealed) {override : Bool} {id : SpaceId} {first last : Nat}
    {handler : Bus.Handler Port} (ok : m.map override id first last handler = .ok m') : m' = m := by
  obtain rfl | ⟨s, t, found, mapped, -⟩ := mapAdopts ok
  · rfl
  have refused : s.validate m.memory first last handler = .error (.spaceSealed s.name) := by
    unfold Bus.Space.validate
    rw [whole id s found]
    rfl
  split at mapped
  · unfold Bus.Space.override at mapped
    rw [refused] at mapped
    cases mapped
  · unfold Bus.Space.install at mapped
    rw [refused] at mapped
    cases mapped

theorem unmovedSpaces (whole : a.Sealed) (same : Unmoved a b) :
    b.spaces.map (·.unused) = a.spaces.map (·.unused) := by
  refine Array.ext_getElem? fun i => ?_
  have layout := same.layout ⟨i⟩
  have names := same.names ⟨i⟩
  have left := whole ⟨i⟩
  have right := same.seals whole ⟨i⟩
  simp only [space?] at layout names left right
  rw [Array.getElem?_map, Array.getElem?_map]
  cases before : a.spaces[i]? with
  | none =>
    rw [before, Option.map_none, Option.map_eq_none_iff] at layout
    rw [layout]
  | some s =>
    rw [before, Option.map_some] at layout names
    obtain ⟨t, after, like⟩ := Option.map_eq_some_iff.mp layout
    rw [after] at names
    rw [after]
    exact congrArg some (Bus.Space.unusedSame like (Option.some.inj names)
      ((right t after).trans (left s before).symm))

theorem reworkSettled (whole : a.Sealed) (rework : Rework rule a b) : b.Sealed ∧
    b.spaces.map (·.unused) = a.spaces.map (·.unused) ∧ b.memory.blank = a.memory.blank := by
  cases rework with
  | unmoved same =>
    exact ⟨same.seals whole, unmovedSpaces whole same, congrArg Memory.blank same.memory⟩
  | store block offset bytes => exact ⟨whole, rfl, Memory.blankWrite ..⟩
  | select ok => exact ⟨whole, rfl, Memory.blankSelect ok⟩
  | map _ _ _ ok =>
    rw [mapSealed whole ok]
    exact ⟨whole, rfl, rfl⟩

theorem liftFixed (now : Time) (reasons : Suspension) (p : Processor) :
    (p.lift now reasons).fixed = p.fixed := by
  unfold Processor.lift
  dsimp only
  split
  · exact caughtUpFixed ..
  · rfl

theorem driveLineFixed {line : Nat} {state : LineState} {vector : Option Nat}
    (ok : a.driveLine id line state vector = .ok b) :
    b.units.map (·.fixed) = a.units.map (·.fixed) := by
  obtain ⟨index, p, lines, unit, driven, units⟩ := driveLineUnits ok
  have source : lines.source = p.lines.source := by
    unfold InputLines.set? at driven
    split at driven <;> cases driven
    rfl
  let driven (q : Processor) : Processor :=
    { q with lines := { lines with source := q.lines.source } }
  let moved (q : Processor) : Processor :=
    if state.isActive && p.suspension.spin then (driven q).lift a.now { spin := true } else driven q
  have fixed : ∀ q, (moved q).fixed = q.fixed := by
    intro q
    dsimp only [moved]
    split
    · exact liftFixed ..
    · rfl
  rw [units, modifyFound (unitInv unit).2 (g := moved) (by simp only [moved, driven, ← source])]
  exact mapModify fixed a.units index

theorem stepUnits (step : Step rule a b) : b.units.map (·.fixed) = a.units.map (·.fixed) := by
  have changed := stepChanged step
  refine mapEach changed.size fun {i p} found => ?_
  obtain ⟨p', found', change⟩ := changed.each found
  refine ⟨p', found', ?_⟩
  have whole := fun all : b.units.map (·.fixed) = a.units.map (·.fixed) => congrArg (·[i]?) all
  simp only [Array.getElem?_map, found, found', Option.map_some, Option.some.injEq] at whole
  cases change with
  | move moved =>
    cases moved with
    | same | yields | suspend | spin => rfl
    | wake ok => exact whole (driveLineFixed ok)
    | drive driven =>
      unfold InputLines.set? at driven
      split at driven <;> cases driven
      rfl
    | resume | release => exact liftFixed ..
  | publish | ready | settle | disable => rfl
  | accept row =>
    obtain ⟨e, -, same⟩ := Option.map_eq_some_iff.mp row
    cases same
    rfl
  | restart => exact caughtUpFixed ..

theorem stepConfig (step : Step rule a b) : b.config = a.config := by
  cases step with
  | deed _ deed => exact (effectKept (deedEffect deed)).config
  | touch h => exact touchConfig h
  | tick h => exact tickConfig h
  | lend | giveBack | pop | wait => rfl

theorem stepWires (step : Step rule a b) : Wires a b := by
  cases step with
  | deed _ deed => exact effectWires (deedEffect deed)
  | touch h => exact wiresCarries.touch h
  | tick h => exact wiresCarries.tick h
  | lend | giveBack => exact wiresBusy ..
  | pop | wait => exact rfl

theorem stepFixtures (whole : a.Sealed) (step : Step rule a b) :
    b.Sealed ∧ b.fixtures = a.fixtures := by
  obtain ⟨whole', spaces, memory⟩ := reworkSettled whole (stepRework step)
  refine ⟨whole', ?_⟩
  simp only [fixtures, stepConfig step, show _ = _ from stepWires step, stepUnits step, spaces, memory]

theorem stepsFixtures (whole : a.Sealed) (steps : Steps rule a b) :
    b.Sealed ∧ b.fixtures = a.fixtures := by
  induction steps with
  | refl => exact ⟨whole, rfl⟩
  | tail _ last ih =>
    obtain ⟨whole', same⟩ := stepFixtures ih.1 last
    exact ⟨whole', same.trans ih.2⟩

theorem buildSealed {depth : Nat} {a : Assembly}
    (built : a.build (invoke depth) = some (none, m)) : m.Sealed := by
  rw [← invokeFree] at built
  have calls := invokeSteps free depth
  unfold Assembly.build start at built
  rw [Run.getBind] at built
  obtain ⟨failed, m₁, -, built⟩ := Run.bindInv built
  cases failed with
  | some e => cases built
  | none =>
    dsimp only at built
    rw [Run.modifyBind] at built
    obtain ⟨u, m₂, reset, built⟩ := Run.bindInv built
    cases built
    have closed : Sealed { m₁ with spaces := m₁.spaces.map (·.freeze) } := by
      intro id s found
      simp only [space?, Array.getElem?_map] at found
      obtain ⟨t, -, rfl⟩ := Option.map_eq_some_iff.mp found
      rfl
    exact (stepsFixtures closed ((stepsCarries free).reset calls _ u m reset).2).1

def SameRoles (a b : Machine) : Prop := ∀ id, b.roleOf? id = a.roleOf? id

theorem rolesTree (tree : b.tree = a.tree) : SameRoles a b := fun id => by
  rw [roleOf?, roleOf?, tree]

theorem rolesTrans {c : Machine} (first : SameRoles a b) (rest : SameRoles b c) : SameRoles a c :=
  fun id => (rest id).trans (first id)

theorem rolesBusy (m : Machine) (id : DeviceId) (busy : Bool) : SameRoles m (m.setBusy id busy) :=
  treeModify m Device.role fun _ _ => rfl

theorem rolesPlays : Plays fun _ => Run.Follows SameRoles := by
  refine playsFollows (fun m => rolesTree rfl) rolesTrans (fun touch => ?_) fun pulse => ?_
  · cases touch with
    | unmapped kind address write => exact rolesTree (traceSame ..).2.1
    | drive | countRead | countWrite | store => exact rolesTree rfl
  · cases pulse <;> exact rolesTree rfl

theorem deviceRole {unit cycles count : Nat} {d d' : Device}
    (ran : runDevice call unit cycles id d m = some (some (d', count), m')) : d'.role = d.role := by
  obtain ⟨cpu, cpu', program, io, rfl, rfl, -⟩ | ⟨s, s', rfl, rfl⟩ := deviceInv ran <;> rfl

section
variable (calls : ∀ s m, Acts (call s) m)
include calls

theorem grantRoles (unit cycles : Nat) : Run.Keeps SameRoles (grant call unit cycles id) m := by
  intro outcome m' ran
  rcases grantInv ran with ⟨-, rfl⟩ | ⟨device, out, m₁, idle, runs, placed⟩
  · exact rolesTree rfl
  have inner := (rolesPlays.runDevice (fun s m => Run.followsSame fun r m' h =>
    (effectKept (calls s m r m' h)).roles) unit cycles id device _ out m₁ runs).2
  have back := rolesTrans (rolesTrans (rolesBusy m id true) inner) (rolesBusy m₁ id false)
  rcases placed with ⟨-, -, rfl⟩ | ⟨device', count, -, rfl, rfl⟩
  · exact back
  · refine rolesTrans back (treeModify _ Device.role fun node found => ?_)
    obtain ⟨old, row, rfl, -⟩ := idleInv idle
    have same := back id
    rw [roleOf?, roleOf?, found, row] at same
    exact (deviceRole runs).trans (Option.some.inj same).symm

theorem sliceRoles (unit : Nat) (target : Time) :
    Run.Keeps SameRoles (runSlice call unit target) m :=
  sliceKeeps rolesTrans rolesTree fun cycles _ _ => grantRoles calls unit cycles

theorem untilRoles (target : Time) (fuel : Nat) :
    Run.Keeps SameRoles (runUntil call target fuel) m := by
  have moved : ∀ (m : Machine) timers, SameRoles m { m with timers } := fun _ _ => rolesTree rfl
  have passed : ∀ {m m' on}, Pass call target m on m' → SameRoles m m' := by
    intro m m' on pass
    cases pass with
    | fires _ ran =>
      exact rolesTrans (moved m _) (effectKept (dispatchActs calls _ _ _ _ ran)).roles
    | rests => exact moved m _
    | slices _ ran => exact rolesTrans (moved m _) (sliceRoles calls _ _ _ _ ran)
  exact fun _ _ ran => untilPasses passed (fun first rest => rolesTrans (passed first) rest) ran

theorem courseRoles {notices : List Notice} (course : Course call m notices (some m')) :
    SameRoles m m' := by
  refine course.keeps (rolesTree rfl) (fun s reply kept ran => ?_) (fun name kept => ?_)
    (fun kept ran => ?_) fun target fuel kept ran => ?_
  · exact rolesTrans kept (effectKept (calls s _ reply _ ran)).roles
  · exact rolesTrans kept (rolesTree rfl)
  · exact rolesTrans kept (resetKept calls ran).roles
  · exact rolesTrans kept (untilRoles calls target fuel () _ ran)

end

end

end Machine

end Lockstep
