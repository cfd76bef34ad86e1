import Lockstep.Proofs.Apart
import Lockstep.Proofs.History
import Lockstep.Proofs.Naming

/-! Processors with blocks of their own, and devices that carry out a plan. A machine of such
parts is plain, and whether its processors have blocks of their own can be computed. -/
namespace Lockstep
open Memory (BlockId)

namespace Bus
variable {κ : Type}

def Handler.block? (memory : Memory) : Handler κ → Option BlockId
  | .ram block _ | .rom block _ => some block
  | .bank id => (memory.bank? id).map (·.target.1)
  | .port _ | .unmapped => none

theorem cellBlock {memory : Memory} {offset : Nat} {h : Handler κ} {c : Cell} {writes : Bool}
    (hit : h.cell? memory offset = some (c, writes)) : h.block? memory = some c.block := by
  cases h with
  | ram | rom =>
    cases hit
    rfl
  | bank id =>
    obtain ⟨bank, found, same⟩ := Option.map_eq_some_iff.mp hit
    cases same
    simp [Handler.block?, found]
  | port | unmapped => cases hit

end Bus

namespace Machine
variable {m m' : Machine} {plan : Plan}

def blocksOf? (m : Machine) (id : SpaceId) (shape : Bus.Shape) : Option (List BlockId) :=
  (m.space? id).bind fun s =>
    if s.shape = shape ∧ ∀ e ∈ s.entries, e.handler.kind ≠ .callback then
      some (s.entries.filterMap (·.handler.block? m.memory))
    else none

def blocks? (m : Machine) (id : DeviceId) : Option (List BlockId) := do
  let w ← m.wiring? id
  return (← m.blocksOf? w.program Acc8.programShape) ++ (← m.blocksOf? w.io Acc8.ioShape)

theorem blocksLead {id : SpaceId} {shape : Bus.Shape} {blocks : List BlockId}
    (h : m.blocksOf? id shape = some blocks) : m.Leads id shape ∧
      ∀ {address : Nat} {c : Cell} {writes : Bool},
        m.cellAt? id address = some (c, writes) → c.block ∈ blocks := by
  obtain ⟨s, found, h⟩ := Option.bind_eq_some_iff.mp h
  split at h
  · rename_i fits
    cases h
    refine ⟨⟨s, found, fits⟩, fun {address c writes} hit => ?_⟩
    unfold cellAt? at hit
    rw [found] at hit
    refine regionOf (s := s) (P := fun h => ∀ offset c writes,
      h.cell? m.memory offset = some (c, writes) → c.block ∈ _) (fun _ _ _ h => by cases h)
      (fun e mem offset c writes hit => ?_) _ _ c writes hit
    exact List.mem_filterMap.mpr ⟨e, mem, Bus.cellBlock hit⟩
  · cases h

theorem blocksInv {id : DeviceId} {blocks : List BlockId} (h : m.blocks? id = some blocks) :
    ∃ w, m.wiring? id = some w ∧ m.Wired w ∧ ∀ {a : Reach} {c : Cell} {writes : Bool},
      m.cell? w a = some (c, writes) → c.block ∈ blocks := by
  obtain ⟨w, wiring, h⟩ := Option.bind_eq_some_iff.mp h
  obtain ⟨program, found, h⟩ := Option.bind_eq_some_iff.mp h
  obtain ⟨io, found', h⟩ := Option.bind_eq_some_iff.mp h
  cases h
  obtain ⟨leads, inside⟩ := blocksLead found
  obtain ⟨leads', inside'⟩ := blocksLead found'
  refine ⟨w, wiring, ⟨leads, leads'⟩, fun {a c writes} hit => ?_⟩
  cases a with
  | program a => exact List.mem_append_left _ (inside hit)
  | io a => exact List.mem_append_right _ (inside' hit)

def Separate (m : Machine) : Prop :=
  (∀ p ∈ m.units.toList, p.lines.source.isNone ∧ (m.cpu? p.device).isSome ∧
    (m.blocks? p.device).isSome) ∧
  (m.units.toList.Pairwise fun p q => p.device ≠ q.device ∧
    ∀ b ∈ (m.blocks? p.device).getD [], b ∉ (m.blocks? q.device).getD []) ∧
  ∀ node ∈ m.tree.nodes.toList, node.device.busy = false

instance (m : Machine) : Decidable m.Separate := by unfold Separate; infer_instance

theorem separatePair (separate : m.Separate) {i j : Nat} {p q : Processor}
    (found : m.units[i]? = some p) (found' : m.units[j]? = some q) (different : i ≠ j) :
    p.device ≠ q.device ∧ ∀ b ∈ (m.blocks? p.device).getD [], b ∉ (m.blocks? q.device).getD [] := by
  obtain ⟨bound, rfl⟩ := Array.getElem?_eq_some_iff.mp found
  obtain ⟨bound', rfl⟩ := Array.getElem?_eq_some_iff.mp found'
  have each := List.pairwise_iff_getElem.mp separate.2.1
  rcases Nat.lt_or_gt_of_ne different with first | first
  · exact each i j bound bound' first
  · obtain ⟨devices, blocks⟩ := each j i bound' bound first
    exact ⟨devices.symm, fun b mem mem' => blocks b mem' mem⟩

theorem peripheralRole {id : DeviceId} {p : Peripheral} {seat : Seat} (found : m.seat? id = some seat)
    (kind : seat.device = .peripheral p) : m.roleOf? id = some (.peripheral, some p) := by
  obtain ⟨node, row, rfl⟩ := Option.map_eq_some_iff.mp found
  rw [roleOf?, row, Option.map_some, kind]
  rfl

theorem rolePeripheral {id : DeviceId} {p : Peripheral}
    (role : m.roleOf? id = some (.peripheral, some p)) :
    ∃ seat, m.seat? id = some seat ∧ seat.device = .peripheral p := by
  obtain ⟨node, row, same⟩ := Option.map_eq_some_iff.mp role
  refine ⟨node.device, by rw [seat?, row]; rfl, ?_⟩
  cases device : node.device.device with
  | peripheral q =>
    rw [device] at same
    cases same
    rfl
  | acc8 | sequencer =>
    rw [device] at same
    cases same

theorem classPeripheral {id : DeviceId} (kind : m.classOf? id = some .peripheral) :
    ∃ p, m.roleOf? id = some (.peripheral, some p) := by
  obtain ⟨node, row, same⟩ := Option.map_eq_some_iff.mp kind
  rw [roleOf?, row, Option.map_some]
  cases device : node.device.device with
  | peripheral p => exact ⟨p, rfl⟩
  | acc8 | sequencer =>
    rw [device] at same
    cases same

theorem plainSeparate (separate : m.Separate)
    (planned : ∀ {id : DeviceId} {p : Peripheral}, m.roleOf? id = some (.peripheral, some p) →
      ∀ (fired : Timer.Fired) (position : Option Nat), fired.owner = id →
        Performs (plan.command id fired.param) (p.timer fired position))
    (only : ∀ {id : DeviceId} {param : Nat}, plan id param ≠ none →
      ∃ p, m.roleOf? id = some (.peripheral, some p)) : Plain plan m := by
  have each : ∀ {i : Nat} {p : Processor}, m.units[i]? = some p → p.lines.source.isNone = true ∧
      (m.cpu? p.device).isSome = true ∧ (m.blocks? p.device).isSome = true :=
    fun found => separate.1 _ (Array.mem_toList_iff.mpr (Array.mem_of_getElem? found))
  refine ⟨fun {i p} found => ?_, fun {i j p q} found found' same => ?_, fun {id seat} found => ?_,
    fun found kind => planned (peripheralRole found kind), fun {id param} use => ?_,
    fun {i j p q v w} found found' different wiring wiring' a b c writes hit hit' => ?_⟩
  · obtain ⟨quiet, seated, reached⟩ := each found
    obtain ⟨blocks, reached⟩ := Option.isSome_iff_exists.mp reached
    obtain ⟨w, wiring, wired, -⟩ := blocksInv reached
    exact ⟨Option.isNone_iff_eq_none.mp quiet, Option.isSome_iff_exists.mp seated, w, wiring, wired⟩
  · refine Decidable.byContradiction fun different => ?_
    exact (separatePair separate found found' different).1 same
  · obtain ⟨node, row, rfl⟩ := Option.map_eq_some_iff.mp found
    exact separate.2.2 node (Array.mem_toList_iff.mpr (Array.mem_of_getElem? row))
  · obtain ⟨p, role⟩ := only use
    obtain ⟨seat, found, kind⟩ := rolePeripheral role
    exact ⟨seat, p, found, kind⟩
  · obtain ⟨-, -, reached⟩ := each found
    obtain ⟨-, -, reached'⟩ := each found'
    obtain ⟨blocks, reached⟩ := Option.isSome_iff_exists.mp reached
    obtain ⟨blocks', reached'⟩ := Option.isSome_iff_exists.mp reached'
    obtain ⟨v', same, -, inside⟩ := blocksInv reached
    obtain ⟨w', same', -, inside'⟩ := blocksInv reached'
    cases wiring.symm.trans same
    cases wiring'.symm.trans same'
    have apart := (separatePair separate found found' different).2
    rw [reached, reached'] at apart
    exact apart c.block (inside hit) (inside' hit')

end Machine

def controller (name : String) (plan : Plan) (start : DeviceId → Script) : Peripheral where
  name
  start
  timer fired _ := (plan.command fired.owner fired.param).elim .ok .perform

theorem controllerPerforms (name : String) (plan : Plan) (start : DeviceId → Script)
    (fired : Timer.Fired) (position : Option Nat) :
    Performs (plan.command fired.owner fired.param)
      ((controller name plan start).timer fired position) := by
  unfold controller
  dsimp only
  cases plan.command fired.owner fired.param with
  | none => exact .done .ok
  | some command => exact .act fun reply => .done reply

namespace Assembly
variable {a b : Assembly} {device : Device}

theorem seatTree (m : Machine) (device : Device) :
    (seat m device).1.tree = m.tree ∧ (seat m device).2.device = device := by
  unfold seat
  generalize Bus.SpaceKind.all.filterMap device.spaceOf? = specs
  have placed : ({ device } : Seat).device = device := rfl
  generalize ({ device } : Seat) = own at placed ⊢
  induction specs generalizing m own with
  | nil => exact ⟨rfl, placed⟩
  | cons spec rest ih => exact ih (m.newSpace spec).1 _ placed

theorem treeAdd {δ : Type} {t t' : Tree δ} {tag typeName : String} {clock : ClockRate}
    {parent : Option DeviceId} {new : δ} {id other : DeviceId} {node : Node δ}
    (added : t.add tag typeName clock parent new = .ok (t', id)) (found : t'.get? other = some node) :
    node.device = new ∨ ∃ old, t.get? other = some old ∧ node.device = old.device := by
  obtain ⟨-, rfl⟩ | ⟨old, row, rfl⟩ :=
    (Tree.addInv (a := ⟨tag, typeName, clock, parent, new⟩) added).gotten found
  · exact .inl rfl
  · exact .inr ⟨old, row, rfl⟩

theorem extendRole {tag : String} {clock : ClockRate} {id : DeviceId} {p : Peripheral}
    (role : (a.extend tag clock device).machine.roleOf? id = some (.peripheral, some p)) :
    device = .peripheral p ∨ a.machine.roleOf? id = some (.peripheral, some p) := by
  obtain ⟨tree, own⟩ := seatTree a.machine device
  unfold extend at role
  split at role
  · rename_i b _ added
    obtain ⟨tree', placed, rfl⟩ := Machine.addInstanceInv added
    obtain ⟨node, found, same⟩ := Option.map_eq_some_iff.mp role
    rcases treeAdd placed found with new | ⟨old, row, new⟩
    · rw [new, own] at same
      cases device with
      | peripheral q =>
        cases same
        exact .inl rfl
      | acc8 | sequencer => cases same
    · rw [tree] at row
      rw [new] at same
      refine .inr ?_
      rw [Machine.roleOf?, row, Option.map_some, same]
  · exact .inr role

def place (a : Assembly) (tag : String) (block : Memory.Block) : Assembly :=
  let placed := { a with machine := { a.machine with memory := a.machine.memory.putBlock block } }
  match placed.map false tag .program 0 (block.length - 1)
      (.ram ⟨a.machine.memory.blocks.size⟩ 0) with
  | .ok b => b
  | .error _ => a

theorem mapInv {override : Bool} {tag : String} {kind : Bus.SpaceKind} {first last : Nat}
    {handler : Bus.Handler Port} (h : a.map override tag kind first last handler = .ok b) :
    ∃ id m, a.machine.map override id first last handler = .ok m ∧ b = { a with machine := m } := by
  obtain ⟨id, -, h⟩ := okBindInv h
  obtain ⟨m, mapped, h⟩ := okBindInv h
  cases h
  exact ⟨id, m, mapped, rfl⟩

theorem placeRole (a : Assembly) (tag : String) (block : Memory.Block) (id : DeviceId) :
    (a.place tag block).machine.roleOf? id = a.machine.roleOf? id := by
  unfold place
  dsimp only
  split
  · rename_i placed
    obtain ⟨space, m, mapped, rfl⟩ := mapInv placed
    exact (Machine.actKept (.map mapped)).roles id
  · rfl

end Assembly

theorem Assembled.place {a : Assembly} (h : Assembled a) (tag : String) (block : Memory.Block) :
    Assembled (a.place tag block) := by
  unfold Assembly.place
  dsimp only
  split
  · rename_i placed
    obtain ⟨space, m, mapped, rfl⟩ := Assembly.mapInv placed
    exact (h.memory _).effect (.act (.map mapped))
  · exact h

def Assembly.wire (a : Assembly) (tag : String) (first last : Nat) (port : Port) : Assembly :=
  match a.map false tag .program first last (.port port) with
  | .ok b => b
  | .error _ => a

theorem Assembled.wire {a : Assembly} (h : Assembled a) (tag : String) (first last : Nat)
    (port : Port) : Assembled (a.wire tag first last port) := by
  unfold Assembly.wire
  split
  · rename_i wired
    obtain ⟨space, m, mapped, rfl⟩ := Assembly.mapInv wired
    exact h.effect (.act (.map mapped))
  · exact h

end Lockstep
