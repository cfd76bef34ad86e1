import Lockstep.Proofs.Workbench

/-! What holds at the bench. Whatever verbs are tried, the indexes say what the assembly says, and
a verb that fails leaves all of it as it was; the journal alone may have grown, by what a
constructor wrote. -/
namespace Lockstep

namespace Directory

theorem tagAbsent {α : Type} {d : Directory α} {tag : String} (free : ¬ d.contains tag = true) :
    tag ∉ d.names := by
  intro mem
  obtain ⟨row, mem, same⟩ := List.mem_map.mp mem
  rw [contains, Option.not_isSome_iff_eq_none, find?, List.lookup_eq_none_iff] at free
  exact bne_iff_ne.mp (free row mem) same.symm

theorem insertedTag {α : Type} {tag other : String} {value : α} {rows : List (String × α)}
    (mem : other ∈ (insertSorted tag value rows).map (·.1)) :
    other = tag ∨ other ∈ rows.map (·.1) := by
  induction rows with
  | nil => exact .inl (by simpa [insertSorted] using mem)
  | cons row rest ih =>
    obtain ⟨key, old⟩ := row
    unfold insertSorted at mem
    split at mem
    · simpa using mem
    · split at mem
      · simp only [List.map_cons, List.mem_cons] at mem ⊢
        exact mem.imp id .inr
      · simp only [List.map_cons, List.mem_cons] at mem ⊢
        rcases mem with rfl | mem
        · exact .inr (.inl rfl)
        · exact (ih mem).imp id .inr

theorem insertedOnce {α : Type} {tag : String} {value : α} {rows : List (String × α)}
    (once : (rows.map (·.1)).Nodup) (new : tag ∉ rows.map (·.1)) :
    ((insertSorted tag value rows).map (·.1)).Nodup := by
  induction rows with
  | nil => simp [insertSorted]
  | cons row rest ih =>
    obtain ⟨key, old⟩ := row
    obtain ⟨absent, later⟩ := List.nodup_cons.mp once
    obtain ⟨other, new'⟩ := not_or.mp (mt List.mem_cons.mpr new)
    unfold insertSorted
    split
    · exact List.nodup_cons.mpr ⟨new, once⟩
    · refine List.nodup_cons.mpr ⟨fun mem => ?_, ih later new'⟩
      rcases insertedTag mem with same | old
      · exact other same.symm
      · exact absent old

end Directory

namespace Memory

structure Tagged (m : Memory) : Prop where
  blocksOnce : m.blockTags.names.Nodup
  banksOnce : m.bankTags.names.Nodup
  blocks : ∀ tag id, m.blockTags.find? tag = some id →
    ∃ block, m.block? id = some block ∧ block.tag = tag
  banks : ∀ tag id, m.bankTags.find? tag = some id →
    ∃ bank, m.bank? id = some bank ∧ bank.tag = tag

theorem pushStays {α : Type} {xs : Array α} {i : Nat} {x y : α} (row : xs[i]? = some y) :
    (xs.push x)[i]? = some y := by
  rw [Array.getElem?_push, if_neg (Nat.ne_of_lt (Array.getElem?_eq_some_iff.mp row).1)]
  exact row

theorem taggedBlock {m : Memory} (tags : m.Tagged) {block : Block}
    (free : ¬ m.blockTags.contains block.tag = true) : (m.putBlock block).Tagged where
  blocksOnce := Directory.insertedOnce tags.blocksOnce (Directory.tagAbsent free)
  banksOnce := tags.banksOnce
  blocks tag id found := by
    rw [putBlock, Directory.find?_insert] at found
    split at found
    · rename_i same
      cases found
      exact ⟨block, Array.getElem?_push_size, same.symm⟩
    · obtain ⟨old, row, same⟩ := tags.blocks tag id found
      exact ⟨old, pushStays row, same⟩
  banks := tags.banks

theorem taggedBank {m m' : Memory} (tags : m.Tagged) {bank : Bank}
    (added : m.addBank bank = .ok m') : m'.Tagged := by
  unfold addBank at added
  split at added
  · cases added
  · rename_i free
    cases added
    have new := Directory.tagAbsent free
    refine ⟨tags.blocksOnce, Directory.insertedOnce tags.banksOnce new, tags.blocks,
      fun tag id found => ?_⟩
    rw [Directory.find?_insert] at found
    split at found
    · rename_i same
      cases found
      exact ⟨bank, Array.getElem?_push_size, same.symm⟩
    · obtain ⟨old, row, same⟩ := tags.banks tag id found
      exact ⟨old, pushStays row, same⟩

end Memory

namespace Bench

def hasUnit (b : Bench) (id : DeviceId) : Bool :=
  (b.machine.tree.get? id).elim false (·.device.device.isUnit)

def specOf (space : Bus.Space Port) : SpaceSpec := ⟨space.name, space.shape⟩

structure Aligned (b : Bench) : Prop where
  consistent : b.machine.tree.Consistent
  units : b.machine.units.toList.map (·.device) = b.machine.tree.ids.filter b.hasUnit
  room : b.unitAt.size = b.machine.tree.size
  placed : ∀ (id : DeviceId) (index : Nat), (b.unitAt[id.index]?).join = some index ↔
    ∃ p, b.machine.units[index]? = some p ∧ p.device = id
  clocked : ∀ (index : Nat) p, b.machine.units[index]? = some p → p.clock.isZero = false ∧
    ∃ node, b.machine.tree.get? p.device = some node ∧ node.clock = p.clock
  listed : ∀ id kind, b.spaceAt id kind =
    (b.machine.tree.get? id).bind fun node => node.device.spaces.lookup kind
  owned : ∀ id kind,
    ((b.spaceAt id kind).bind fun space => (b.machine.space? space).map specOf) =
      (b.machine.tree.get? id).bind fun node => node.device.device.spaceOf? kind
  within : ∀ id kind space, b.spaceAt id kind = some space →
    space.index < b.machine.spaces.size
  once : ∀ id kind other kind' space, b.spaceAt id kind = some space →
    b.spaceAt other kind' = some space → id = other ∧ kind = kind'
  tags : b.machine.memory.Tagged

variable {b : Bench}

theorem resizePush {count : Nat} (full : b.unitAt.size = count) :
    (b.resize (count + 1)).unitAt = b.unitAt.push none := by
  subst full
  simp [resize, Array.extract_eq_self_of_le]

theorem grownPlaces {a : Tree.Addition Device} {tree : Tree Seat} {id : DeviceId}
    (full : b.unitAt.size = id.index) : (b.grown a tree id).unitAt =
      b.unitAt.push (if a.device.isUnit then some b.machine.units.size else none) := by
  simp only [grown, resizePush full]
  split
  · apply Array.ext_getElem?
    intro i
    simp only [Array.getElem?_setIfInBounds, Array.size_push, Array.getElem?_push, full]
    split
    · rename_i same
      simp [← same]
    · rename_i other
      rw [if_neg (Ne.symm other), if_neg (Ne.symm other)]
  · rfl

theorem rowInv {first : Nat} {specs : List SpaceSpec} {kind : Bus.SpaceKind} {space : SpaceId}
    (found : (rowsFrom first specs).lookup kind = some space) : ∃ i spec,
      space = ⟨first + i⟩ ∧ specs[i]? = some spec ∧ spec.shape.kind = kind := by
  rw [rowLookup] at found
  obtain ⟨i, place, rfl⟩ := Option.map_eq_some_iff.mp found
  obtain ⟨inside, same, -⟩ := List.findIdx?_eq_some_iff_getElem.mp place
  exact ⟨i, _, rfl, List.getElem?_eq_getElem inside, by simpa using same⟩

section
variable {a : Tree.Addition Device} {tree : Tree Seat} {id other : DeviceId}

theorem oldIds (added : b.machine.tree.Added (seated a b.machine) tree id) :
    tree.ids = b.machine.tree.ids ++ [id] := by
  simp [Tree.ids, added.size, added.place, List.range_succ]

theorem newUnit (added : b.machine.tree.Added (seated a b.machine) tree id) :
    (b.grown a tree id).hasUnit id = a.device.isUnit := by
  rw [hasUnit, show (b.grown a tree id).machine.tree = tree from rfl, added.new, Option.elim_some]
  simp only [Tree.Addition.node, seatedDevice]

theorem oldUnit (added : b.machine.tree.Added (seated a b.machine) tree id) {n : Node Seat}
    (found : b.machine.tree.get? other = some n) :
    (b.grown a tree id).hasUnit other = b.hasUnit other := by
  rw [hasUnit, hasUnit, show (b.grown a tree id).machine.tree = tree from rfl, added.kept found,
    found, Option.elim_some, Option.elim_some]

theorem grownUnits (fine : b.Aligned)
    (added : b.machine.tree.Added (seated a b.machine) tree id) :
    (b.grown a tree id).machine.units.toList.map (·.device) =
      tree.ids.filter (b.grown a tree id).hasUnit := by
  have old : b.machine.tree.ids.filter (b.grown a tree id).hasUnit =
      b.machine.tree.ids.filter b.hasUnit := by
    refine List.filter_congr fun other mem => ?_
    obtain ⟨n, found⟩ := Option.isSome_iff_exists.mp (Tree.knownWithin.mpr (Tree.memIds.mp mem))
    exact oldUnit added found
  rw [oldIds added, List.filter_append, old, ← fine.units, List.filter_cons, newUnit added]
  by_cases unit : a.device.isUnit = true
  · simp [grown, machine, unit, Assembly.processor]
  · simp [grown, machine, unit]

theorem grownProcessor {index : Nat} {p : Processor} :
    (b.grown a tree id).machine.units[index]? = some p ↔
      (a.device.isUnit = true ∧ index = b.machine.units.size ∧
        p = Assembly.processor id a.clock a.device) ∨ b.machine.units[index]? = some p := by
  rw [show (b.grown a tree id).machine.units = if a.device.isUnit then
    b.machine.units.push (Assembly.processor id a.clock a.device) else b.machine.units from rfl]
  split
  · rename_i unit
    rw [Array.getElem?_push]
    split
    · rename_i last
      simp [unit, last, eq_comm]
    · rename_i other
      simp [other]
  · rename_i other
    simp [other]

theorem processorOld (fine : b.Aligned)
    (added : b.machine.tree.Added (seated a b.machine) tree id) {index : Nat} {p : Processor}
    (row : b.machine.units[index]? = some p) : p.device ≠ id := by
  obtain ⟨-, node, found, -⟩ := fine.clocked index p row
  exact added.oldNew found

theorem grownPlaced (fine : b.Aligned)
    (added : b.machine.tree.Added (seated a b.machine) tree id) (index : Nat) :
    ((b.grown a tree id).unitAt[other.index]?).join = some index ↔
      ∃ p, (b.grown a tree id).machine.units[index]? = some p ∧ p.device = other := by
  have full : b.unitAt.size = id.index := by rw [fine.room, added.place]
  rw [grownPlaces full, Array.getElem?_push, full]
  simp only [grownProcessor]
  by_cases here : other = id
  · subst here
    rw [if_pos rfl, Option.join_some, Option.ite_none_right_eq_some, Option.some.injEq]
    constructor
    · rintro ⟨unit, rfl⟩
      exact ⟨_, .inl ⟨unit, rfl, rfl⟩, rfl⟩
    · rintro ⟨p, ⟨unit, last, -⟩ | old, same⟩
      · exact ⟨unit, last.symm⟩
      · exact absurd same (processorOld fine added old)
  · have away : other.index ≠ id.index := fun same => here (congrArg DeviceId.mk same)
    rw [if_neg away, fine.placed]
    refine exists_congr fun p => and_congr_left fun same => ?_
    rw [or_iff_right]
    rintro ⟨-, -, rfl⟩
    exact here same.symm

theorem grownClocked (fine : b.Aligned)
    (added : b.machine.tree.Added (seated a b.machine) tree id)
    (clocked : a.device.isUnit = true → a.clock.isZero = false) {index : Nat} {p : Processor}
    (row : (b.grown a tree id).machine.units[index]? = some p) : p.clock.isZero = false ∧
      ∃ node, tree.get? p.device = some node ∧ node.clock = p.clock := by
  rcases grownProcessor.mp row with ⟨unit, -, rfl⟩ | old
  · exact ⟨clocked unit, _, added.new, rfl⟩
  · obtain ⟨ticks, node, found, same⟩ := fine.clocked index p old
    exact ⟨ticks, _, added.kept found, same⟩

theorem newSpace (fine : b.Aligned) (added : b.machine.tree.Added (seated a b.machine) tree id)
    (kind : Bus.SpaceKind) : (b.grown a tree id).spaceAt id kind =
      (rowsFrom b.machine.spaces.size (specsOf a.device)).lookup kind := by
  have none : b.spaceAt id kind = none := by rw [fine.listed, added.unknown, Option.bind_none]
  simp only [grown, if_pos, none, Option.or_none, seatIs]

theorem oldSpace (away : other ≠ id) (kind : Bus.SpaceKind) :
    (b.grown a tree id).spaceAt other kind = b.spaceAt other kind :=
  if_neg away

theorem grownSpaces : (b.grown a tree id).machine.spaces =
    b.machine.spaces ++ ((specsOf a.device).map blank).toArray := by
  simp only [grown, machine, seatIs]

theorem grownListed (fine : b.Aligned)
    (added : b.machine.tree.Added (seated a b.machine) tree id) (kind : Bus.SpaceKind) :
    (b.grown a tree id).spaceAt other kind =
      (tree.get? other).bind fun node => node.device.spaces.lookup kind := by
  by_cases here : other = id
  · subst here
    simp only [newSpace fine added, added.new, Option.bind_some, Tree.Addition.node, seatedDevice]
  · rw [oldSpace here, fine.listed, added.get, if_neg here]
    cases b.machine.tree.get? other <;> rfl

theorem grownOwned (fine : b.Aligned)
    (added : b.machine.tree.Added (seated a b.machine) tree id) (kind : Bus.SpaceKind) :
    (((b.grown a tree id).spaceAt other kind).bind fun space =>
        ((b.grown a tree id).machine.space? space).map specOf) =
      (tree.get? other).bind fun node => node.device.device.spaceOf? kind := by
  simp only [Machine.space?, grownSpaces]
  by_cases here : other = id
  · subst here
    simp only [newSpace fine added, added.new, Option.bind_some, Tree.Addition.node, seatedDevice,
      rowLookup, ← specFind, List.find?_eq_bind_findIdx?_getElem?, Option.bind_map,
      Function.comp_def]
    refine Option.bind_congr fun i _ => ?_
    rw [Array.getElem?_append_right (Nat.le_add_right ..), Nat.add_sub_cancel_left,
      List.getElem?_toArray, List.getElem?_map, Option.map_map]
    exact congrFun Option.map_id _
  · have old : (tree.get? other).bind (fun node => node.device.device.spaceOf? kind) =
        (b.machine.tree.get? other).bind fun node => node.device.device.spaceOf? kind := by
      rw [added.get, if_neg here]
      cases b.machine.tree.get? other <;> rfl
    rw [oldSpace here, old, ← fine.owned]
    refine Option.bind_congr fun space found => ?_
    rw [Array.getElem?_append_left (fine.within _ _ _ found)]
    rfl

theorem grownSpace (fine : b.Aligned)
    (added : b.machine.tree.Added (seated a b.machine) tree id) {kind : Bus.SpaceKind}
    {space : SpaceId} (found : (b.grown a tree id).spaceAt other kind = some space) :
    (other = id ∧ ∃ i spec, space = ⟨b.machine.spaces.size + i⟩ ∧
      (specsOf a.device)[i]? = some spec ∧ spec.shape.kind = kind) ∨
    b.spaceAt other kind = some space ∧ space.index < b.machine.spaces.size := by
  by_cases here : other = id
  · subst here
    rw [newSpace fine added] at found
    exact .inl ⟨rfl, rowInv found⟩
  · rw [oldSpace here] at found
    exact .inr ⟨found, fine.within _ _ _ found⟩

theorem grownWithin (fine : b.Aligned)
    (added : b.machine.tree.Added (seated a b.machine) tree id) {kind : Bus.SpaceKind}
    {space : SpaceId} (found : (b.grown a tree id).spaceAt other kind = some space) :
    space.index < (b.grown a tree id).machine.spaces.size := by
  have size : (b.grown a tree id).machine.spaces.size =
      b.machine.spaces.size + (specsOf a.device).length := by simp [grownSpaces]
  rw [size]
  rcases grownSpace fine added found with ⟨-, i, spec, rfl, row, -⟩ | ⟨-, small⟩
  · exact Nat.add_lt_add_left (List.getElem?_eq_some_iff.mp row).1 _
  · exact Nat.lt_add_right _ small

theorem grownOnce (fine : b.Aligned)
    (added : b.machine.tree.Added (seated a b.machine) tree id) {other' : DeviceId}
    {kind kind' : Bus.SpaceKind} {space : SpaceId}
    (found : (b.grown a tree id).spaceAt other kind = some space)
    (found' : (b.grown a tree id).spaceAt other' kind' = some space) :
    other = other' ∧ kind = kind' := by
  -- New spaces are numbered from the old ones' count on, so an old and a new one never agree.
  rcases grownSpace fine added found with ⟨here, i, spec, rfl, row, rfl⟩ | ⟨old, small⟩ <;>
    rcases grownSpace fine added found' with ⟨here', j, spec', same, row', rfl⟩ | ⟨old', small'⟩
  · obtain rfl : i = j := by simpa using same
    rw [row] at row'
    cases row'
    exact ⟨here.trans here'.symm, rfl⟩
  · exact absurd small' (Nat.not_lt.mpr (Nat.le_add_right ..))
  · subst same
    exact absurd small (Nat.not_lt.mpr (Nat.le_add_right ..))
  · exact fine.once _ _ _ _ _ old old'

theorem grownAligned (fine : b.Aligned)
    (added : b.machine.tree.Added (seated a b.machine) tree id)
    (clocked : a.device.isUnit = true → a.clock.isZero = false) :
    (b.grown a tree id).Aligned where
  consistent := added.consistent fine.consistent
  units := grownUnits fine added
  room := by
    change _ = tree.size
    rw [grownPlaces (by rw [fine.room, added.place]), Array.size_push, fine.room, added.size]
  placed _ index := grownPlaced fine added index
  clocked _ _ row := grownClocked fine added clocked row
  listed _ kind := grownListed fine added kind
  owned _ kind := grownOwned fine added kind
  within _ _ _ found := grownWithin fine added found
  once _ _ _ _ _ found found' := grownOnce fine added found found'
  tags := fine.tags

end

theorem alignedOver {spaces : Array (Bus.Space Port)} {memory : Memory} {journal : Array Activity}
    (fine : b.Aligned) (count : spaces.size = b.machine.spaces.size)
    (specs : ∀ i : Nat, spaces[i]?.map specOf = b.machine.spaces[i]?.map specOf)
    (tags : memory.Tagged) :
    (b.onMachine fun m => { m with spaces, memory, journal }).Aligned where
  consistent := fine.consistent
  units := fine.units
  room := fine.room
  placed := fine.placed
  clocked := fine.clocked
  listed := fine.listed
  owned id kind :=
    (Option.bind_congr fun space _ => specs space.index).trans (fine.owned id kind)
  within id kind space found := count ▸ fine.within id kind space found
  once := fine.once
  tags := tags

def Agree (b : Bench) (ran : EStateM.Result ConfigError Bench (Option DeviceId))
    (applied : Assembly × Except ConfigError (Option DeviceId)) : Prop :=
  (∃ e journal, ran = .error e (b.noted journal) ∧
    applied = ((b.noted journal).assembly, .error e)) ∨
  ∃ made c, ran = .ok made c ∧ applied = (c.assembly, .ok made) ∧ c.Aligned

theorem journalEntered (m : Machine) (entries : List Activity) :
    ∃ journal, m.enterAll entries = { m with journal } := by
  induction entries generalizing m with
  | nil => exact ⟨m.journal, rfl⟩
  | cons entry rest ih => exact ih (m.enter entry)

theorem memoryAgrees (fine : b.Aligned) {steps : Step Unit} {grows : Except ConfigError Memory}
    (ran : steps b = match grows with
      | .ok memory => .ok () (b.onMachine fun m => { m with memory })
      | .error e => .error e b)
    (tags : ∀ memory, grows = .ok memory → memory.Tagged) :
    b.Agree ((do steps; return none) b) (tried b.assembly ((grows.map fun memory =>
      { b.assembly with machine := { b.machine with memory } }).map (·, none))) := by
  cases grows with
  | error e => exact .inl ⟨e, b.machine.journal, Step.bindError ran, rfl⟩
  | ok memory =>
    exact .inr ⟨none, _, Step.bindOk ran, rfl, alignedOver fine rfl (fun _ => rfl) (tags _ rfl)⟩

theorem blockAgrees (fine : b.Aligned) (block : Memory.Block) :
    b.Agree ((do addBlock block; return none) b)
      (tried b.assembly ((b.assembly.addBlock block).map (·, none))) := by
  have same : b.assembly.addBlock block = (b.machine.memory.addBlock block).map fun memory =>
      { b.assembly with machine := { b.machine with memory } } := by
    unfold Assembly.addBlock
    cases added : b.machine.memory.addBlock block <;>
      rw [show b.assembly.machine.memory.addBlock block = _ from added] <;> rfl
  rw [same]
  refine memoryAgrees fine (addBlockIs block) fun memory added => ?_
  unfold Memory.addBlock at added
  split at added
  · cases added
  · rename_i free
    cases added
    exact Memory.taggedBlock fine.tags free

theorem bankAgrees (fine : b.Aligned) (tag : String) (entries : List (Memory.BlockId × Nat))
    (readOnly : Bool) : b.Agree ((do addBank tag entries readOnly; return none) b)
      (tried b.assembly ((b.assembly.addBank tag entries readOnly).map (·, none))) := by
  have same : b.assembly.addBank tag entries readOnly =
      (b.machine.memory.newBank tag entries readOnly >>= b.machine.memory.addBank).map fun memory =>
        { b.assembly with machine := { b.machine with memory } } := by
    unfold Assembly.addBank
    rw [show b.assembly.machine = b.machine from rfl]
    cases b.machine.memory.newBank tag entries readOnly with
    | error e => rfl
    | ok bank =>
      simp only [bind, Except.bind]
      cases b.machine.memory.addBank bank <;> rfl
  rw [same]
  refine memoryAgrees fine (addBankIs tag entries readOnly) fun memory added => ?_
  cases made : b.machine.memory.newBank tag entries readOnly with
  | error e =>
    rw [made] at added
    cases added
  | ok bank =>
    rw [made] at added
    exact Memory.taggedBank fine.tags added

theorem overrideSpec {space mapped : Bus.Space Port} {memory : Memory} {first last : Nat}
    {handler : Bus.Handler Port} (done : space.override memory first last handler = .ok mapped) :
    specOf mapped = specOf space := by
  unfold Bus.Space.override at done
  obtain ⟨_, -, done⟩ := okBindInv done
  cases done
  rfl

theorem installSpec {space mapped : Bus.Space Port} {memory : Memory} {first last : Nat}
    {handler : Bus.Handler Port} (done : space.install memory first last handler = .ok mapped) :
    specOf mapped = specOf space := by
  unfold Bus.Space.install at done
  obtain ⟨_, -, done⟩ := okBindInv done
  dsimp only at done
  split at done <;> cases done
  rfl

theorem spaceAligned (fine : b.Aligned) {id : SpaceId} {space mapped : Bus.Space Port}
    (found : b.machine.space? id = some space) (same : specOf mapped = specOf space) :
    (b.onMachine (·.modifySpace id fun _ => mapped)).Aligned := by
  refine alignedOver fine Array.size_modify (fun i => ?_) fine.tags
  rw [Array.getElem?_modify]
  split
  · rename_i here
    subst here
    change ((b.machine.space? id).map fun _ => mapped).map specOf =
      (b.machine.space? id).map specOf
    rw [found]
    exact congrArg some same
  · rfl

theorem mapAligned (fine : b.Aligned) {override : Bool} {id : SpaceId} {first last : Nat}
    {handler : Bus.Handler Port} {m : Machine}
    (mapped : b.machine.map override id first last handler = .ok m) :
    (b.onMachine fun _ => m).Aligned := by
  unfold Machine.map at mapped
  split at mapped
  · cases mapped
    exact fine
  · rename_i space found
    split at mapped
    · obtain ⟨space', done, mapped⟩ := okBindInv mapped
      cases mapped
      exact spaceAligned fine found (overrideSpec done)
    · obtain ⟨space', done, mapped⟩ := okBindInv mapped
      cases mapped
      exact spaceAligned fine found (installSpec done)

theorem findSpace (fine : b.Aligned) (tag : String) (kind : Bus.SpaceKind) :
    b.assembly.space tag kind = match b.machine.tree.find? tag with
      | none => .error (.missingDevice "machine" tag)
      | some id => match (b.spaceAt id kind).or (kind.fallback?.bind (b.spaceAt id)) with
        | none => .error (.missingAddressSpace (b.machine.tree.tag id) kind)
        | some space => .ok space := by
  unfold Assembly.space
  rw [show b.assembly.machine = b.machine from rfl]
  cases b.machine.tree.find? tag with
  | none => rfl
  | some id =>
    have own : b.spaceAt id = fun kind => (b.machine.tree.get? id).bind fun node =>
        node.device.spaces.lookup kind := funext (fine.listed id)
    simp only [Machine.ownedSpace, own]
    split <;> rename_i row <;> rw [row]

theorem mapAgrees (fine : b.Aligned) (override : Bool) (tag : String) (kind : Bus.SpaceKind)
    (first last : Nat) (handler : Bus.Handler Port) :
    b.Agree ((do Bench.map override tag kind first last handler; return none) b)
      (tried b.assembly ((b.assembly.map override tag kind first last handler).map (·, none))) := by
  unfold Assembly.map
  rw [findSpace fine]
  cases named : b.machine.tree.find? tag with
  | none =>
    refine .inl ⟨.missingDevice "machine" tag, b.machine.journal, Step.bindError ?_, rfl⟩
    unfold Bench.map
    rw [Step.getBind, named]
    rfl
  | some id =>
    dsimp only
    cases own : (b.spaceAt id kind).or (kind.fallback?.bind (b.spaceAt id)) with
    | none =>
      refine .inl ⟨.missingAddressSpace (b.machine.tree.tag id) kind, b.machine.journal,
        Step.bindError ?_, rfl⟩
      unfold Bench.map
      simp only [Step.getBind, named, own]
      rfl
    | some space =>
      have placed : Bench.map override tag kind first last handler b =
          place override space first last handler b := by
        unfold Bench.map
        simp only [Step.getBind, named, own]
      rw [placeIs] at placed
      simp only [bind, Except.bind]
      cases mapped : b.machine.map override space first last handler with
      | error e =>
        rw [mapped] at placed
        refine .inl ⟨e, b.machine.journal, Step.bindError placed, ?_⟩
        rw [show b.assembly.machine.map override space first last handler = _ from mapped]
        rfl
      | ok m =>
        rw [mapped] at placed
        refine .inr ⟨none, _, Step.bindOk placed, ?_, mapAligned fine mapped⟩
        rw [show b.assembly.machine.map override space first last handler = _ from mapped]
        rfl

theorem insertAgrees (fine : b.Aligned) (a : Tree.Addition Device) :
    b.Agree ((some <$> insert a : Step (Option DeviceId)) b)
      (tried b.assembly ((b.assembly.addInstance a.tag a.typeName a.clock a.parent a.device).map
        fun (c, id) => (c, some id))) := by
  obtain ⟨e, failed, refused⟩ | ⟨tree, id, done, made, added, clocked⟩ := insertCases (b := b) a
  · rw [refused]
    exact .inl ⟨e, b.machine.journal, Step.bindError failed, rfl⟩
  · rw [made]
    exact .inr ⟨some id, _, Step.bindOk done, rfl, grownAligned fine added clocked⟩

theorem notedAligned (fine : b.Aligned) (journal : Array Activity) : (b.noted journal).Aligned :=
  alignedOver fine rfl (fun _ => rfl) fine.tags

theorem makeAgrees (fine : b.Aligned) (tag typeName : String) (clock : ClockRate)
    (parent : Option DeviceId) :
    b.Agree ((some <$> make tag typeName clock parent : Step (Option DeviceId)) b)
      ((b.assembly.addDevice tag typeName clock parent).map (fun a => a) (·.map some)) := by
  cases named : b.machine.tree.fullTag tag parent with
  | error e =>
    have failed : make tag typeName clock parent b = .error e b := by
      rw [make, Step.getBind, named]
      rfl
    have refused : b.assembly.addDevice tag typeName clock parent = (b.assembly, .error e) := by
      unfold Assembly.addDevice
      rw [show b.assembly.machine = b.machine from rfl, named]
    rw [refused]
    exact .inl ⟨e, b.machine.journal, Step.bindError failed, rfl⟩
  | ok full =>
    cases create : b.assembly.registry.create typeName ⟨full, clock, parent⟩ with
    | mk entries created =>
    obtain ⟨journal, written⟩ := journalEntered b.machine entries
    have same : { b.assembly with machine := b.machine.enterAll entries } =
        (b.noted journal).assembly := by
      rw [written]
      rfl
    have entered : b.onMachine (·.enterAll entries) = b.noted journal :=
      congrArg (fun assembly : Assembly => { b with assembly }) same
    have steps : make tag typeName clock parent b = (do
        insert ⟨tag, typeName, clock, parent, ← ofExcept created⟩ : Step DeviceId)
          (b.noted journal) := by
      rw [make, Step.getBind, named, Step.okBind, Step.getBind, create, ← entered]
      rfl
    have applied : (b.assembly.addDevice tag typeName clock parent).map (fun a => a) (·.map some) =
        tried (b.noted journal).assembly ((created.bind
          ((b.noted journal).assembly.addInstance tag typeName clock parent)).map
            (Prod.map (fun a => a) some)) := by
      unfold Assembly.addDevice
      rw [show b.assembly.machine = b.machine from rfl, named]
      simp only [create, same]
      cases created.bind ((b.noted journal).assembly.addInstance tag typeName clock parent) <;> rfl
    rw [applied]
    cases created with
    | error e => exact .inl ⟨e, journal, Step.bindError steps, rfl⟩
    | ok device =>
      rw [Step.okBind] at steps
      have aligned := notedAligned fine journal
      simp only [Except.bind]
      obtain ⟨e, failed, refused⟩ | ⟨tree, id, done, added, grows, clocked⟩ :=
        insertCases (b := b.noted journal) ⟨tag, typeName, clock, parent, device⟩
      · rw [refused]
        exact .inl ⟨e, journal, Step.bindError (steps.trans failed), rfl⟩
      · rw [added]
        exact .inr ⟨some id, _, Step.bindOk (steps.trans done), rfl,
          grownAligned aligned grows clocked⟩

theorem verbAgrees (fine : b.Aligned) (verb : Verb) :
    b.Agree (verb.steps b) (verb.apply b.assembly) := by
  cases verb with
  | make tag typeName clock parent => exact makeAgrees fine tag typeName clock parent
  | add a => exact insertAgrees fine a
  | ram tag length => exact blockAgrees fine _
  | rom tag image => exact blockAgrees fine _
  | bank tag entries readOnly => exact bankAgrees fine tag entries readOnly
  | windows tag block stride count readOnly => exact bankAgrees fine tag _ readOnly
  | map override tag kind first last handler =>
    exact mapAgrees fine override tag kind first last handler

theorem newAligned (config : Config) (registry : Registry) (stock : Memory) :
    (new config registry stock).Aligned := by
  have nowhere (id : DeviceId) : (new config registry stock).machine.tree.get? id = none :=
    Tree.emptyGet id
  refine ⟨Tree.emptyConsistent, rfl, rfl, ?_, ?_, ?_, ?_, ?_, ?_, ?_⟩
  · simp [new, machine]
  · simp [new, machine]
  · intro id kind
    rw [nowhere]
    rfl
  · intro id kind
    rw [nowhere]
    rfl
  · intro _ _ _ found
    cases found
  · intro _ _ _ _ _ found
    cases found
  · exact ⟨List.nodup_nil, List.nodup_nil, fun _ _ found => (by cases found),
      fun _ _ found => (by cases found)⟩

theorem afterAligned (fine : b.Aligned) (verb : Verb) : (b.after verb).Aligned := by
  obtain ⟨e, journal, failed, -⟩ | ⟨made, c, done, -, aligned⟩ := verbAgrees fine verb
  · rw [after, failed]
    exact notedAligned fine journal
  · rw [after, done]
    exact aligned

theorem unitFound (fine : b.Aligned) (id : DeviceId) :
    (b.unitAt[id.index]?).join = b.machine.unitIndex? id := by
  unfold Machine.unitIndex?
  cases place : b.machine.units.findIdx? (·.device == id) with
  | none =>
    refine Option.eq_none_iff_forall_not_mem.mpr fun index found => ?_
    obtain ⟨p, row, same⟩ := (fine.placed id index).mp found
    have away := Array.findIdx?_eq_none_iff.mp place p (Array.mem_of_getElem? row)
    simp [same] at away
  | some index =>
    obtain ⟨inside, same, -⟩ := Array.findIdx?_eq_some_iff_getElem.mp place
    exact (fine.placed id index).mpr ⟨_, Array.getElem?_eq_getElem inside, beq_iff_eq.mp same⟩

theorem verbsAligned (config : Config) (registry : Registry) (stock : Memory)
    (verbs : List Verb) :
    let b := verbs.foldl after (new config registry stock)
    b.Aligned ∧ (∀ id, (b.unitAt[id.index]?).join = b.machine.unitIndex? id) ∧
      ∀ verb : Verb, b.Agree (verb.steps b) (verb.apply b.assembly) := by
  intro b
  have fine : b.Aligned := by
    have all (verbs : List Verb) : ∀ b : Bench, b.Aligned → (verbs.foldl after b).Aligned := by
      induction verbs with
      | nil => exact fun _ fine => fine
      | cons verb rest ih => exact fun b fine => ih _ (afterAligned fine verb)
    exact all verbs _ (newAligned config registry stock)
  exact ⟨fine, unitFound fine, verbAgrees fine⟩

def kit : List Verb :=
  [.add ⟨"board", "panel", ⟨0⟩, none, .peripheral { name := "board" }⟩,
    .make "cpu" Acc8.typeName (.ofMhz 8) (some ⟨0⟩),
    .make "cpu" Acc8.typeName (.ofMhz 4) (some ⟨0⟩),
    .add ⟨"fan", "panel", ⟨0⟩, some ⟨0⟩, .peripheral { name := "fan" }⟩,
    .make "spare" Acc8.typeName ⟨0⟩ none, .make "disk" "drive" (.ofMhz 1) none,
    .add ⟨"clock", "sequencer", .ofMhz 1, none, .sequencer
      { name := "clock", rounds := [], lines := 0, registers := [], runnable := true }⟩,
    .ram "work" 16, .rom "work" #[1, 2, 3], .bank "pages" [] false,
    .windows "pages" ⟨0⟩ 8 2 false, .bank "pages" [(⟨0⟩, 0)] true,
    .map false "board:cpu" .program 0 15 (.ram ⟨0⟩ 0),
    .map false "board:cpu" .program 8 9 .unmapped,
    .map true "board:cpu" .opcodes 8 9 .unmapped]

theorem kitAligned :
    let b := kit.foldl after (new {} .builtin {})
    b.machine.tree.nodes.toList.map (·.tag) = ["board", "board:cpu", "board:fan", "clock"] ∧
    b.machine.units.toList.map (·.device) = [⟨1⟩, ⟨3⟩] ∧
    b.unitAt = #[none, some 0, none, some 1] ∧ b.machine.memory.blockTags.names = ["work"] ∧
    b.machine.memory.bankTags.names = ["pages"] ∧ b.Aligned :=
  ⟨by decide +kernel, by decide +kernel, by decide +kernel, by decide +kernel, by decide +kernel,
    (verbsAligned {} .builtin {} kit).1⟩

end Bench

end Lockstep
