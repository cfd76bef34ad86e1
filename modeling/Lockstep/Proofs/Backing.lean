import Lockstep.Proofs.AddressMap
import Lockstep.Proofs.History
import Lockstep.Proofs.Storage

/-! Every range over memory has its bytes. A mapping is refused if the memory it leads to is too
short, blocks never shrink and banks keep their entries, so in every state that is reached a
range has a byte for each of its addresses, whichever entry a bank selects. -/
namespace Lockstep

namespace Bus
variable {κ : Type}

def Handler.Backs (memory : Memory) (count : Nat) : Handler κ → Prop
  | .ram block offset | .rom block offset => offset + count ≤ memory.blockLength block
  | .bank id => ∃ bank, memory.bank? id = some bank ∧
      ∀ row ∈ bank.entries, row.2 + count ≤ memory.blockLength row.1
  | .port _ | .unmapped => True

def Entry.Backed (memory : Memory) (e : Entry κ) : Prop :=
  e.handler.Backs memory (e.last - e.origin + 1)

end Bus

namespace Memory

structure Sound (m : Memory) : Prop where
  short : ∀ id, m.blockLength id < Word.largest
  blocks : ∀ tag id, m.blockId? tag = some id → id.index < m.blocks.size
  banks : ∀ tag id, m.bankId? tag = some id → id.index < m.banks.size

structure Retains (a b : Memory) : Prop where
  blocks : ∀ id, a.blockLength id ≤ b.blockLength id
  banks : ∀ id bank, a.bank? id = some bank →
    ∃ bank', b.bank? id = some bank' ∧ bank'.entries = bank.entries

section
variable {m m' a b : Memory}

theorem Retains.refl (m : Memory) : Retains m m :=
  ⟨fun _ => Nat.le_refl _, fun _ bank found => ⟨bank, found, rfl⟩⟩

@[simp] theorem lengthWrite (m : Memory) (block : BlockId) (offset : Nat) (bytes : List UInt8)
    (id : BlockId) : (m.write block offset bytes).blockLength id = m.blockLength id := by
  simp only [blockLength, block?, write, Array.getElem?_modify]
  split
  · cases m.blocks[id.index]? <;> simp
  · rfl

theorem retainsWrite (m : Memory) (block : BlockId) (offset : Nat) (bytes : List UInt8) :
    m.Retains (m.write block offset bytes) :=
  ⟨fun _ => Nat.le_of_eq (lengthWrite ..).symm, fun _ bank found => ⟨bank, found, rfl⟩⟩

theorem soundWrite (sound : m.Sound) (block : BlockId) (offset : Nat) (bytes : List UInt8) :
    (m.write block offset bytes).Sound ∧ m.Retains (m.write block offset bytes) := by
  refine ⟨⟨fun id => ?_, fun tag id named => ?_, sound.banks⟩, retainsWrite ..⟩
  · rw [lengthWrite]
    exact sound.short id
  · rw [write, Array.size_modify]
    exact sound.blocks tag id named

theorem selectInv {id : BankId} {index : Nat} (ok : m.selectBank id index = .ok m') :
    m' = m ∨ ∃ bank bank', m.bank? id = some bank ∧ bank'.entries = bank.entries ∧
      m' = { m with banks := m.banks.setIfInBounds id.index bank' } := by
  unfold selectBank at ok
  split at ok
  · cases ok
    exact .inl rfl
  · rename_i bank found
    obtain ⟨bank', selected, ok⟩ := okBindInv ok
    cases ok
    refine .inr ⟨bank, bank', found, ?_, rfl⟩
    unfold Bank.select at selected
    split at selected <;> cases selected
    rfl

theorem retainsSelect {id : BankId} {index : Nat} (ok : m.selectBank id index = .ok m') :
    m.Retains m' := by
  obtain rfl | ⟨bank, bank', found, entries, rfl⟩ := selectInv ok
  · exact .refl _
  · refine ⟨fun _ => Nat.le_refl _, fun other own row => ?_⟩
    have bound := (Array.getElem?_eq_some_iff.mp row).1
    simp only [bank?, Array.getElem?_setIfInBounds]
    split
    · rename_i here
      have same : id = other := congrArg BankId.mk here
      subst same
      rw [found] at row
      cases row
      exact ⟨bank', if_pos bound, entries⟩
    · exact ⟨own, row, rfl⟩

theorem soundSelect {id : BankId} {index : Nat} (sound : m.Sound)
    (ok : m.selectBank id index = .ok m') : m'.Sound ∧ m.Retains m' := by
  refine ⟨?_, retainsSelect ok⟩
  obtain rfl | ⟨bank, bank', found, entries, rfl⟩ := selectInv ok
  · exact sound
  · refine ⟨sound.short, sound.blocks, fun tag id named => ?_⟩
    rw [Array.size_setIfInBounds]
    exact sound.banks tag id named

theorem lengthBlock (m : Memory) (b : Block) (id : BlockId) : (m.putBlock b).blockLength id =
    if id.index = m.blocks.size then b.length else m.blockLength id := by
  simp only [blockLength, block?, putBlock, Array.getElem?_push]
  split <;> rfl

theorem retainsBlock (m : Memory) (b : Block) : m.Retains (m.putBlock b) := by
  refine ⟨fun id => ?_, fun _ bank found => ⟨bank, found, rfl⟩⟩
  rw [lengthBlock]
  split
  · rename_i fresh
    simp [blockLength, block?, fresh]
  · exact Nat.le_refl _

theorem soundBlock (sound : m.Sound) {b : Block} (short : b.length < Word.largest) :
    (m.putBlock b).Sound ∧ m.Retains (m.putBlock b) := by
  refine ⟨⟨fun id => ?_, fun tag id named => ?_, sound.banks⟩, retainsBlock m b⟩
  · rw [lengthBlock]
    split
    · exact short
    · exact sound.short id
  · simp only [blockId?, putBlock, Directory.find?_insert] at named
    rw [putBlock, Array.size_push]
    split at named
    · cases named
      exact Nat.lt_succ_self _
    · exact Nat.lt_succ_of_lt (sound.blocks tag id named)

theorem retainsBank (m : Memory) (b : Bank) (bankTags looseTags : Directory BankId) :
    m.Retains { m with banks := m.banks.push b, bankTags, looseTags } := by
  refine ⟨fun _ => Nat.le_refl _, fun id bank found => ⟨bank, ?_, rfl⟩⟩
  have bound := (Array.getElem?_eq_some_iff.mp found).1
  simp only [bank?, Array.getElem?_push]
  rw [if_neg (Nat.ne_of_lt bound)]
  exact found

theorem soundBank (sound : m.Sound) {b : Bank} (added : m.addBank b = .ok m') :
    m'.Sound ∧ m.Retains m' := by
  unfold addBank at added
  split at added <;> cases added
  refine ⟨⟨sound.short, sound.blocks, fun tag id named => ?_⟩, retainsBank ..⟩
  simp only [bankId?, Directory.find?_insert] at named
  rw [Array.size_push]
  split at named
  · cases named
    exact Nat.lt_succ_self _
  · exact Nat.lt_succ_of_lt (sound.banks tag id named)

theorem soundLoose (sound : m.Sound) (b : Bank) :
    (m.addLoose b).Sound ∧ m.Retains (m.addLoose b) := by
  refine ⟨⟨sound.short, sound.blocks, fun tag id named => ?_⟩, retainsBank ..⟩
  have old := sound.banks tag id
  simp only [bankId?, addLoose, Directory.find?_insert] at named old ⊢
  rw [Array.size_push]
  cases own : m.bankTags.find? tag with
  | some other =>
    rw [own] at named old
    exact Nat.lt_succ_of_lt (old named)
  | none =>
    rw [own] at named old
    simp only [Option.none_or] at named old
    split at named
    · cases named
      exact Nat.lt_succ_self _
    · exact Nat.lt_succ_of_lt (old named)

end

end Memory

namespace Bus
variable {κ : Type} {memory memory' : Memory} {h : Handler κ} {e middle old : Entry κ}
  {s : Space κ} {count count' first last : Nat}

theorem backsRetained (retains : memory.Retains memory') (backs : h.Backs memory count) :
    h.Backs memory' count := by
  cases h with
  | ram block offset | rom block offset => exact Nat.le_trans backs (retains.blocks block)
  | bank id =>
    obtain ⟨bank, found, all⟩ := backs
    obtain ⟨bank', found', entries⟩ := retains.banks id bank found
    refine ⟨bank', found', fun row mem => ?_⟩
    rw [entries] at mem
    exact Nat.le_trans (all row mem) (retains.blocks row.1)
  | port | unmapped => exact trivial

theorem backsFewer (fewer : count' ≤ count) (backs : h.Backs memory count) :
    h.Backs memory count' := by
  cases h with
  | ram block offset | rom block offset => exact Nat.le_trans (Nat.add_le_add_left fewer _) backs
  | bank id =>
    obtain ⟨bank, found, all⟩ := backs
    exact ⟨bank, found, fun row mem => Nat.le_trans (Nat.add_le_add_left fewer _) (all row mem)⟩
  | port | unmapped => exact trivial

theorem windowLe (lengthOf : Memory.BlockId → Nat) {bank : Memory.Bank}
    {row : Memory.BlockId × Nat} (mem : row ∈ bank.entries) :
    bank.window lengthOf ≤ lengthOf row.1 - row.2 := by
  have listed : lengthOf row.1 - row.2 ∈
      bank.entries.toList.map fun row => lengthOf row.1 - row.2 :=
    List.mem_map_of_mem (Array.mem_toList_iff.mpr mem)
  change (bank.entries.toList.map fun row => lengthOf row.1 - row.2).min?.getD 0 ≤ _
  cases least : (bank.entries.toList.map fun row => lengthOf row.1 - row.2).min? with
  | none =>
    rw [List.min?_eq_none_iff.mp least] at listed
    cases listed
  | some x => exact (List.min?_eq_some_iff.mp least).2 _ listed

theorem acceptedBacks (sound : memory.Sound) (stands : h.Stands memory)
    (accepts : s.Accepts memory first last h) : h.Backs memory (last - first + 1) := by
  have backed := accepts.backed
  -- no block is as long as the largest word, so no sum that was accepted stopped there
  cases h with
  | ram block offset | rom block offset =>
    obtain ⟨b, found⟩ := Option.isSome_iff_exists.mp stands
    have short := sound.short block
    have enough := backed ⟨b.tag, b.length, _⟩ (by simp only [Handler.demand?, found]; rfl)
    simp only [Memory.blockLength, found, Option.elim_some, Handler.Backs] at short ⊢
    simp only [Word.add, Word.clamp] at enough
    omega
  | bank id =>
    obtain ⟨bank, found⟩ := Option.isSome_iff_exists.mp stands
    have enough := backed ⟨bank.tag, memory.window bank, _⟩
      (by simp only [Handler.demand?, found]; rfl)
    refine ⟨bank, found, fun row mem => ?_⟩
    have short := sound.short row.1
    have window := windowLe memory.blockLength mem
    simp only [Memory.window, Word.clamp] at enough
    omega
  | port | unmapped => exact trivial

structure Space.Housed (s : Space κ) (memory : Memory) : Prop where
  laid : Laid s.shape.maxAddress s.entries
  backed : ∀ e ∈ s.entries, e.Backed memory

theorem housedFresh (name : String) (shape : Shape) (memory : Memory) :
    ({ name, shape } : Space κ).Housed memory :=
  ⟨(Space.faithfulFresh name shape).laid, fun _ mem => by cases mem⟩

theorem housedCarve (housed : s.Housed memory) (accepts : s.Accepts memory first last h)
    (backs : h.Backs memory (last - first + 1)) :
    { s with entries := Space.carve s.entries ⟨first, last, first, h⟩ }.Housed memory := by
  have upright : first ≤ last := accepts.upright
  refine ⟨carveLaid housed.laid upright (Nat.le_refl _) accepts.inside, fun e mem => ?_⟩
  rcases (memCarve housed.laid upright).mp mem with rfl | ⟨old, mem, piece⟩
  · exact backs
  -- a piece keeps the origin of its range and ends no later
  · obtain ⟨origin, same, -, -, last, -⟩ := pieceWithin (housed.laid.within old mem) piece
    unfold Entry.Backed
    rw [same, origin]
    exact backsFewer (by omega) (housed.backed old mem)

end Bus

namespace Machine
open Bus (Space)

structure Housed (m : Machine) : Prop where
  memory : m.memory.Sound
  spaces : ∀ id s, m.space? id = some s → s.Housed m.memory

section
variable {m m' : Machine}

theorem housedMemory (housed : m.Housed) {memory : Memory}
    (sound : memory.Sound ∧ m.memory.Retains memory) : { m with memory }.Housed := by
  refine ⟨sound.1, fun id s found => ?_⟩
  have old := housed.spaces id s found
  exact ⟨old.laid, fun e mem => Bus.backsRetained sound.2 (old.backed e mem)⟩

theorem housedUnmoved (housed : m.Housed) (same : Unmoved m m') : m'.Housed := by
  refine ⟨same.memory ▸ housed.memory, fun id s found => ?_⟩
  have layout := same.layout id
  rw [found] at layout
  obtain ⟨t, found', like⟩ := Option.map_eq_some_iff.mp layout.symm
  obtain ⟨shape, entries⟩ := Prod.mk.inj like
  obtain ⟨laid, backed⟩ := housed.spaces id t found'
  rw [shape, entries] at laid
  rw [entries, ← same.memory] at backed
  exact ⟨laid, backed⟩

theorem mapCarve (housed : m.Housed) {override : Bool} {id : SpaceId} {first last : Nat}
    {handler : Bus.Handler Port} (ok : m.map override id first last handler = .ok m') :
    m' = m ∨ ∃ s, m.space? id = some s ∧ s.Accepts m.memory first last handler ∧
      m' = m.modifySpace id fun _ =>
        { s with entries := Space.carve s.entries ⟨first, last, first, handler⟩ } := by
  obtain rfl | ⟨s, t, found, mapped, rfl⟩ := mapAdopts ok
  · exact .inl rfl
  refine .inr ⟨s, found, ?_⟩
  split at mapped
  · rcases Space.overrideCases s m.memory first last handler with ⟨ok, accepts⟩ | ⟨e, refused, -⟩
    · cases ok.symm.trans mapped
      exact ⟨accepts, rfl⟩
    · cases refused.symm.trans mapped
  · rcases Space.installCases (housed.spaces id s found).laid m.memory first last handler with
      ⟨ok, accepts, -⟩ | ⟨x, y, refused, -⟩ | ⟨e, refused, -⟩
    · cases ok.symm.trans mapped
      exact ⟨accepts, rfl⟩
    · cases refused.symm.trans mapped
    · cases refused.symm.trans mapped

theorem housedMap (housed : m.Housed) {override : Bool} {id : SpaceId} {first last : Nat}
    {handler : Bus.Handler Port} (stands : handler.Stands m.memory)
    (ok : m.map override id first last handler = .ok m') : m'.Housed := by
  obtain rfl | ⟨s, found, accepts, rfl⟩ := mapCarve housed ok
  · exact housed
  · refine ⟨housed.memory, fun other t row => ?_⟩
    unfold space? modifySpace at row
    rw [Array.getElem?_modify] at row
    split at row
    · obtain ⟨-, -, rfl⟩ := Option.map_eq_some_iff.mp row
      exact Bus.housedCarve (housed.spaces id s found) accepts
        (Bus.acceptedBacks housed.memory stands accepts)
    · exact housed.spaces other t row

theorem targetStands (sound : m.memory.Sound) {target : Target Port} {handler : Bus.Handler Port}
    (named : m.handler? target = some handler) : handler.Stands m.memory := by
  cases target with
  | ram tag offset | rom tag offset =>
    obtain ⟨id, tagged, rfl⟩ := Option.map_eq_some_iff.mp named
    exact Option.isSome_iff_exists.mpr ⟨_, Array.getElem?_eq_getElem (sound.blocks tag id tagged)⟩
  | bank tag =>
    obtain ⟨id, tagged, rfl⟩ := Option.map_eq_some_iff.mp named
    exact Option.isSome_iff_exists.mpr ⟨_, Array.getElem?_eq_getElem (sound.banks tag id tagged)⟩
  | port p =>
    cases named
    exact trivial
  | unmapped =>
    cases named
    exact trivial

theorem housedStep {rule : Rule} (housed : m.Housed) (step : Step rule m m') : m'.Housed := by
  cases stepRework step with
  | unmoved same => exact housedUnmoved housed same
  | store block offset bytes => exact housedMemory housed (Memory.soundWrite housed.memory ..)
  | select ok => exact housedMemory housed (Memory.soundSelect housed.memory ok)
  | map _ _ named ok => exact housedMap housed (targetStands housed.memory named) ok

theorem housedSpace (housed : m.Housed) (spec : SpaceSpec) : (m.newSpace spec).1.Housed := by
  refine ⟨housed.memory, fun id s found => ?_⟩
  simp only [newSpace, space?, Array.getElem?_push] at found
  split at found
  · cases found
    exact Bus.housedFresh ..
  · exact housed.spaces id s found

theorem housedSeat (housed : m.Housed) (device : Device) : (Assembly.seat m device).1.Housed := by
  unfold Assembly.seat
  generalize Bus.SpaceKind.all.filterMap device.spaceOf? = specs
  generalize ({ device } : Seat) = seat
  induction specs generalizing m seat with
  | nil => exact housed
  | cons spec rest ih => exact ih (housedSpace housed spec) _

theorem reachableHoused {rule : Rule} (reached : Reachable rule m) : m.Housed := by
  induction reached with
  | new config =>
    refine ⟨⟨fun _ => by simp [Memory.blockLength, Memory.block?, Word.largest], fun _ _ named => ?_, fun _ _ named => ?_⟩, fun _ _ found => ?_⟩
    · cases named
    · cases named
    · cases found
  | device _ added ih =>
    obtain ⟨tree, -, rfl⟩ := addInstanceInv added
    have seated := housedSeat ih
    exact ⟨(seated _).memory, (seated _).spaces⟩
  | space spec _ ih => exact housedSpace ih spec
  | block b short _ ih => exact housedMemory ih (Memory.soundBlock ih.memory short)
  | bank _ added _ ih => exact housedMemory ih (Memory.soundBank ih.memory added)
  | @looseBank _ _ _ _ b _ _ ih => exact housedMemory ih (Memory.soundLoose ih.memory b)
  | select ok _ ih => exact housedMemory ih (Memory.soundSelect ih.memory ok)
  | map stands ok _ ih => exact housedMap ih stands ok
  | vectors index source _ ih => exact housedUnmoved ih (.same rfl rfl)
  | step _ step ih => exact housedStep ih step

end

end Machine

end Lockstep
