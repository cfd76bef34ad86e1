import Lockstep.Proofs.WideBytes
import Mathlib.Data.List.Forall2

/-! Ranges over memory keep their footing. What is mapped was measured once, against the smallest
window of a bank, and that is enough for all that comes later: a piece of a range counts from the
origin of the range and ends no later, and whichever entry is selected has the whole window. So an
access that meets no port finds a byte wherever it meets memory, and drops none there. -/
namespace Lockstep

namespace Memory
variable {a b : Memory} {k other : BankId} {index : Nat} {bank : Bank}

def Anchored (m : Memory) : Prop :=
  ∀ k bank, m.bank? k = some bank → ∀ row ∈ bank.entries, row.2 ≤ m.blockLength row.1

structure Turned (a b : Memory) (k : BankId) (bank : Bank) (index : Nat) : Prop where
  blocks : b.blocks = a.blocks
  here : ∃ inside, b.bank? k = some { bank with selected := index, selected_lt := inside }
  others : ∀ other, other ≠ k → b.bank? other = a.bank? other

theorem selectCases (found : a.bank? k = some bank) (index : Nat) :
    (index < bank.count ∧ ∃ b, a.selectBank k index = .ok b ∧ a.Turned b k bank index) ∨
      (bank.count ≤ index ∧
        a.selectBank k index = .error (.entryOutOfRange bank.tag index bank.count)) := by
  unfold selectBank Bank.select
  rw [found]
  dsimp only
  by_cases inside : index < bank.entries.size
  · rw [dif_pos inside]
    refine .inl ⟨inside, _, rfl, rfl, ⟨inside, ?_⟩, fun other away => ?_⟩
    · exact Array.getElem?_setIfInBounds_self_of_lt (Array.getElem?_eq_some_iff.mp found).1
    · exact Array.getElem?_setIfInBounds_ne fun same => away (congrArg BankId.mk same.symm)
  · rw [dif_neg inside]
    exact .inr ⟨Nat.le_of_not_lt inside, rfl⟩

theorem newBankAnchored {tag : String} {entries : List (BlockId × Nat)} {readOnly : Bool}
    (made : a.newBank tag entries readOnly = .ok bank) :
    ∀ row ∈ bank.entries, row.2 ≤ a.blockLength row.1 := by
  unfold newBank at made
  split at made
  · split at made
    · cases made
    · rename_i none
      cases made
      intro row mem
      have inside := List.find?_eq_none.mp none row (by simpa using mem)
      exact Nat.le_of_not_lt fun short => inside (decide_eq_true short)
  · cases made

theorem anchoredFrom (anchored : a.Anchored) (lengths : ∀ id, a.blockLength id ≤ b.blockLength id)
    (banks : ∀ k bank', b.bank? k = some bank' →
      (∃ bank, a.bank? k = some bank ∧ bank'.entries = bank.entries) ∨
        ∀ row ∈ bank'.entries, row.2 ≤ a.blockLength row.1) : b.Anchored := by
  intro k bank' found row mem
  refine Nat.le_trans ?_ (lengths row.1)
  rcases banks k bank' found with ⟨bank, before, same⟩ | measured
  · exact anchored k bank before row (same ▸ mem)
  · exact measured row mem

theorem anchoredSelect (ok : a.selectBank k index = .ok b) (anchored : a.Anchored) :
    b.Anchored := by
  obtain rfl | ⟨bank, bank', found, entries, rfl⟩ := selectInv ok
  · exact anchored
  · refine anchoredFrom anchored (fun _ => Nat.le_refl _) fun other own row => .inl ?_
    simp only [bank?, Array.getElem?_setIfInBounds] at row
    split at row
    · rename_i here
      have same : k = other := congrArg BankId.mk here
      subst same
      split at row <;> cases row
      exact ⟨bank, found, entries⟩
    · exact ⟨own, row, rfl⟩

theorem anchoredPush {tag : String} {entries : List (BlockId × Nat)} {readOnly : Bool}
    (bankTags looseTags : Directory BankId) (made : a.newBank tag entries readOnly = .ok bank)
    (anchored : a.Anchored) :
    { a with banks := a.banks.push bank, bankTags, looseTags : Memory }.Anchored := by
  refine anchoredFrom anchored (fun _ => Nat.le_refl _) fun k own row => ?_
  simp only [bank?, Array.getElem?_push] at row
  split at row
  · cases row
    exact .inr (newBankAnchored made)
  · exact .inl ⟨own, row, rfl⟩

end Memory

namespace Bus
variable {κ : Type}

def Handler.base : Handler κ → Nat
  | .ram _ offset | .rom _ offset => offset
  | .bank _ | .port _ | .unmapped => 0

namespace Space

def Quiet (s : Space κ) (w : Width) (address : Nat) : Prop :=
  ∀ i < w.bytes, ∀ e, s.lookup? (address + i) = some e → e.handler.kind ≠ .callback

def Grounded (s : Space κ) (w : Width) (address : Nat) : Prop :=
  ∀ i < w.bytes, ∃ e, s.lookup? (address + i) = some e ∧ e.handler.inMemory = true

def Shown (s : Space κ) (memory : Memory) (address : Nat) (byte : UInt8) : Prop :=
  ∀ c writable, s.cell? memory address = some (c, writable) → memory.byte? c = some byte

def reach (s : Space κ) (w : Width) (address : Nat) : List Nat :=
  (List.range w.bytes).map fun i => s.shape.wrap (address + i)

end Space

section
variable {s : Space κ} {memory : Memory} {w : Width} {address a : Nat} {parts : List Part}
  {e : Entry κ}

theorem plainMemory {h : Handler κ} (held : h.inMemory = true) : h.kind ≠ .callback := by
  cases h with
  | port => cases held
  | _ => exact HandlerKind.noConfusion

namespace Space

theorem Grounded.quiet (grounded : s.Grounded w address) : s.Quiet w address := by
  intro i inside e here
  obtain ⟨e', here', held⟩ := grounded i inside
  cases here.symm.trans here'
  exact plainMemory held

theorem Divided.regions {P : Handler κ → Prop} (divided : s.Divided w address parts)
    (all : ∀ i < w.bytes, P (s.region (s.shape.wrap (address + i))).handler) :
    ∀ p ∈ parts, P (s.region p.address).handler := by
  intro p mem
  have listed : p.address ∈ parts.flatMap (·.addresses) :=
    List.mem_flatMap.mpr ⟨p, mem, List.mem_map.mpr ⟨0, List.mem_range.mpr p.width.bytesPos, rfl⟩⟩
  rw [divided.covers] at listed
  obtain ⟨i, inside, here⟩ := List.mem_map.mp listed
  rw [← here]
  exact all i (List.mem_range.mp inside)

theorem regionLookup (here : s.lookup? a = some e) :
    s.region (s.shape.wrap a) = ⟨e.first, e.last, e.origin, e.handler⟩ := regionCovered here 0

theorem Divided.quiet (divided : s.Divided w address parts) (quiet : s.Quiet w address) :
    ∀ p ∈ parts, (s.region p.address).handler.kind ≠ .callback := by
  refine divided.regions (P := fun h => h.kind ≠ .callback) fun i inside => ?_
  cases here : s.lookup? (address + i) with
  | some e =>
    rw [regionLookup here]
    exact quiet i inside e here
  | none =>
    have gap : (s.region (s.shape.wrap (address + i))).handler = .unmapped := regionGap here 0
    rw [gap]
    exact HandlerKind.noConfusion

theorem Divided.grounded (divided : s.Divided w address parts) (grounded : s.Grounded w address) :
    ∀ p ∈ parts, (s.region p.address).handler.inMemory = true := by
  refine divided.regions (P := fun h => h.inMemory = true) fun i inside => ?_
  obtain ⟨e, here, held⟩ := grounded i inside
  rw [regionLookup here]
  exact held

theorem cellBacked {h : Handler κ} {offset : Nat} {c : Cell} {writable : Bool}
    (backs : h.Backs memory (offset + 1)) (cell : h.cell? memory offset = some (c, writable)) :
    c.offset < memory.blockLength c.block := by
  cases h with
  | ram block base | rom block base =>
    cases cell
    exact backs
  | bank id =>
    obtain ⟨bank, found, all⟩ := backs
    rw [Handler.cell?, found] at cell
    cases cell
    exact all bank.target (Array.getElem_mem bank.selected_lt)
  | port | unmapped => cases cell

theorem byteBacked {c : Cell} (inside : c.offset < memory.blockLength c.block) :
    ∃ byte, memory.byte? c = some byte := by
  unfold Memory.blockLength at inside
  unfold Memory.byte?
  cases found : memory.block? c.block with
  | none =>
    rw [found] at inside
    cases inside
  | some b =>
    rw [found] at inside
    exact ⟨_, Array.getElem?_eq_getElem inside⟩

theorem cellThere {h : Handler κ} {count : Nat} (backs : h.Backs memory count)
    (held : h.inMemory = true) (offset : Nat) :
    ∃ c writable, h.cell? memory offset = some (c, writable) := by
  cases h with
  | ram | rom => exact ⟨_, _, rfl⟩
  | bank id =>
    obtain ⟨bank, found, -⟩ := backs
    exact ⟨_, _, by rw [Handler.cell?, found]; rfl⟩
  | port | unmapped => cases held

theorem demandExact {h : Handler κ} {span : Nat} (sound : memory.Sound)
    (backs : h.Backs memory span) {d : Demand} (demand : h.demand? memory span = some d) :
    d.needed = h.base + span ∧ d.needed < Word.largest := by
  cases h with
  | ram block offset | rom block offset =>
    obtain ⟨b, -, rfl⟩ := Option.map_eq_some_iff.mp demand
    have short := sound.short block
    change offset + span ≤ _ at backs
    simp only [Word.add, Word.clamp, Handler.base]
    omega
  | bank id =>
    obtain ⟨bank, found, all⟩ := backs
    obtain ⟨b, -, rfl⟩ := Option.map_eq_some_iff.mp demand
    have enough := all bank.target (Array.getElem_mem bank.selected_lt)
    have short := sound.short bank.target.1
    simp only [Word.clamp, Handler.base]
    omega
  | port | unmapped => cases demand

theorem mappedAccepts {t : Space κ} {first last : Nat} {h : Handler κ}
    (ok : s.install memory first last h = .ok t ∨ s.override memory first last h = .ok t) :
    s.Accepts memory first last h := by
  have valid : s.validate memory first last h = .ok () := by
    rcases ok with ok | ok <;> obtain ⟨_, valid, -⟩ := okBindInv ok <;> exact valid
  rcases validateCases s memory first last h with ⟨-, accepts⟩ | ⟨e, refused, -⟩
  · exact accepts
  · cases refused.symm.trans valid

theorem cellLookup (here : s.lookup? a = some e) :
    s.cell? memory a = e.handler.cell? memory (s.shape.wrap a - e.origin) := by
  rw [cell?, regionLookup here]

theorem cellInside (housed : s.Housed memory) {c : Cell} {writable : Bool}
    (cell : s.cell? memory a = some (c, writable)) : c.offset < memory.blockLength c.block := by
  cases here : s.lookup? a with
  | some e =>
    obtain ⟨mem, covers⟩ := (coveringIff housed.laid).mp here
    have within := housed.laid.within e mem
    unfold Entry.Covers at covers
    rw [cellLookup here] at cell
    exact cellBacked (backsFewer (by omega) (housed.backed e mem)) cell
  | none =>
    have gap : (s.region (s.shape.wrap a)).handler = .unmapped := regionGap here 0
    rw [cell?, gap] at cell
    cases cell

theorem seenShown (housed : s.Housed memory) (pattern : UInt8) (a : Nat) :
    s.Shown memory a (s.seen memory pattern a) := by
  intro c writable cell
  obtain ⟨byte, held⟩ := byteBacked (cellInside housed cell)
  rw [seen, cell, Option.bind_some, held]
  rfl

theorem storeByte (s : Space κ) (memory : Memory) (address : Nat) (value : UInt8) (c : Cell) :
    (s.store memory address value).byte? c =
      if s.cell? memory address = some (c, true) then (memory.byte? c).map fun _ => value
      else memory.byte? c := by
  unfold store
  split
  · rename_i d cell
    rw [Machine.byteWrite, cell]
    simp only [Option.some.injEq, Prod.mk.injEq, and_true, eq_comm]
  · rename_i other
    rw [if_neg (other c)]

theorem storeAllBanks (s : Space κ) (memory : Memory) (rows : List (Nat × UInt8)) :
    (s.storeAll memory rows).banks = memory.banks := by
  induction rows generalizing memory with
  | nil => rfl
  | cons row rest ih =>
    refine (ih (s.store memory row.1 row.2)).trans ?_
    unfold store
    split <;> rfl

theorem storeAllByte (s : Space κ) (memory : Memory) (rows : List (Nat × UInt8)) (c : Cell) :
    (s.storeAll memory rows).byte? c = (memory.byte? c).map fun old => rows.foldl (fun byte row =>
      if s.cell? memory row.1 = some (c, true) then row.2 else byte) old := by
  induction rows generalizing memory with
  | nil => exact (congrFun Option.map_id _).symm
  | cons row rest ih =>
    have after := ih (s.store memory row.1 row.2)
    simp only [storeCells] at after
    rw [storeAll, List.foldl_cons]
    refine after.trans ?_
    rw [storeByte]
    split
    · rename_i here
      rw [Option.map_map]
      simp only [List.foldl_cons, here, if_pos, Function.comp_def]
    · rename_i away
      simp only [List.foldl_cons, if_neg away]

end Space

end

end Bus

namespace Machine
open Bus (ByteOrder Space Part Width)

def silent : Callback := fun _ _ => none

section
variable {call : Callback} {id : SpaceId} {s : Space Port} {m m' : Machine} {p : Part}
  {w : Width} {address : Nat} {parts : List Part}

theorem silentSteady (id : SpaceId) (s : Space Port) : Steady silent id s := by
  have never : ∀ script m, KeepsMap id s (silent script) m := fun _ _ _ _ ran => by cases ran
  exact fun _ _ _ _ _ _ m => ⟨never _ m, fun _ => never _ m⟩

theorem readKept (divided : s.Divided w address parts)
    (laid : Bus.Laid s.shape.maxAddress s.entries) (steady : Steady call id s) :
    KeepsMap id s (read call id address w) m := by
  intro value m' ran shows_
  rw [readDivided divided laid steady shows_] at ran
  obtain ⟨pieces, m₁, pieced, rest⟩ := Run.bindInv ran
  obtain ⟨-, rfl⟩ := Run.pureInv rest
  exact (piecesKept divided steady shows_ pieced).2

theorem quietAlike (divided : s.Divided w address parts)
    (laid : Bus.Laid s.shape.maxAddress s.entries)
    (quiet : ∀ p ∈ parts, (s.region p.address).handler.kind ≠ .callback) (call : Callback)
    (shows_ : m.Shows id s) : read call id address w m = read silent id address w m ∧
      ∀ value, write call id address w value m = write silent id address w value m := by
  induction divided generalizing m with
  | @whole w address fits =>
    have plain := quiet _ (List.mem_singleton_self _)
    refine ⟨?_, fun value => ?_⟩
    · rw [readFits laid shows_ fits, readFits laid shows_ fits, readPartEq, readPartEq,
        readHandlerQuiet plain silent]
    · rw [writeFits laid shows_ fits, writeFits laid shows_ fits, writePart, writePart,
        writeRegion, writeRegion, writeHandlerQuiet plain silent]
  | @halves w half address lower higher narrower misfit first second ih₁ ih₂ =>
    have ih₁ := fun {m} => ih₁ (m := m) fun p mem => quiet p (List.mem_append_left _ mem)
    have ih₂ := fun {m} => ih₂ (m := m) fun p mem => quiet p (List.mem_append_right _ mem)
    obtain ⟨t, found, shape, -, split⟩ := showsSplit laid shows_ w address
    rw [← shape] at split
    replace split := split.mpr (shape ▸ misfit)
    refine ⟨?_, fun value => ?_⟩
    · rw [readSplit found narrower split, readSplit found narrower split, shape, Bus.Shape.wrapAdd]
      refine Run.bindCongr ?_ fun lower m₁ ran => Run.bindCongr ?_ fun _ _ _ => rfl
      · rw [readWrap shows_, readWrap shows_, (ih₁ shows_).1]
      · rw [readWrap shows_] at ran
        have shows_ := readKept first laid (silentSteady id s) lower m₁ ran shows_
        rw [readWrap shows_, readWrap shows_, (ih₂ shows_).1]
    · rw [writeSplit found narrower value split, writeSplit found narrower value split, shape,
        Bus.Shape.wrapAdd]
      refine Run.bindCongr ?_ fun _ m₁ ran => ?_
      · rw [writeWrap _ shows_, writeWrap _ shows_, (ih₁ shows_).2]
      · rw [writeWrap _ shows_] at ran
        have shows_ := (writeDivided first laid (silentSteady id s) shows_ _).2 _ m₁ ran shows_
        rw [writeWrap _ shows_, writeWrap _ shows_, (ih₂ shows_).2]

theorem partShown (call : Callback) (housed : s.Housed m.memory) (shows_ : m.Shows id s)
    (fits : s.Fits p) (plain : (s.region p.address).handler.kind ≠ .callback) :
    ∃ xs m', readPiece call id s p m = some (xs, m') ∧
      List.Forall₂ (s.Shown m.memory) p.addresses xs ∧ m'.memory = m.memory ∧ m'.Shows id s ∧
      ((s.region p.address).handler.inMemory = true → Driven id m m') := by
  obtain ⟨answer, handled, held⟩ := handlerHeld call housed fits plain 0
  rcases held with ⟨rfl, -⟩ | ⟨rfl, outside, gap⟩
  · have length : (p.addresses.map (s.seen m.memory 0)).length = p.width.bytes := by
      rw [List.length_map, Part.lengthAddresses]
    have driven : Driven id m _ :=
      .drive (s.shape.byteOrder.assemble (p.addresses.map (s.seen m.memory 0)))
    refine ⟨p.addresses.map (s.seen m.memory 0), _, ?_, ?_, drivenMemory driven,
      drivenShows driven shows_, fun _ => driven⟩
    · rw [readPiece, readPartEq, bind_assoc, Run.bindSome handled, ← length]
      simp only [answered, bind_assoc, pure_bind, ByteOrder.bytesAssemble]
      rfl
    · rw [List.forall₂_map_right_iff, List.forall₂_same]
      exact fun a _ => Space.seenShown housed 0 a
  · have after := showsUnmapped (f := (·.countRead)) (fun _ => rfl) s.shape.kind p.address false
      shows_
    have memory : ((m.modifySpace id (·.countRead)).noteUnmapped s.shape.kind p.address
        false).memory = m.memory := (notedMemory (notedUnmapped ..)).trans rfl
    generalize counted : (m.modifySpace id (·.countRead)).noteUnmapped s.shape.kind p.address
      false = m₁ at after memory
    refine ⟨s.shape.byteOrder.bytes p.width.bytes
      ((m₁.space? id).elim 0 (·.floating p.address p.width)), m₁, ?_, ?_, memory, after,
      fun held => ?_⟩
    · rw [readPiece, readPartEq, bind_assoc, Run.bindSome handled]
      simp only [answered, bind_assoc, pure_bind]
      rw [Run.modifyBind, counted]
      rfl
    · refine List.forall₂_iff_zip.mpr ⟨by simp, fun {a x} row c writable cell => ?_⟩
      rw [gap a (List.of_mem_zip row).1] at cell
      cases cell
    · rw [outside] at held
      cases held

theorem piecesShown (call : Callback) (housed : s.Housed m.memory) (shows_ : m.Shows id s)
    (fits : ∀ p ∈ parts, s.Fits p)
    (plain : ∀ p ∈ parts, (s.region p.address).handler.kind ≠ .callback) :
    ∃ pieces m', parts.mapM (readPiece call id s) m = some (pieces, m') ∧
      List.Forall₂ (s.Shown m.memory) (parts.flatMap (·.addresses)) pieces.flatten ∧
      m'.memory = m.memory ∧
      ((∀ p ∈ parts, (s.region p.address).handler.inMemory = true) → Driven id m m') := by
  induction parts generalizing m with
  | nil => exact ⟨[], m, rfl, .nil, rfl, fun _ => .same⟩
  | cons p rest ih =>
    obtain ⟨fits, fitsRest⟩ := List.forall_mem_cons.mp fits
    obtain ⟨plain, plainRest⟩ := List.forall_mem_cons.mp plain
    obtain ⟨xs, m₁, ran, shown, memory, shows_, driven⟩ := partShown call housed shows_ fits plain
    obtain ⟨pieces, m₂, rans, shown', memory', driven'⟩ :=
      ih (m := m₁) (memory ▸ housed) shows_ fitsRest plainRest
    rw [memory] at shown'
    refine ⟨xs :: pieces, m₂, ?_, List.rel_append shown shown', memory'.trans memory,
      fun held => ?_⟩
    · rw [List.mapM_cons, Run.bindSome ran, Run.bindSome rans]
      rfl
    · obtain ⟨here, rest⟩ := List.forall_mem_cons.mp held
      exact drivenTrans (driven here) (driven' rest)

theorem readShown (housed : s.Housed m.memory) (shows_ : m.Shows id s) (quiet : s.Quiet w address)
    (call : Callback) : ∃ xs m',
      read call id address w m = some (s.shape.byteOrder.assemble xs, m') ∧
      List.Forall₂ (s.Shown m.memory) (s.reach w address) xs ∧ m'.memory = m.memory ∧
      (s.Grounded w address → Driven id m m') := by
  obtain ⟨parts, divided⟩ := s.divide w address
  obtain ⟨pieces, m', ran, shown, memory, driven⟩ :=
    piecesShown silent housed shows_ divided.fits (divided.quiet quiet)
  rw [divided.covers] at shown
  refine ⟨pieces.flatten, m', ?_, shown, memory, fun held => driven (divided.grounded held)⟩
  rw [(quietAlike divided housed.laid (divided.quiet quiet) call shows_).1,
    readDivided divided housed.laid (silentSteady id s) shows_, Run.bindSome ran]
  rfl

theorem writeHeld (laid : Bus.Laid s.shape.maxAddress s.entries) (shows_ : m.Shows id s)
    (quiet : s.Quiet w address) (call : Callback) (value : Nat) : ∃ m',
      write call id address w value m = some ((), m') ∧
      m'.memory = s.storeAll m.memory
        ((s.reach w address).zip (s.shape.byteOrder.bytes w.bytes value)) ∧
      m'.Shows id s ∧ (s.Grounded w address → Driven id { m with memory := m'.memory } m') := by
  obtain ⟨parts, divided⟩ := s.divide w address
  obtain ⟨m', ran, memory, shows₁, driven⟩ := partsStored silent laid shows_ divided.fits
    (divided.quiet quiet) (divided.bytes.trans (s.shape.byteOrder.lengthBytes w.bytes value).symm)
  rw [divided.covers] at memory
  refine ⟨m', ?_, memory, shows₁, fun held => driven (divided.grounded held)⟩
  rw [(quietAlike divided laid (divided.quiet quiet) call shows_).2,
    (writeDivided divided laid (silentSteady id s) shows_ value).1, ran]

theorem reachableMemory {rule : Rule} {P : Memory → Prop} (empty : P {})
    (write : ∀ {a : Memory} block offset bytes, P a → P (a.write block offset bytes))
    (select : ∀ {a b : Memory} {bank index}, a.selectBank bank index = .ok b → P a → P b)
    (block : ∀ {a : Memory} b, P a → P (a.putBlock b))
    (bank : ∀ {a : Memory} {tag entries readOnly} {b : Memory.Bank} bankTags looseTags,
      a.newBank tag entries readOnly = .ok b → P a →
      P { a with banks := a.banks.push b, bankTags, looseTags })
    (reached : Reachable rule m) : P m.memory := by
  have mapped : ∀ {a b : Machine} {override id first last handler},
      a.map override id first last handler = .ok b → b.memory = a.memory := by
    intro a b override id first last handler ok
    obtain rfl | ⟨_, _, -, rfl⟩ := mapInv ok <;> rfl
  induction reached with
  | new => exact empty
  | device _ added ih =>
    obtain ⟨tree, -, rfl⟩ := addInstanceInv added
    obtain ⟨spaces, same⟩ := seatAdds _ _
    exact (congrArg Machine.memory same).symm ▸ ih
  | space _ _ ih => exact ih
  | block b _ _ ih => exact block b ih
  | bank made added _ ih =>
    unfold Memory.addBank at added
    split at added <;> cases added
    exact bank _ _ made ih
  | looseBank made _ ih => exact bank _ _ made ih
  | select ok _ ih => exact select ok ih
  | map _ ok _ ih => exact (mapped ok).symm ▸ ih
  | vectors _ _ _ ih => exact ih
  | step _ step ih =>
    cases stepRework step with
    | unmoved same => exact same.memory.symm ▸ ih
    | store block offset bytes => exact write block offset bytes ih
    | select ok => exact select ok ih
    | map _ _ _ ok => exact (mapped ok).symm ▸ ih

theorem reachableAnchored {rule : Rule} (reached : Reachable rule m) : m.memory.Anchored := by
  have kept {a b : Memory} (anchored : a.Anchored) (retains : a.Retains b)
      (same : b.banks = a.banks) : b.Anchored :=
    Memory.anchoredFrom anchored retains.blocks fun k bank found =>
      .inl ⟨bank, by rwa [Memory.bank?, ← same], rfl⟩
  exact reachableMemory (fun _ _ found => by cases found)
    (fun _ _ _ anchored => kept anchored (Memory.retainsWrite ..) rfl) Memory.anchoredSelect
    (fun b anchored => kept anchored (Memory.retainsBlock _ b) rfl) Memory.anchoredPush reached

/-- Whatever a machine maps into memory has its bytes. Nothing that is added or taken away on the
way to a byte leaves the numbers of a word, and an access finds a byte wherever it meets memory. -/
structure Founded (m : Machine) : Prop where
  -- no window begins behind the end of a block, and it fits there whichever entry is selected
  anchored : ∀ k bank, m.memory.bank? k = some bank → ∀ row ∈ bank.entries,
    row.2 ≤ m.memory.blockLength row.1 ∧
      row.2 + m.memory.window bank ≤ m.memory.blockLength row.1
  -- what a mapping needs, as it was accepted, is no sum that stopped at the largest word
  measured : ∀ (s t : Space Port) first last handler, handler.Stands m.memory →
    (s.install m.memory first last handler = .ok t ∨
      s.override m.memory first last handler = .ok t) →
    handler.Backs m.memory (last - first + 1) ∧
      ∀ d, handler.demand? m.memory (last - first + 1) = some d →
        d.needed = handler.base + (last - first + 1) ∧ d.needed < Word.largest
  -- the ranges of a space are also the pieces that an override left of them
  held : ∀ id s, m.space? id = some s → ∀ e ∈ s.entries, e.handler.inMemory = true →
    ∀ a, e.Covers a → e.origin ≤ a ∧ s.lookup? a = some e ∧ ∃ c writable,
      s.cell? m.memory a = some (c, writable) ∧
      e.handler.cell? m.memory (a - e.origin) = some (c, writable) ∧
      c.offset < m.memory.blockLength c.block ∧ m.memory.blockLength c.block < Word.largest ∧
      ∃ byte, m.memory.byte? c = some byte
  reads : ∀ id s, m.space? id = some s → ∀ call w address, s.Quiet w address →
    ∃ bytes m', read call id address w m = some (s.shape.byteOrder.assemble bytes, m') ∧
      List.Forall₂ (s.Shown m.memory) (s.reach w address) bytes ∧ m'.memory = m.memory ∧
      (s.Grounded w address → Driven id m m')
  writes : ∀ id s, m.space? id = some s → ∀ call w address value, s.Quiet w address →
    ∃ m', write call id address w value m = some ((), m') ∧
      (∀ c, m'.memory.byte? c = (m.memory.byte? c).map fun old =>
        ((s.reach w address).zip (s.shape.byteOrder.bytes w.bytes value)).foldl (fun byte row =>
          if s.cell? m.memory row.1 = some (c, true) then row.2 else byte) old) ∧
      m'.memory.banks = m.memory.banks ∧
      (s.Grounded w address → Driven id { m with memory := m'.memory } m')
  selects : ∀ k bank, m.memory.bank? k = some bank → ∀ index,
    (index < bank.count ∧ ∃ memory, m.memory.selectBank k index = .ok memory ∧
        m.memory.Turned memory k bank index) ∨
      (bank.count ≤ index ∧
        m.memory.selectBank k index = .error (.entryOutOfRange bank.tag index bank.count))
  refused : ∀ (call : Callback) (command : Command) tag index,
    command = .selectBank tag index ∨ command = .switchBank tag index →
    ∃ reply m', command.run call m = some (reply, m') ∧ ∀ fault, reply = .fault fault → m' = m

theorem replaced (changed : Except BankError Memory) (m : Machine) :
    ∃ reply m', replaceMemory changed m = some (reply, m') ∧
      ∀ fault, reply = .fault fault → m' = m := by
  cases changed with
  | ok memory => exact ⟨_, _, rfl, nofun⟩
  | error e => exact ⟨_, _, rfl, fun _ _ => rfl⟩

theorem selectRefused (call : Callback) {command : Command} {tag : String} {index : Nat}
    (selects : command = .selectBank tag index ∨ command = .switchBank tag index) (m : Machine) :
    ∃ reply m', command.run call m = some (reply, m') ∧
      ∀ fault, reply = .fault fault → m' = m := by
  rcases selects with rfl | rfl
  · unfold Command.run
    dsimp only
    rw [Run.getBind]
    cases m.memory.bankId? tag with
    | none => exact ⟨_, _, rfl, nofun⟩
    | some id => exact replaced ..
  · unfold Command.run
    rw [Run.getBind]
    exact replaced ..

/-- Ranges over memory are backed in every state that is reached, inside the calls of a host too,
whatever was mapped over what and whichever entries are selected. -/
theorem rangesFounded {rule : Rule} (reached : Reachable rule m) : m.Founded where
  anchored k bank found row mem := by
    have inside := reachableAnchored reached k bank found row mem
    have window := Bus.windowLe m.memory.blockLength mem
    unfold Memory.window
    omega
  measured s t first last handler stands ok := by
    have sound := (reachableHoused reached).memory
    have backs := Bus.acceptedBacks sound stands (Space.mappedAccepts ok)
    exact ⟨backs, fun d demand => Space.demandExact sound backs demand⟩
  held id s found e mem held a covers := by
    have housed := (reachableHoused reached).spaces id s found
    have within := housed.laid.within e mem
    have wrapped : s.shape.wrap a = a := s.shape.wrapInside (Nat.le_trans covers.2 within.2.2)
    have here : s.lookup? a = some e := by
      rw [Space.lookup?, wrapped]
      exact (Bus.coveringIff housed.laid).mpr ⟨mem, covers⟩
    obtain ⟨c, writable, cell⟩ := Space.cellThere (housed.backed e mem) held (a - e.origin)
    have same : s.cell? m.memory a = some (c, writable) := by
      rw [Space.cellLookup here, wrapped, cell]
    have inside := Space.cellInside housed same
    exact ⟨Nat.le_trans within.1 covers.1, here, c, writable, same, cell, inside,
      (reachableHoused reached).memory.short c.block, Space.byteBacked inside⟩
  reads id s found call w address quiet :=
    readShown ((reachableHoused reached).spaces id s found) (showsFound found) quiet call
  writes id s found call w address value quiet := by
    obtain ⟨m', ran, memory, -, driven⟩ := writeHeld
      ((reachableHoused reached).spaces id s found).laid (showsFound found) quiet call value
    refine ⟨m', ran, fun c => ?_, ?_, driven⟩
    · rw [memory]
      exact Space.storeAllByte ..
    · rw [memory]
      exact Space.storeAllBanks ..
  selects k bank found index := Memory.selectCases found index
  refused call command tag index selects := selectRefused call selects m

end

section
variable {m : Machine}

def cover (m : Machine) (id : SpaceId) (first last : Nat) (handler : Bus.Handler Port) : Machine :=
  (m.map true id first last handler).toOption.getD m

theorem Reachable.cover {rule : Rule} (before : Reachable rule m) {id : SpaceId} {first last : Nat}
    {handler : Bus.Handler Port} (stands : handler.Stands m.memory) :
    Reachable rule (m.cover id first last handler) := by
  unfold Machine.cover
  cases ok : m.map true id first last handler with
  | ok m' => exact before.map stands ok
  | error e => exact before

def turn (m : Machine) (k : Memory.BankId) (index : Nat) : Machine :=
  { m with memory := (m.memory.selectBank k index).toOption.getD m.memory }

theorem Reachable.turn {rule : Rule} (before : Reachable rule m) (k : Memory.BankId)
    (index : Nat) : Reachable rule (m.turn k index) := by
  unfold Machine.turn
  cases ok : m.memory.selectBank k index with
  | ok memory => exact before.select ok
  | error e => exact before

end

def shelfBank : Memory.Bank :=
  ⟨"bank", (Memory.Bank.strides ⟨0⟩ 0x10 3).toArray, 0, false, by decide⟩

def shelfMemory : Memory :=
  { Memory.putBlock {} (.filled "pages" 0x30 7) with
    banks := #[shelfBank]
    bankTags := ({} : Directory Memory.BankId).insert "bank" ⟨0⟩ }

def shelf : Machine :=
  let m : Machine := { config := {}, memory := shelfMemory }
  let m := (m.newSpace ⟨"bus", ⟨.program, 8, .word, .little, .lastDriven⟩⟩).1
  ((m.lay ⟨0⟩ 0x40 0x4F (.bank ⟨0⟩)).cover ⟨0⟩ 0x44 0x47 (.ram ⟨0⟩ 0)).turn ⟨0⟩ 2

theorem shelfReached : Reachable free shelf := by
  have fresh : Reachable free { config := {} } := .new {}
  have filled := fresh.block (.filled "pages" 0x30 7) (by decide)
  have made : (Memory.putBlock {} (.filled "pages" 0x30 7)).newBank "bank"
      (Memory.Bank.strides ⟨0⟩ 0x10 3) false = .ok shelfBank := rfl
  have added : (Memory.putBlock {} (.filled "pages" 0x30 7)).addBank shelfBank =
    .ok shelfMemory := rfl
  unfold shelf
  refine .turn (.cover (.lay (.space _ (.bank made added filled)) ?_) ?_) ⟨0⟩ 2 <;> rfl

def shelfSpace : Space Port :=
  { name := "bus"
    shape := ⟨.program, 8, .word, .little, .lastDriven⟩
    entries := [⟨0x40, 0x43, 0x40, .bank ⟨0⟩⟩, ⟨0x44, 0x47, 0x44, .ram ⟨0⟩ 0⟩,
      ⟨0x48, 0x4F, 0x40, .bank ⟨0⟩⟩] }

theorem shelfFounded : Reachable free shelf ∧ shelf.space? ⟨0⟩ = some shelfSpace ∧
    shelfSpace.cell? shelf.memory 0x47 = some (⟨⟨0⟩, 3⟩, true) ∧
    shelfSpace.cell? shelf.memory 0x48 = some (⟨⟨0⟩, 0x28⟩, true) ∧
    ∃ bytes m', read (invoke 1) ⟨0⟩ 0x47 .word shelf =
        some (ByteOrder.little.assemble bytes, m') ∧
      List.Forall₂ (shelfSpace.Shown shelf.memory) [0x47, 0x48] bytes ∧
      Driven ⟨0⟩ shelf m' := by
  have found : shelf.space? ⟨0⟩ = some shelfSpace := rfl
  have grounded : shelfSpace.Grounded .word 0x47 := by
    intro i inside
    obtain _ | _ | i := i
    · exact ⟨_, rfl, rfl⟩
    · exact ⟨_, rfl, rfl⟩
    · exact absurd inside (Nat.not_lt_of_le (Nat.le_add_left 2 i))
  obtain ⟨bytes, m', ran, shown, -, driven⟩ :=
    (rangesFounded shelfReached).reads ⟨0⟩ shelfSpace found (invoke 1) .word 0x47 grounded.quiet
  exact ⟨shelfReached, found, rfl, rfl, bytes, m', ran, shown, driven grounded⟩

end Machine

end Lockstep
