import Lockstep.Proofs.Backing
import Lockstep.Proofs.WideAccess

/-! Wide accesses and accesses of bytes. In a space without ports an address stands for a byte of
memory or for nothing, so a part reads the bytes at its addresses and writes them one after the
other, and so does an access of any width, however the map is cut. -/
namespace Lockstep

namespace Bus
variable {κ : Type}

def Handler.inMemory : Handler κ → Bool
  | .ram .. | .rom .. | .bank _ => true
  | .port _ | .unmapped => false

namespace Space

def seen (s : Space κ) (memory : Memory) (pattern : UInt8) (address : Nat) : UInt8 :=
  ((s.cell? memory address).bind fun row => memory.byte? row.1).getD pattern

def store (s : Space κ) (memory : Memory) (address : Nat) (value : UInt8) : Memory :=
  match s.cell? memory address with
  | some (c, true) => memory.write c.block c.offset [value]
  | _ => memory

def storeAll (s : Space κ) (memory : Memory) (rows : List (Nat × UInt8)) : Memory :=
  rows.foldl (fun memory row => s.store memory row.1 row.2) memory

/-- A space without ports, whose open bus shows a pattern. -/
structure Bare (s : Space κ) (pattern : UInt8) : Prop where
  plain : ∀ e ∈ s.entries, e.handler.kind ≠ .callback
  fixed : s.shape.openBus = .fixed pattern

section
variable {s t : Space κ} {memory : Memory} {p : Part} {pattern : UInt8} {block : Memory.BlockId}

theorem cellPart (laid : Laid s.shape.maxAddress s.entries) (fits : s.Fits p) (memory : Memory)
    {i : Nat} (inside : i < p.width.bytes) : s.cell? memory (p.address + i) =
      (s.region p.address).handler.cell? memory
        (p.address - (s.region p.address).origin + i) := by
  have bound := fits.inside
  unfold Part.last at bound
  rw [cell?, s.shape.wrapInside (by omega)]
  cases covering : covering? s.entries p.address with
  | some e =>
    obtain ⟨mem, covers⟩ := (coveringIff laid).mp covering
    have within := laid.within e mem
    have holds := fits.holds laid mem covers
    unfold Entry.Holds Part.last at holds
    have here : e.Covers (p.address + i) := ⟨by omega, by omega⟩
    have region : s.region (p.address + i) = ⟨e.first, e.last, e.origin, e.handler⟩ :=
      regionCovered ((coveringIff laid).mpr ⟨mem, here⟩) 0
    rw [region, Space.region, regionCovered covering]
    dsimp only
    rw [Nat.sub_add_comm (by omega)]
  | none =>
    -- a part that starts in a gap misses every range, so it never meets the next one
    have gap : covering? s.entries (p.address + i) = none := by
      cases covered : covering? s.entries (p.address + i) with
      | none => rfl
      | some e =>
        obtain ⟨mem, first, last⟩ := (coveringIff laid).mp covered
        have clear : ∀ {e' : Entry κ}, e' ∈ s.entries → ¬ e'.Covers p.address := by
          intro e' mem' covers
          rw [(coveringIff laid).mpr ⟨mem', covers⟩] at covering
          cases covering
        rcases fits.whole with ⟨e', mem', holds⟩ | apart
        · exact absurd ⟨holds.1, Nat.le_trans (Nat.le_add_right ..) holds.2⟩ (clear mem')
        · have := apart e mem
          unfold Entry.Misses Part.last at this
          omega
    simp only [Space.region, Handler.cell?, regionGap covering, regionGap gap]

theorem storeCells (s : Space κ) (memory : Memory) (address other : Nat) (value : UInt8) :
    s.cell? (s.store memory address value) other = s.cell? memory other := by
  unfold store
  split <;> rfl

theorem storeNone {rows : List (Nat × UInt8)}
    (none : ∀ row ∈ rows, ∀ c, s.cell? memory row.1 ≠ some (c, true)) :
    s.storeAll memory rows = memory := by
  induction rows with
  | nil => rfl
  | cons row rest ih =>
    have here : s.store memory row.1 row.2 = memory := by
      unfold store
      split
      · rename_i c cell
        exact absurd cell (none row (List.mem_cons_self ..) c)
      · rfl
    rw [storeAll, List.foldl_cons, here]
    exact ih fun row mem => none row (List.mem_cons_of_mem _ mem)

theorem seenSame (same : ∀ a, t.cell? memory a = s.cell? memory a) :
    t.seen memory pattern = s.seen memory pattern := by
  funext a
  unfold seen
  rw [same]

theorem storeAllSame (same : ∀ a, t.cell? memory a = s.cell? memory a)
    (rows : List (Nat × UInt8)) : t.storeAll memory rows = s.storeAll memory rows := by
  induction rows generalizing memory with
  | nil => rfl
  | cons row rest ih =>
    have here : t.store memory row.1 row.2 = s.store memory row.1 row.2 := by
      unfold store
      rw [same]
    rw [storeAll, storeAll, List.foldl_cons, List.foldl_cons, here]
    -- writes move no cells: the banks stay
    refine ih fun a => ?_
    rw [storeCells, ← here, storeCells, same]

end

end Space

end Bus

namespace Memory
variable {m : Memory}

theorem writeNil (m : Memory) (block : BlockId) (offset : Nat) : m.write block offset [] = m := by
  have same : m.blocks.modify block.index (·.setAll offset []) = m.blocks := by
    refine Array.ext_getElem? fun i => ?_
    rw [Array.getElem?_modify]
    split <;> simp [Block.setAll]
  unfold write
  rw [same]

theorem writeCons (m : Memory) (block : BlockId) (offset : Nat) (value : UInt8)
    (rest : List UInt8) : m.write block offset (value :: rest) =
      (m.write block offset [value]).write block (offset + 1) rest := by
  unfold write
  rw [modifyTwice]
  rfl

theorem readCells {block : BlockId} {offset count : Nat} (some_ : 0 < count)
    (enough : offset + count ≤ m.blockLength block) (pattern : UInt8) :
    m.read? block offset count =
      some ((List.range count).map fun i => (m.byte? ⟨block, offset + i⟩).getD pattern) := by
  unfold blockLength at enough
  unfold read? byte?
  cases found : m.block? block with
  | none =>
    rw [found, Option.elim_none] at enough
    omega
  | some b =>
    rw [found, Option.elim_some] at enough
    refine mapMSome.mpr ?_
    rw [List.map_map]
    refine List.map_congr_left fun i mem => ?_
    have inside : offset + i < b.bytes.size := by
      have := List.mem_range.mp mem
      unfold Block.length at enough
      omega
    have here : b.get? (offset + i) = some b.bytes[offset + i] := Array.getElem?_eq_getElem inside
    simp [here, found]

end Memory

namespace Bus.Space
variable {κ : Type} {s : Space κ} {memory : Memory} {p : Part} {pattern : UInt8}

theorem partBacks (housed : s.Housed memory) (fits : s.Fits p) :
    (s.region p.address).handler.Backs memory
      (p.address - (s.region p.address).origin + p.width.bytes) := by
  have wide := p.width.bytesPos
  cases covering : covering? s.entries p.address with
  | some e =>
    obtain ⟨mem, covers⟩ := (coveringIff housed.laid).mp covering
    have within := housed.laid.within e mem
    have holds := fits.holds housed.laid mem covers
    unfold Entry.Holds Part.last at holds
    rw [Space.region, regionCovered covering]
    exact backsFewer (by dsimp only; omega) (housed.backed e mem)
  | none =>
    rw [Space.region, regionGap covering]
    exact trivial

theorem fixedFloats (fixed : s.shape.openBus = .fixed pattern) (order : ByteOrder) (address : Nat)
    (w : Width) : s.floating address w = order.assemble (List.replicate w.bytes pattern) := by
  have low := pattern.toNat_lt
  unfold floating
  rw [fixed]
  cases w <;> cases order <;>
    simp only [Width.bytes, Width.size, Width.bits, ByteOrder.assemble, List.replicate_succ,
      List.replicate_zero, List.foldr_cons, List.foldr_nil, List.foldl_cons, List.foldl_nil,
      Nat.pow_eq, Nat.reduceMul, Nat.reducePow] <;>
    omega

theorem storeRun {block : Memory.BlockId} {bytes : List UInt8} {address offset : Nat}
    (cells : ∀ i < bytes.length, s.cell? memory (address + i) = some (⟨block, offset + i⟩, true)) :
    s.storeAll memory ((List.range' address bytes.length).zip bytes) =
      memory.write block offset bytes := by
  induction bytes generalizing memory address offset with
  | nil => exact (memory.writeNil block offset).symm
  | cons value rest ih =>
    have here : s.store memory address value = memory.write block offset [value] := by
      have cell := cells 0 (Nat.zero_lt_succ _)
      unfold store
      rw [Nat.add_zero] at cell
      rw [cell]
      rfl
    rw [List.length_cons, List.range'_succ, List.zip_cons_cons, storeAll, List.foldl_cons, here,
      memory.writeCons block offset value rest]
    refine ih fun i inside => ?_
    rw [Nat.add_assoc, Nat.add_assoc, Nat.add_comm 1]
    exact cells (i + 1) (Nat.succ_lt_succ inside)

theorem partStore {block : Memory.BlockId} {offset : Nat} {bytes : List UInt8}
    (length : bytes.length = p.width.bytes) (cells : ∀ i < p.width.bytes,
      s.cell? memory (p.address + i) = some (⟨block, offset + i⟩, true)) :
    s.storeAll memory (p.addresses.zip bytes) = memory.write block offset bytes := by
  rw [← length] at cells
  rw [Part.addresses, ← length, ← List.range'_eq_map_range]
  exact storeRun cells

theorem partHeld (held : ∀ i < p.width.bytes, ∀ c, s.cell? memory (p.address + i) ≠ some (c, true))
    (bytes : List UInt8) : s.storeAll memory (p.addresses.zip bytes) = memory := by
  refine storeNone fun row mem => ?_
  obtain ⟨i, inside, here⟩ := List.mem_map.mp (List.of_mem_zip mem).1
  rw [← here]
  exact held i (List.mem_range.mp inside)

end Bus.Space

namespace Machine
open Bus (ByteOrder Space Part Width)

section
variable {call : Callback} {id : SpaceId} {s : Space Port} {m m' : Machine} {p : Part}
  {pattern : UInt8}

theorem bareSteady (bare : s.Bare pattern) (call : Callback) (id : SpaceId) : Steady call id s := by
  intro e mem port handler
  have plain := bare.plain e mem
  rw [handler] at plain
  exact absurd rfl plain

theorem readRun {block : Memory.BlockId} {offset : Nat} (order : ByteOrder)
    (enough : offset + p.width.bytes ≤ m.memory.blockLength block)
    (cells : ∀ i < p.width.bytes,
      (s.cell? m.memory (p.address + i)).map Prod.fst = some ⟨block, offset + i⟩) :
    m.readMemory order block offset p.width =
      some (order.assemble (p.addresses.map (s.seen m.memory pattern))) := by
  unfold readMemory
  rw [Memory.readCells p.width.bytesPos enough pattern, Option.map_some, Part.addresses,
    List.map_map]
  congr 2
  refine List.map_congr_left fun i mem => ?_
  obtain ⟨row, cell, same⟩ := Option.map_eq_some_iff.mp (cells i (List.mem_range.mp mem))
  simp [Space.seen, cell, same]

theorem handlerHeld (call : Callback) (housed : s.Housed m.memory) (fits : s.Fits p)
    (plain : (s.region p.address).handler.kind ≠ .callback) (pattern : UInt8) :
    ∃ answer, readHandler call s.shape.byteOrder (s.region p.address) p.address p.width m =
        some (answer, m) ∧
      (answer = some (s.shape.byteOrder.assemble (p.addresses.map (s.seen m.memory pattern))) ∧
          (s.region p.address).handler.inMemory = true ∨
        answer = none ∧ (s.region p.address).handler.inMemory = false ∧
          ∀ a ∈ p.addresses, s.cell? m.memory a = none) := by
  have cells := fun i => Space.cellPart housed.laid fits m.memory (i := i)
  have backs := Space.partBacks housed fits
  generalize s.region p.address = region at *
  unfold readHandler
  cases handler : region.handler with
  | ram block base | rom block base =>
    rw [handler] at cells backs
    refine ⟨_, rfl, .inl ⟨readRun _ (by rwa [Nat.add_assoc]) fun i inside => ?_, rfl⟩⟩
    rw [cells i inside, Nat.add_assoc]
    rfl
  | bank bankId =>
    rw [handler] at cells backs
    obtain ⟨bank, found, all⟩ := backs
    have enough := all bank.target (Array.getElem_mem bank.selected_lt)
    refine ⟨_, rfl, .inl ⟨?_, rfl⟩⟩
    rw [found]
    refine readRun _ (by rwa [Nat.add_assoc]) fun i inside => ?_
    rw [cells i inside, Bus.Handler.cell?, found, Nat.add_assoc]
    rfl
  | port port =>
    rw [handler] at plain
    exact absurd rfl plain
  | unmapped =>
    rw [handler] at cells
    refine ⟨none, rfl, .inr ⟨rfl, rfl, fun a mem => ?_⟩⟩
    obtain ⟨i, inside, rfl⟩ := List.mem_map.mp mem
    exact cells i (List.mem_range.mp inside)

theorem handlerSeen (call : Callback) (bare : s.Bare pattern) (housed : s.Housed m.memory)
    (fits : s.Fits p) :
    ∃ answer, readHandler call s.shape.byteOrder (s.region p.address) p.address p.width m =
        some (answer, m) ∧
      (answer = some (s.shape.byteOrder.assemble (p.addresses.map (s.seen m.memory pattern))) ∨
        answer = none ∧
          p.addresses.map (s.seen m.memory pattern) = List.replicate p.width.bytes pattern) := by
  obtain ⟨answer, handled, held⟩ := handlerHeld call housed fits (regionPlain bare.plain _) pattern
  refine ⟨answer, handled, held.imp And.left fun ⟨open_, _, gap⟩ => ⟨open_, ?_⟩⟩
  rw [List.eq_replicate_iff, List.length_map, Part.lengthAddresses]
  refine ⟨rfl, fun byte mem => ?_⟩
  obtain ⟨a, inside, rfl⟩ := List.mem_map.mp mem
  rw [Space.seen, gap a inside]
  rfl

theorem partSeen (call : Callback) (bare : s.Bare pattern) (housed : s.Housed m.memory)
    (shows_ : m.Shows id s) (fits : s.Fits p) : ∃ m', readPart call id s p m =
        some (s.shape.byteOrder.assemble (p.addresses.map (s.seen m.memory pattern)), m') ∧
      m'.memory = m.memory ∧ m'.Shows id s := by
  obtain ⟨answer, handled, seen⟩ := handlerSeen call bare housed fits
  rw [readPartEq, Run.bindSome handled]
  rcases seen with rfl | ⟨rfl, open_⟩
  · exact ⟨_, rfl, rfl, showsModify id (fun _ => rfl) shows_⟩
  · have after := showsUnmapped (f := (·.countRead)) (fun _ => rfl) s.shape.kind p.address false
      shows_
    obtain ⟨t, found, shape, -⟩ := showsInv after
    refine ⟨_, ?_, ?_, after⟩
    · unfold answered
      dsimp only
      rw [Run.modifyBind, Run.getBind, found, open_, Option.elim_some,
        Space.fixedFloats (shape ▸ bare.fixed)]
      rfl
    · exact (notedMemory (notedUnmapped ..)).trans rfl

theorem piecesSeen (call : Callback) (bare : s.Bare pattern) (housed : s.Housed m.memory)
    (shows_ : m.Shows id s) {parts : List Part} (fits : ∀ p ∈ parts, s.Fits p) :
    ∃ m', parts.mapM (readPiece call id s) m =
        some (parts.map fun p => p.addresses.map (s.seen m.memory pattern), m') ∧
      m'.memory = m.memory ∧ m'.Shows id s := by
  induction parts generalizing m with
  | nil => exact ⟨m, rfl, rfl, shows_⟩
  | cons p rest ih =>
    obtain ⟨m₁, ran, memory, shows_⟩ := partSeen call bare housed shows_
      (fits p (List.mem_cons_self ..))
    obtain ⟨m₂, rans, memory', shows_⟩ := ih (m := m₁) (memory ▸ housed) shows_
      fun p mem => fits p (List.mem_cons_of_mem _ mem)
    refine ⟨m₂, ?_, memory'.trans memory, shows_⟩
    have length : (p.addresses.map (s.seen m.memory pattern)).length = p.width.bytes := by
      rw [List.length_map, Part.lengthAddresses]
    have piece : readPiece call id s p m =
        some (p.addresses.map (s.seen m.memory pattern), m₁) := by
      rw [readPiece, Run.bindSome ran, ← length, ByteOrder.bytesAssemble]
      rfl
    rw [memory] at rans
    rw [List.mapM_cons, Run.bindSome piece, Run.bindSome rans]
    rfl

theorem readSeen (bare : s.Bare pattern) (housed : s.Housed m.memory) (shows_ : m.Shows id s)
    (call : Callback) (w : Width) (address : Nat) : ∃ m', read call id address w m =
        some (s.shape.byteOrder.assemble ((List.range w.bytes).map fun i =>
          s.seen m.memory pattern (s.shape.wrap (address + i))), m') ∧
      m'.memory = m.memory ∧ m'.Shows id s := by
  obtain ⟨parts, divided⟩ := s.divide w address
  obtain ⟨m', ran, same⟩ := piecesSeen call bare housed shows_ divided.fits
  refine ⟨m', ?_, same⟩
  rw [readDivided divided housed.laid (bareSteady bare call id) shows_, Run.bindSome ran,
    ← List.flatMap_def, ← List.map_flatMap, divided.covers, List.map_map]
  rfl

theorem writeAssembled (order : ByteOrder) (block : Memory.BlockId) (offset : Nat) {w : Width}
    {bytes : List UInt8} (length : bytes.length = w.bytes) :
    m.writeMemory order block offset w (order.assemble bytes) =
      { m with memory := m.memory.write block offset bytes } := by
  have same := order.bytesAssemble bytes
  rw [length] at same
  exact congrArg (fun bytes => { m with memory := m.memory.write block offset bytes }) same

inductive Driven (id : SpaceId) (m : Machine) : Machine → Prop where
  | same : Driven id m m
  | drive (value : Nat) : Driven id m (m.modifySpace id (·.drive value))

theorem drivenTrans {a b c : Machine} (first : Driven id a b) (rest : Driven id b c) :
    Driven id a c := by
  cases rest with
  | same => exact first
  | drive value =>
    cases first with
    | same => exact .drive value
    | drive old =>
      have again : (a.modifySpace id (·.drive old)).modifySpace id (·.drive value) =
          a.modifySpace id (·.drive value) := by
        unfold modifySpace
        rw [modifyTwice]
        rfl
      exact again ▸ .drive value

theorem drivenShows (driven : Driven id m m') (shows_ : m.Shows id s) : m'.Shows id s := by
  cases driven with
  | same => exact shows_
  | drive => exact showsModify id (fun _ => rfl) shows_

theorem drivenMemory (driven : Driven id m m') : m'.memory = m.memory := by cases driven <;> rfl

theorem drivenStored (driven : Driven id m m') (memory : Memory) :
    Driven id { m with memory } { m' with memory } := by
  cases driven with
  | same => exact .same
  | drive value => exact .drive value

theorem partStored (call : Callback) (laid : Bus.Laid s.shape.maxAddress s.entries)
    (shows_ : m.Shows id s) (fits : s.Fits p)
    (plain : (s.region p.address).handler.kind ≠ .callback) {bytes : List UInt8}
    (length : bytes.length = p.width.bytes) : ∃ m',
      writePart call id s p (s.shape.byteOrder.assemble bytes) m = some ((), m') ∧
        m'.memory = s.storeAll m.memory (p.addresses.zip bytes) ∧ m'.Shows id s ∧
        ((s.region p.address).handler.inMemory = true →
          Driven id { m with memory := m'.memory } m') := by
  have cells := fun i => Space.cellPart laid fits m.memory (i := i)
  generalize driven : m.modifySpace id (·.drive (s.shape.byteOrder.assemble bytes)) = m₁
  have drive : Driven id m m₁ := driven ▸ .drive _
  have shows₁ := drivenShows drive shows_
  rw [← drivenMemory drive] at cells ⊢
  rw [writePart, writeRegion, Run.modifyBind, driven]
  unfold writeHandler
  generalize s.region p.address = region at *
  cases handler : region.handler with
  | ram block base =>
    rw [handler] at cells
    refine ⟨_, congrArg (fun m => some ((), m)) (writeAssembled _ block _ length), ?_, shows₁,
      fun _ => drivenStored drive _⟩
    exact (Space.partStore length fun i inside => by rw [cells i inside, Nat.add_assoc]; rfl).symm
  | rom block base =>
    rw [handler] at cells
    refine ⟨_, rfl, (Space.partHeld (fun i inside c cell => ?_) bytes).symm, shows₁,
      fun _ => drivenStored drive _⟩
    rw [cells i inside] at cell
    cases cell
  | bank bankId =>
    rw [handler] at cells
    simp only [Bus.Handler.cell?] at cells
    dsimp only
    rw [Run.getBind]
    cases found : m₁.memory.bank? bankId with
    | none =>
      rw [found] at cells
      refine ⟨_, rfl, (Space.partHeld (fun i inside c cell => ?_) bytes).symm, shows₁,
        fun _ => drivenStored drive _⟩
      rw [cells i inside] at cell
      cases cell
    | some bank =>
      rw [found] at cells
      dsimp only
      cases locked : bank.readOnly with
      | true =>
        refine ⟨_, rfl, (Space.partHeld (fun i inside c cell => ?_) bytes).symm, shows₁,
          fun _ => drivenStored drive _⟩
        simp [cells i inside, locked] at cell
      | false =>
        refine ⟨_, congrArg (fun m => some ((), m)) (writeAssembled _ bank.target.1 _ length), ?_,
          shows₁, fun _ => drivenStored drive _⟩
        exact (Space.partStore length fun i inside => by
          simp [cells i inside, locked, Nat.add_assoc]).symm
  | port port =>
    rw [handler] at plain
    exact absurd rfl plain
  | unmapped =>
    rw [handler] at cells
    refine ⟨_, rfl, ?_, showsUnmapped (f := (·.countWrite)) (fun _ => rfl) s.shape.kind p.address
      true shows₁, fun held => by cases held⟩
    rw [Space.partHeld (fun i inside c cell => by rw [cells i inside] at cell; cases cell)]
    exact (notedMemory (notedUnmapped ..)).trans rfl

theorem partsStored (call : Callback) (laid : Bus.Laid s.shape.maxAddress s.entries)
    (shows_ : m.Shows id s) {parts : List Part} (fits : ∀ p ∈ parts, s.Fits p)
    (plain : ∀ p ∈ parts, (s.region p.address).handler.kind ≠ .callback)
    {bytes : List UInt8} (all : (parts.flatMap (·.addresses)).length = bytes.length) : ∃ m',
      (forM (Part.deal s.shape.byteOrder parts bytes) fun row =>
        writePart call id s row.1 row.2) m = some ((), m') ∧
      m'.memory = s.storeAll m.memory ((parts.flatMap (·.addresses)).zip bytes) ∧
        m'.Shows id s ∧
      ((∀ p ∈ parts, (s.region p.address).handler.inMemory = true) →
        Driven id { m with memory := m'.memory } m') := by
  induction parts generalizing m bytes with
  | nil => exact ⟨m, rfl, rfl, shows_, fun _ => .same⟩
  | cons p rest ih =>
    rw [List.flatMap_cons, List.length_append, Part.lengthAddresses] at all
    have length : (bytes.take p.width.bytes).length = p.width.bytes := by
      rw [List.length_take]
      omega
    obtain ⟨m₁, ran, memory, shows_, driven⟩ := partStored call laid shows_
      (fits p (List.mem_cons_self ..)) (plain p (List.mem_cons_self ..)) length
    have left : (rest.flatMap (·.addresses)).length = (bytes.drop p.width.bytes).length := by
      rw [List.length_drop]
      omega
    obtain ⟨m₂, rans, memory', shows_, driven'⟩ := ih (m := m₁) shows_
      (fun p mem => fits p (List.mem_cons_of_mem _ mem))
      (fun p mem => plain p (List.mem_cons_of_mem _ mem)) left
    refine ⟨m₂, ?_, ?_, shows_, fun grounded => ?_⟩
    · rw [Part.deal, List.forM_cons, Run.bindSome ran]
      exact rans
    · have zipped : ((p :: rest).flatMap (·.addresses)).zip bytes =
          p.addresses.zip (bytes.take p.width.bytes) ++
            (rest.flatMap (·.addresses)).zip (bytes.drop p.width.bytes) := by
        rw [List.flatMap_cons, ← List.zip_append (p.lengthAddresses.trans length.symm),
          List.take_append_drop]
      rw [memory', memory, zipped, Space.storeAll, Space.storeAll, Space.storeAll,
        List.foldl_append]
    · exact drivenTrans (drivenStored (driven (grounded p (List.mem_cons_self ..))) m₂.memory)
        (driven' fun p mem => grounded p (List.mem_cons_of_mem _ mem))

theorem writeStored (bare : s.Bare pattern) (laid : Bus.Laid s.shape.maxAddress s.entries)
    (shows_ : m.Shows id s) (call : Callback) (w : Width) (address value : Nat) : ∃ m',
      write call id address w value m = some ((), m') ∧
      m'.memory = s.storeAll m.memory (((List.range w.bytes).map fun i =>
        s.shape.wrap (address + i)).zip (s.shape.byteOrder.bytes w.bytes value)) ∧
          m'.Shows id s := by
  obtain ⟨parts, divided⟩ := s.divide w address
  obtain ⟨m', ran, memory, shows₁, -⟩ := partsStored call laid shows_ divided.fits
    (fun p _ => regionPlain bare.plain p.address)
    (divided.bytes.trans (s.shape.byteOrder.lengthBytes w.bytes value).symm)
  rw [divided.covers] at memory
  exact ⟨m', (writeDivided divided laid (bareSteady bare call id) shows_ value).1.trans ran,
    memory, shows₁⟩

theorem bytesSeen (bare : s.Bare pattern) (housed : s.Housed m.memory) (shows_ : m.Shows id s)
    (call : Callback) (addresses : List Nat) : ∃ m',
      (addresses.mapM fun a => read call id a .byte) m = some
        (addresses.map fun a => (s.seen m.memory pattern (s.shape.wrap a)).toNat, m') ∧
      m'.memory = m.memory := by
  induction addresses generalizing m with
  | nil => exact ⟨m, rfl, rfl⟩
  | cons a rest ih =>
    obtain ⟨m₁, ran, memory, shows_⟩ := readSeen bare housed shows_ call .byte a
    obtain ⟨m₂, rans, memory'⟩ := ih (m := m₁) (memory ▸ housed) shows_
    refine ⟨m₂, ?_, memory'.trans memory⟩
    rw [memory] at rans
    rw [List.mapM_cons, Run.bindSome ran, Run.bindSome rans]
    cases s.shape.byteOrder <;> simp [Width.bytes, ByteOrder.assemble] <;> rfl

theorem bytesStored (bare : s.Bare pattern) (laid : Bus.Laid s.shape.maxAddress s.entries)
    (shows_ : m.Shows id s) (call : Callback) (rows : List (Nat × UInt8)) : ∃ m',
      (forM rows fun row => write call id row.1 .byte row.2.toNat) m = some ((), m') ∧
      m'.memory = s.storeAll m.memory (rows.map fun row => (s.shape.wrap row.1, row.2)) := by
  induction rows generalizing m with
  | nil => exact ⟨m, rfl, rfl⟩
  | cons row rest ih =>
    obtain ⟨m₁, ran, memory, shows_⟩ := writeStored bare laid shows_ call .byte row.1 row.2.toNat
    obtain ⟨m₂, rans, memory'⟩ := ih (m := m₁) shows_
    refine ⟨m₂, ?_, ?_⟩
    · rw [List.forM_cons, Run.bindSome ran]
      exact rans
    · have one : s.shape.byteOrder.bytes 1 row.2.toNat = [row.2] := by
        cases s.shape.byteOrder <;> simp [ByteOrder.bytes, ByteOrder.byteAt]
      rw [memory', memory, Width.bytes, one]
      rfl

/-- In every state that is reached, an access of any width to a space without ports, whose open bus
shows a pattern, is the accesses to its bytes. It reads the value of the bytes at its addresses,
in the order of the space, which fits its width, and leaves memory as it was. It writes what the
bytes of its value write one after the other. How wide the bus is, and how the map is cut over
the same cells, makes no difference. -/
theorem wideBytes {rule : Rule} (reached : Reachable rule m) (found : m.space? id = some s)
    (bare : s.Bare pattern) (call : Callback) (w : Width) (address : Nat) :
    let order := s.shape.byteOrder
    let addresses := (List.range w.bytes).map fun i => (address + i) &&& s.shape.maxAddress
    (∃ value values m₁ m₂, read call id address w m = some (value, m₁) ∧
        (addresses.mapM fun a => read call id a .byte) m = some (values, m₂) ∧
        value = order.assemble (values.map UInt8.ofNat) ∧ (∀ x ∈ values, x ≤ Width.byte.mask) ∧
        value ≤ w.mask ∧ m₁.memory = m.memory ∧ m₂.memory = m.memory) ∧
      (∀ value, ∃ m₁ m₂, write call id address w value m = some ((), m₁) ∧
        (forM (addresses.zip (order.bytes w.bytes value)) fun row =>
          write call id row.1 .byte row.2.toNat) m = some ((), m₂) ∧ m₁.memory = m₂.memory) ∧
      ∀ (rule' : Rule) (n : Machine) (other : SpaceId) (t : Space Port), Reachable rule' n →
        n.space? other = some t → t.Bare pattern → t.shape.byteOrder = order →
        t.shape.maxAddress = s.shape.maxAddress → n.memory = m.memory →
        (∀ a, t.cell? m.memory a = s.cell? m.memory a) →
          (∃ value m₁ m₂, read call id address w m = some (value, m₁) ∧
            read call other address w n = some (value, m₂)) ∧
          ∀ value, ∃ m₁ m₂, write call id address w value m = some ((), m₁) ∧
            write call other address w value n = some ((), m₂) ∧ m₁.memory = m₂.memory := by
  intro order addresses
  have housed := (reachableHoused reached).spaces id s found
  have shows_ := showsFound found
  have wrapped : addresses.map s.shape.wrap = addresses := by
    simp [addresses, wrapMask, wrapTwice]
  refine ⟨?_, fun value => ?_, ?_⟩
  · obtain ⟨m₁, ran, memory, -⟩ := readSeen bare housed shows_ call w address
    obtain ⟨m₂, rans, memory'⟩ := bytesSeen bare housed shows_ call addresses
    refine ⟨_, _, m₁, m₂, ran, rans, ?_, fun x mem => ?_, ?_, memory, memory'⟩
    · simp [addresses, order, wrapMask, wrapTwice, Function.comp_def]
    · obtain ⟨a, -, rfl⟩ := List.mem_map.mp mem
      exact Nat.le_of_lt_succ (UInt8.toNat_lt _)
    · have bound := s.shape.byteOrder.assembleLt ((List.range w.bytes).map fun i =>
        s.seen m.memory pattern (s.shape.wrap (address + i)))
      rw [List.length_map, List.length_range, ← w.sizeSpan] at bound
      exact Nat.le_sub_one_of_lt bound
  · obtain ⟨m₁, ran, memory, -⟩ := writeStored bare housed.laid shows_ call w address value
    obtain ⟨m₂, rans, memory'⟩ := bytesStored bare housed.laid shows_ call
      (addresses.zip (order.bytes w.bytes value))
    have zipped : (addresses.map s.shape.wrap).zip (order.bytes w.bytes value) = _ :=
      List.zip_map_left
    rw [wrapped] at zipped
    refine ⟨m₁, m₂, ran, rans, memory.trans (.trans ?_ memory'.symm)⟩
    simp only [addresses, wrapMask] at zipped ⊢
    exact congrArg _ zipped
  · rintro rule' n other t reached' found' bare' orders tops memories cells
    have housed' := (reachableHoused reached').spaces other t found'
    have shows' := showsFound found'
    have wraps : t.shape.wrap = s.shape.wrap := by
      funext a
      rw [← wrapMask, ← wrapMask, tops]
    refine ⟨?_, fun value => ?_⟩
    · obtain ⟨m₁, ran, -⟩ := readSeen bare housed shows_ call w address
      obtain ⟨m₂, ran', -⟩ := readSeen bare' housed' shows' call w address
      rw [orders, wraps, memories, Space.seenSame cells] at ran'
      exact ⟨_, m₁, m₂, ran, ran'⟩
    · obtain ⟨m₁, ran, memory, -⟩ := writeStored bare housed.laid shows_ call w address value
      obtain ⟨m₂, ran', memory', -⟩ := writeStored bare' housed'.laid shows' call w address value
      rw [orders, wraps, memories, Space.storeAllSame cells, ← memory] at memory'
      exact ⟨m₁, m₂, ran, ran', memory'.symm⟩

end

section
def lay (m : Machine) (id : SpaceId) (first last : Nat) (handler : Bus.Handler Port) : Machine :=
  (m.map false id first last handler).toOption.getD m

theorem Reachable.lay {rule : Rule} {m : Machine} (before : Reachable rule m) {id : SpaceId}
    {first last : Nat} {handler : Bus.Handler Port} (stands : handler.Stands m.memory) :
    Reachable rule (m.lay id first last handler) := by
  unfold Machine.lay
  cases ok : m.map false id first last handler with
  | ok m' => exact before.map stands ok
  | error e => exact before

def plotWhole : Space Port :=
  { name := "whole"
    shape := ⟨.program, 8, .byte, .little, .fixed 0xA5⟩
    entries := [⟨0x10, 0x2F, 0x10, .ram ⟨0⟩ 0⟩] }

def plotCut : Space Port :=
  { name := "cut"
    shape := ⟨.program, 8, .dword, .little, .fixed 0xA5⟩
    entries := [⟨0x10, 0x1E, 0x10, .ram ⟨0⟩ 0⟩, ⟨0x1F, 0x2F, 0x1F, .ram ⟨0⟩ 0xF⟩] }

def plot : Machine :=
  let m : Machine := { config := {}, memory := Memory.putBlock {} (.filled "ram" 0x20 7) }
  let m := ((m.newSpace ⟨"whole", plotWhole.shape⟩).1.newSpace ⟨"cut", plotCut.shape⟩).1
  ((m.lay ⟨0⟩ 0x10 0x2F (.ram ⟨0⟩ 0)).lay ⟨1⟩ 0x10 0x1E (.ram ⟨0⟩ 0)).lay ⟨1⟩ 0x1F 0x2F
    (.ram ⟨0⟩ 0xF)

theorem plotReached : Reachable free plot := by
  have fresh : Reachable free { config := {} } := .new {}
  have filled := fresh.block (.filled "ram" 0x20 7) (by decide)
  unfold plot
  refine .lay (.lay (.lay (.space _ (.space _ filled)) ?_) ?_) ?_ <;> rfl

theorem plotCells (a : Nat) :
    plotCut.cell? plot.memory a = plotWhole.cell? plot.memory a := by
  have wrapped : ∀ (s : Space Port),
      s.cell? plot.memory (s.shape.wrap a) = s.cell? plot.memory a := by
    intro s
    unfold Space.cell?
    rw [wrapTwice]
  have all : ∀ b < 256, plotCut.cell? plot.memory b = plotWhole.cell? plot.memory b := by
    decide +kernel
  rw [← wrapped, ← wrapped]
  exact all _ (plotCut.shape.wrap_lt a)

theorem plotBytes : Reachable free plot ∧ plot.space? ⟨0⟩ = some plotWhole ∧
    plot.space? ⟨1⟩ = some plotCut ∧ ∃ value values m₁ m₂ m₃,
      read (invoke 1) ⟨0⟩ 0x10E .dword plot = some (value, m₁) ∧
      ([0x0E, 0x0F, 0x10, 0x11].mapM fun a => read (invoke 1) ⟨0⟩ a .byte) plot =
        some (values, m₂) ∧
      value = ByteOrder.little.assemble (values.map UInt8.ofNat) ∧
      read (invoke 1) ⟨1⟩ 0x10E .dword plot = some (value, m₃) := by
  have whole : plotWhole.Bare 0xA5 := ⟨by simp [plotWhole, Bus.Handler.kind], rfl⟩
  have cut : plotCut.Bare 0xA5 := ⟨by simp [plotCut, Bus.Handler.kind], rfl⟩
  have found : plot.space? ⟨0⟩ = some plotWhole := rfl
  obtain ⟨⟨value, values, m₁, m₂, ran, rans, same, -⟩, -, alike⟩ :=
    wideBytes plotReached found whole (invoke 1) .dword 0x10E
  obtain ⟨⟨value', m₁', m₃, ran', other⟩, -⟩ :=
    alike free plot ⟨1⟩ plotCut plotReached rfl cut rfl rfl rfl plotCells
  cases ran.symm.trans ran'
  exact ⟨plotReached, found, rfl, value, values, m₁, m₂, m₃, ran, rans, same, other⟩

end

end Machine

end Lockstep
