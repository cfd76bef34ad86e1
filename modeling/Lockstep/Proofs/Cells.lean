import Lockstep.Machine.Advance
import Lockstep.Proofs.Solo

/-! Spaces that lead to memory or to nothing. An address then stands for a byte of a block,
so an access of a processor reads or changes that byte and leaves everything but bus
counters and diagnostics as it was. -/
namespace Lockstep

structure Cell where
  block : Memory.BlockId
  offset : Nat
  deriving DecidableEq, Repr

def Memory.byte? (m : Memory) (c : Cell) : Option UInt8 :=
  (m.block? c.block).bind (·.get? c.offset)

namespace Bus

def Handler.cell? {κ : Type} (memory : Memory) (offset : Nat) : Handler κ → Option (Cell × Bool)
  | .ram block base => some (⟨block, base + offset⟩, true)
  | .rom block base => some (⟨block, base + offset⟩, false)
  | .bank id => (memory.bank? id).map fun bank =>
      (⟨bank.target.1, bank.target.2 + offset⟩, !bank.readOnly)
  | .port _ | .unmapped => none

def Space.cell? {κ : Type} (s : Space κ) (memory : Memory) (address : Nat) :
    Option (Cell × Bool) :=
  let region := s.region (s.shape.wrap address)
  region.handler.cell? memory (s.shape.wrap address - region.origin)

def Space.layout {κ : Type} (s : Space κ) : Shape × List (Entry κ) := (s.shape, s.entries)

end Bus

structure Wiring where
  program : SpaceId
  io : SpaceId
  deriving DecidableEq, Repr

namespace Machine
open Bus (Space)

def cellAt? (m : Machine) (id : SpaceId) (address : Nat) : Option (Cell × Bool) :=
  (m.space? id).bind (·.cell? m.memory address)

def cell? (m : Machine) (w : Wiring) : Reach → Option (Cell × Bool)
  | .program a => m.cellAt? w.program a.toNat
  | .io a => m.cellAt? w.io a.toNat

def bytes (m : Machine) (w : Wiring) : Bytes := fun a =>
  (m.cell? w a).bind fun (c, _) => m.memory.byte? c

def shares (m : Machine) (w : Wiring) (a b : Reach) : Bool :=
  match m.cell? w a, m.cell? w b with
  | some (c, true), some (d, _) => decide (c = d)
  | _, _ => false

def Leads (m : Machine) (id : SpaceId) (shape : Bus.Shape) : Prop :=
  ∃ s, m.space? id = some s ∧ s.shape = shape ∧ ∀ e ∈ s.entries, e.handler.kind ≠ .callback

structure Wired (m : Machine) (w : Wiring) : Prop where
  program : m.Leads w.program Acc8.programShape
  io : m.Leads w.io Acc8.ioShape

structure Ported (w : Wiring) (m m' : Machine) : Prop where
  frame : m'.frame = m.frame
  budget : m'.budget = m.budget
  units : m'.units = m.units
  tree : m'.tree = m.tree
  timers : m'.timers = m.timers
  banks : m'.memory.banks = m.memory.banks
  layout : ∀ id, (m'.space? id).map (·.layout) = (m.space? id).map (·.layout)
  bytes : ∀ c, (∀ a, m.cell? w a ≠ some (c, true)) → m'.memory.byte? c = m.memory.byte? c

variable {m m' a b c : Machine} {w : Wiring} {id : SpaceId}

theorem cellAtSame (banks : m'.memory.banks = m.memory.banks)
    (layout : (m'.space? id).map (·.layout) = (m.space? id).map (·.layout)) (address : Nat) :
    m'.cellAt? id address = m.cellAt? id address := by
  have handlers : ∀ (offset : Nat) (h : Bus.Handler Port),
      h.cell? m'.memory offset = h.cell? m.memory offset := by
    intro offset h
    cases h with
    | bank id => simp only [Bus.Handler.cell?, Memory.bank?, banks]
    | _ => rfl
  unfold cellAt?
  cases found : m.space? id with
  | none =>
    rw [found, Option.map_none, Option.map_eq_none_iff] at layout
    rw [layout]
    rfl
  | some s =>
    rw [found, Option.map_some] at layout
    obtain ⟨s', found', same⟩ := Option.map_eq_some_iff.mp layout
    obtain ⟨shape, entries⟩ := Prod.mk.inj same
    rw [found']
    simp only [Option.bind_some, Space.cell?, Space.region, shape, entries, handlers]

theorem cellSame (banks : m'.memory.banks = m.memory.banks)
    (layout : ∀ id, (m'.space? id).map (·.layout) = (m.space? id).map (·.layout)) :
    m'.cell? w = m.cell? w := by
  funext a
  cases a with
  | program a => exact cellAtSame banks (layout w.program) a.toNat
  | io a => exact cellAtSame banks (layout w.io) a.toNat

theorem sharesSame (cells : m'.cell? w = m.cell? w) : m'.shares w = m.shares w := by
  funext a b
  unfold shares
  rw [cells]

theorem leadsSame {shape : Bus.Shape}
    (layout : (m'.space? id).map (·.layout) = (m.space? id).map (·.layout))
    (h : m.Leads id shape) : m'.Leads id shape := by
  obtain ⟨s, found, shaped, plain⟩ := h
  rw [found, Option.map_some] at layout
  obtain ⟨s', found', same⟩ := Option.map_eq_some_iff.mp layout
  obtain ⟨shape', entries⟩ := Prod.mk.inj same
  refine ⟨s', found', shape'.trans shaped, ?_⟩
  rw [entries]
  exact plain

namespace Ported

theorem cells (h : Ported w a b) : b.cell? w = a.cell? w := cellSame h.banks h.layout

theorem refl (w : Wiring) (m : Machine) : Ported w m m :=
  ⟨rfl, rfl, rfl, rfl, rfl, rfl, fun _ => rfl, fun _ _ => rfl⟩

theorem trans (first : Ported w a b) (rest : Ported w b c) : Ported w a c := by
  refine ⟨rest.frame.trans first.frame, rest.budget.trans first.budget,
    rest.units.trans first.units, rest.tree.trans first.tree, rest.timers.trans first.timers,
    rest.banks.trans first.banks, fun id => (rest.layout id).trans (first.layout id),
    fun cell outside => ?_⟩
  rw [rest.bytes cell, first.bytes cell outside]
  rw [first.cells]
  exact outside

end Ported

def Noted (m m' : Machine) : Prop := ∃ diag journal, m' = { m with diag, journal }

theorem notedTrans (first : Noted a b) (rest : Noted b c) : Noted a c := by
  obtain ⟨_, _, rfl⟩ := first
  obtain ⟨diag, journal, rfl⟩ := rest
  exact ⟨diag, journal, rfl⟩

theorem notedCount (m : Machine) (f : Diag → Diag) : Noted m (m.count f) :=
  ⟨f m.diag, m.journal, rfl⟩

theorem notedTrace (m : Machine) (event : TraceEvent) : Noted m (m.trace event) := by
  unfold Machine.trace
  split
  · split
    · exact ⟨m.diag, _, rfl⟩
    · exact ⟨m.diag, m.journal, rfl⟩
  · exact ⟨m.diag, m.journal, rfl⟩

theorem portedNoted (h : Noted m m') : Ported w m m' := by
  obtain ⟨diag, journal, rfl⟩ := h
  exact ⟨rfl, rfl, rfl, rfl, rfl, rfl, fun _ => rfl, fun _ _ => rfl⟩

theorem notedUnmapped (m : Machine) (kind : Bus.SpaceKind) (address : Nat) (write : Bool) :
    Noted m (m.noteUnmapped kind address write) :=
  notedTrans (notedCount m (·.unmapped write)) (notedTrace _ _)

theorem notedMemory (h : Noted m m') : m'.memory = m.memory := by
  obtain ⟨diag, journal, rfl⟩ := h
  rfl

theorem spacePorted (w : Wiring) (m : Machine) (id : SpaceId) {f : Space Port → Space Port}
    (same : ∀ s, (f s).layout = s.layout) : Ported w m (m.modifySpace id f) := by
  refine ⟨rfl, rfl, rfl, rfl, rfl, rfl, fun other => ?_, fun _ _ => rfl⟩
  simp only [Machine.modifySpace, space?, Array.getElem?_modify]
  split
  · simp only [Option.map_map]
    congr 1
    funext s
    exact same s
  · rfl

theorem readOne (m : Machine) (order : Bus.ByteOrder) (block : Memory.BlockId) (offset : Nat) :
    m.readMemory order block offset .byte = (m.memory.byte? ⟨block, offset⟩).map UInt8.toNat := by
  unfold readMemory Memory.read? Memory.byte?
  cases m.memory.block? block with
  | none => rfl
  | some b =>
    simp only [Option.bind_eq_bind, Option.bind_some, Bus.Width.bytes, List.range_one,
      List.mapM_cons, List.mapM_nil, Nat.add_zero]
    cases b.get? offset with
    | none => rfl
    | some byte => cases order <;> simp [Bus.ByteOrder.assemble]

variable {call : Callback}

theorem readHandlerByte {region : Bus.Region Port} (plain : region.handler.kind ≠ .callback)
    (order : Bus.ByteOrder) (address : Nat) :
    readHandler call order region address .byte m =
      some (((region.handler.cell? m.memory (address - region.origin)).bind fun row =>
        m.memory.byte? row.1).map UInt8.toNat, m) := by
  unfold readHandler
  cases handler : region.handler with
  | ram block base | rom block base =>
    dsimp only
    rw [Run.getBind, readOne]
    rfl
  | bank id =>
    dsimp only
    rw [Run.getBind]
    simp only [Bus.Handler.cell?, readOne]
    cases m.memory.bank? id <;> rfl
  | port p =>
    rw [handler] at plain
    exact absurd rfl plain
  | unmapped => rfl

theorem regionOf {s : Space Port} {P : Bus.Handler Port → Prop} (hole : P .unmapped)
    (all : ∀ e ∈ s.entries, P e.handler) (address : Nat) : P (s.region address).handler := by
  have from_ : ∀ (entries : List (Bus.Entry Port)) (floor : Nat), (∀ e ∈ entries, P e.handler) →
      P (Space.regionFrom s.shape.maxAddress address floor entries).handler := by
    intro entries
    induction entries with
    | nil => exact fun _ _ => hole
    | cons e rest ih =>
      intro floor all
      unfold Space.regionFrom
      split
      · exact ih _ fun x mem => all x (List.mem_cons_of_mem _ mem)
      · split
        · exact all e (List.mem_cons_self ..)
        · exact hole
  exact from_ s.entries 0 all

theorem cellAtFound {s : Space Port} (found : m.space? id = some s) (address : Nat) :
    m.cellAt? id address = (s.region (s.shape.wrap address)).handler.cell? m.memory
      (s.shape.wrap address - (s.region (s.shape.wrap address)).origin) := by
  rw [cellAt?, found]
  rfl

theorem regionPlain {s : Space Port} (plain : ∀ e ∈ s.entries, e.handler.kind ≠ .callback)
    (address : Nat) : (s.region address).handler.kind ≠ .callback :=
  regionOf (P := fun h => h.kind ≠ .callback) (fun h => by cases h) plain address

theorem readByte {shape : Bus.Shape} (leads : m.Leads id shape)
    (pattern : shape.openBus = .fixed 0xFF) {address value : Nat}
    (h : read call id address .byte m = some (value, m')) :
    value = ((m.cellAt? id address).bind fun row => m.memory.byte? row.1).elim 0xFF UInt8.toNat ∧
      m'.memory = m.memory ∧ Ported w m m' := by
  obtain ⟨s, found, rfl, plain⟩ := leads
  change readRank call id 0 address m = _ at h
  unfold readRank at h
  rw [Run.getBind, found] at h
  unfold readRegion at h
  obtain ⟨driven, m₁, handled, h⟩ := Run.bindInv h
  rw [readHandlerByte (regionPlain plain _)] at handled
  cases handled
  have cell := cellAtFound found address
  rw [← cell] at h
  cases byte : (m.cellAt? id address).bind fun row => m.memory.byte? row.1 with
  | some byte =>
    rw [byte] at h
    cases h
    exact ⟨rfl, rfl, spacePorted w m id fun _ => rfl⟩
  | none =>
    rw [byte] at h
    dsimp only [Option.map_none] at h
    rw [Run.modifyBind, Run.getBind] at h
    cases h
    have counted := spacePorted w m id (f := (·.countRead)) fun _ => rfl
    have all := counted.trans (portedNoted (w := w) (notedUnmapped _ s.shape.kind (s.shape.wrap address) false))
    refine ⟨?_, (notedMemory (notedUnmapped ..)).trans rfl, all⟩
    have layout := all.layout id
    rw [found, Option.map_some] at layout
    obtain ⟨s', found', same⟩ := Option.map_eq_some_iff.mp layout
    rw [found']
    have shape := (Prod.mk.inj same).1
    simp only [Option.elim, Space.floating, shape, pattern]
    rfl

theorem byteWrite (memory : Memory) (target c : Cell) (value : UInt8) :
    (memory.write target.block target.offset [value]).byte? c =
      if c = target then (memory.byte? c).map fun _ => value else memory.byte? c := by
  obtain ⟨⟨block⟩, offset⟩ := c
  obtain ⟨⟨block'⟩, offset'⟩ := target
  simp only [Memory.byte?, Memory.write, Memory.block?, Array.getElem?_modify, Cell.mk.injEq,
    Memory.BlockId.mk.injEq]
  by_cases same : block' = block
  · subst same
    cases memory.blocks[block']? with
    | none => simp
    | some b =>
      by_cases here : offset' = offset
      · subst here
        by_cases inside : offset' < b.length
        · have some : b.get? offset' = Option.some b.bytes[offset'] :=
            Array.getElem?_eq_getElem inside
          simp [Memory.Block.setAll, Memory.Block.get?_set, inside, some]
        · have none : b.get? offset' = Option.none :=
            Array.getElem?_eq_none (Nat.le_of_not_lt inside)
          simp [Memory.Block.setAll, Memory.Block.get?_set, inside, none]
      · simp [Memory.Block.setAll, Memory.Block.get?_set, here, Ne.symm here]
  · simp [same, Ne.symm same]

theorem writeHandlerByte {s : Space Port} {region : Bus.Region Port}
    (plain : region.handler.kind ≠ .callback) {address : Nat} {value : UInt8} {u : Unit}
    (h : writeHandler call id s region address .byte value.toNat m = some (u, m')) :
    (∃ c, region.handler.cell? m.memory (address - region.origin) = some (c, true) ∧
      m' = { m with memory := m.memory.write c.block c.offset [value] }) ∨
    ((∀ c, region.handler.cell? m.memory (address - region.origin) ≠ some (c, true)) ∧
      m'.memory = m.memory ∧ Ported w m m') := by
  have bytes : (List.range Bus.Width.byte.bytes).map
      (s.shape.byteOrder.byteAt Bus.Width.byte.bytes value.toNat) = [value] := by
    cases s.shape.byteOrder <;> simp [Bus.Width.bytes, Bus.ByteOrder.byteAt]
  unfold writeHandler at h
  cases handler : region.handler with
  | ram block base =>
    rw [handler] at h
    cases h
    refine .inl ⟨_, rfl, ?_⟩
    simp only [writeMemory, bytes]
  | rom block base =>
    rw [handler] at h
    cases h
    exact .inr ⟨(fun _ h => by cases h), rfl, .refl w m⟩
  | bank bank =>
    rw [handler] at h
    dsimp only at h
    rw [Run.getBind] at h
    simp only [Bus.Handler.cell?]
    cases found : m.memory.bank? bank with
    | none =>
      rw [found] at h
      cases h
      exact .inr ⟨(fun _ h => by cases h), rfl, .refl w m⟩
    | some b =>
      rw [found] at h
      dsimp only at h
      cases locked : b.readOnly with
      | true =>
        rw [locked] at h
        cases h
        refine .inr ⟨fun c same => ?_, rfl, .refl w m⟩
        simp [locked] at same
      | false =>
        rw [locked] at h
        cases h
        refine .inl ⟨⟨b.target.1, b.target.2 + (address - region.origin)⟩, ?_, ?_⟩
        · simp [locked]
        · simp only [writeMemory, bytes]
  | port p =>
    rw [handler] at plain
    exact absurd rfl plain
  | unmapped =>
    rw [handler] at h
    cases h
    exact .inr ⟨(fun _ h => by cases h), (notedMemory (notedUnmapped ..)).trans rfl, (spacePorted w m id (f := (·.countWrite)) fun _ =>
      rfl).trans (portedNoted (notedUnmapped ..))⟩

theorem writeByte {shape : Bus.Shape} (leads : m.Leads id shape) {address : Nat} {value : UInt8}
    {u : Unit} (reached : ∃ a, m.cell? w a = m.cellAt? id address)
    (h : write call id address .byte value.toNat m = some (u, m')) :
    Ported w m m' ∧ ∀ c, m'.memory.byte? c =
      if m.cellAt? id address = some (c, true) then (m.memory.byte? c).map fun _ => value
      else m.memory.byte? c := by
  obtain ⟨s, found, rfl, plain⟩ := leads
  change writeRank call id 0 address value.toNat m = _ at h
  unfold writeRank at h
  rw [Run.getBind, found] at h
  unfold writeRegion at h
  rw [show value.toNat % Bus.Width.byte.size = value.toNat from
    Nat.mod_eq_of_lt value.toNat_lt] at h
  dsimp only at h
  rw [Run.modifyBind] at h
  have driven := spacePorted w m id (f := (·.drive value.toNat)) fun _ => rfl
  have cell := cellAtFound found address
  rcases writeHandlerByte (w := w) (regionPlain plain _) h with ⟨c, here, rfl⟩ | ⟨none, memory, rest⟩
  · have here : m.cellAt? id address = some (c, true) := cell.trans here
    have bytes : ∀ d, (m.memory.write c.block c.offset [value]).byte? d =
        if m.cellAt? id address = some (d, true) then (m.memory.byte? d).map fun _ => value
        else m.memory.byte? d := by
      intro d
      rw [byteWrite, here]
      by_cases same : d = c
      · rw [if_pos same, if_pos (by rw [same])]
      · rw [if_neg same, if_neg fun h => same (by cases h; rfl)]
    refine ⟨driven.trans ⟨rfl, rfl, rfl, rfl, rfl, rfl, fun _ => rfl, fun d outside => ?_⟩, bytes⟩
    obtain ⟨a, reached⟩ := reached
    rw [← driven.cells] at reached
    refine (bytes d).trans (if_neg fun hit => outside a ?_)
    rw [reached]
    exact hit
  · refine ⟨driven.trans rest, fun d => ?_⟩
    rw [if_neg fun hit => none d (cell.symm.trans hit), memory]
    rfl

def Mirrors (w : Wiring) (origin : Machine) (α : Type) (x : Run α) (y : StateM Bytes α) : Prop :=
  ∀ m, Ported w origin m → ∀ a m', x m = some (a, m') →
    a = (y (m.bytes w)).1 ∧ Ported w origin m' ∧ m'.bytes w = (y (m.bytes w)).2

theorem readMirrors {origin : Machine} {shape : Bus.Shape} (leads : origin.Leads id shape)
    (pattern : shape.openBus = .fixed 0xFF) {address : Nat} {a : Reach}
    (reached : ∀ m : Machine, m.cell? w a = m.cellAt? id address) :
    Mirrors w origin UInt8 (do return UInt8.ofNat (← read call id address .byte))
      (do return ((← get) a).getD 0xFF) := by
  intro m from_ value m' h
  obtain ⟨number, m₁, h, rest⟩ := Run.bindInv h
  cases rest
  obtain ⟨rfl, memory, ported⟩ := readByte (w := w) (leadsSame (from_.layout id) leads) pattern h
  have bytes : m'.bytes w = m.bytes w := by
    funext b
    rw [Machine.bytes, ported.cells, memory]
    rfl
  refine ⟨?_, from_.trans ported, bytes⟩
  change _ = (m.bytes w a).getD 0xFF
  rw [Machine.bytes, reached]
  cases (m.cellAt? id address).bind fun row => m.memory.byte? row.1 with
  | none => rfl
  | some byte => exact UInt8.ofNat_toNat

theorem writeMirrors {origin : Machine} {shape : Bus.Shape} (leads : origin.Leads id shape)
    {address : Nat} {a : Reach} (reached : ∀ m : Machine, m.cell? w a = m.cellAt? id address)
    (value : UInt8) :
    Mirrors w origin Unit (write call id address .byte value.toNat)
      (modify (Solo.poke (origin.shares w) a value)) := by
  intro m from_ u m' h
  obtain ⟨ported, changed⟩ := writeByte (leadsSame (from_.layout id) leads) ⟨a, reached m⟩ h
  refine ⟨rfl, from_.trans ported, ?_⟩
  funext b
  change _ = Solo.poke (origin.shares w) a value (m.bytes w) b
  rw [Solo.poke, ← sharesSame from_.cells, shares, Machine.bytes, Machine.bytes, ported.cells]
  cases target : m.cell? w b with
  | none => cases m.cell? w a <;> simp
  | some row =>
    simp only [Option.bind_some, changed, ← reached]
    cases m.cell? w a with
    | none => simp
    | some own =>
      obtain ⟨c, writes⟩ := own
      cases writes <;> simp

theorem portMirrors {origin : Machine} (wired : origin.Wired w) :
    Acc8.Port.Related (Mirrors w origin) (acc8Port call w.program w.io)
      (Solo.port (origin.shares w)) := by
  refine ⟨fun a m from_ b m' h => ?_, fun first rest m from_ b m' h => ?_,
    fun a => readMirrors wired.program rfl fun m => rfl,
    fun a v => writeMirrors wired.program (fun m => rfl) v,
    fun a => readMirrors wired.io rfl fun m => rfl,
    fun a v => writeMirrors wired.io (fun m => rfl) v⟩
  · cases h
    exact ⟨rfl, from_, rfl⟩
  · obtain ⟨a, m₁, h₁, h₂⟩ := Run.bindInv h
    obtain ⟨same, from_, bytes⟩ := first m from_ a m₁ h₁
    obtain ⟨same', from_, bytes'⟩ := rest a m₁ from_ b m' h₂
    rw [same, bytes] at same' bytes'
    exact ⟨same', from_, bytes'⟩

end Machine

end Lockstep
