import Lockstep.Proofs.Fixtures

/-! The stack page of a processor, where it is plain memory. Each address of it leads to a byte of
its own for as long as the machine runs, since maps are closed when it starts; what is written there
is read there, and an access to it does nothing else that matters. -/
namespace Lockstep

namespace Acc8

def stackAt (offset : UInt8) : UInt16 := stackPage + offset.toUInt16

end Acc8

namespace Machine
open Acc8 (stackAt)

def ramAt? (m : Machine) (id : SpaceId) (address : Nat) : Option Cell :=
  (m.space? id).bind fun s =>
    let region := s.region (s.shape.wrap address)
    match region.handler with
    | .ram block base => some ⟨block, base + (s.shape.wrap address - region.origin)⟩
    | _ => none

/-- The stack page is plain memory: every address of it has a byte for itself. -/
structure StackPage (program : SpaceId) (cells : UInt8 → Cell) (m : Machine) : Prop where
  closed : m.Sealed
  plain : ∀ offset, m.ramAt? program (stackAt offset).toNat = some (cells offset)
  apart : ∀ {one other}, cells one = cells other → one = other
  backed : ∀ offset, (m.memory.byte? (cells offset)).isSome = true

section
variable {a b m m' : Machine} {program io id : SpaceId} {cells : UInt8 → Cell} {depth : Nat}

theorem ramSame (layout : (b.space? id).map (·.layout) = (a.space? id).map (·.layout)) (address : Nat) :
    b.ramAt? id address = a.ramAt? id address := by
  unfold ramAt?
  cases found : a.space? id with
  | none =>
    rw [found, Option.map_none, Option.map_eq_none_iff] at layout
    rw [layout]
  | some s =>
    rw [found, Option.map_some] at layout
    obtain ⟨t, found', same⟩ := Option.map_eq_some_iff.mp layout
    obtain ⟨shape, entries⟩ := Prod.mk.inj same
    rw [found']
    simp only [Option.bind_some, Bus.Space.region, shape, entries]

theorem fixturesLayout (same : b.fixtures = a.fixtures) (id : SpaceId) :
    (b.space? id).map (·.layout) = (a.space? id).map (·.layout) := by
  have rows := congrArg (fun f => (f.spaces[id.index]?).map (·.layout)) same
  simpa [fixtures, space?, Function.comp_def, Bus.Space.unused, Bus.Space.layout] using rows

theorem blankBacked (memory : Memory) (c : Cell) :
    (memory.blank.byte? c).isSome = (memory.byte? c).isSome := by
  simp only [Memory.byte?, Memory.block?, Memory.blank, Array.getElem?_map]
  cases memory.blocks[c.block.index]? with
  | none => rfl
  | some b =>
    change (Array.replicate b.bytes.size (0 : UInt8))[c.offset]?.isSome = (b.bytes[c.offset]?).isSome
    by_cases inside : c.offset < b.bytes.size
    · simp [inside]
    · simp [Nat.le_of_not_lt inside]

namespace StackPage

theorem fixed (page : StackPage program cells a) (closed : b.Sealed) (same : b.fixtures = a.fixtures) :
    StackPage program cells b := by
  refine ⟨closed, fun offset => ?_, page.apart, fun offset => ?_⟩
  · rw [ramSame (fixturesLayout same program)]
    exact page.plain offset
  · have blank : b.memory.blank = a.memory.blank := congrArg Fixtures.memory same
    rw [← blankBacked, blank, blankBacked]
    exact page.backed offset

theorem steps (page : StackPage program cells a) (steps : Steps free a b) :
    StackPage program cells b := by
  obtain ⟨closed, same⟩ := stepsFixtures page.closed steps
  exact page.fixed closed same

end StackPage

theorem portSteps (depth : Nat) (program io : SpaceId) :
    Acc8.Port.Related (fun _ x y => ∀ m, Run.Follows (Steps free) x y m)
      (acc8Port (invoke depth) program io) (acc8Port (invoke depth) program io) := by
  have calls := invokeSteps free depth
  rw [invokeFree] at calls
  exact (stepsCarries free).bears.acc8Port calls program io

variable {call : Callback} {value : UInt8} {address : Nat} {c : Cell}

theorem ramInv (found : m.ramAt? id address = some c) : ∃ s region block base,
    m.space? id = some s ∧ region = s.region (s.shape.wrap address) ∧
    region.handler = .ram block base ∧ c = ⟨block, base + (s.shape.wrap address - region.origin)⟩ := by
  obtain ⟨s, space, found⟩ := Option.bind_eq_some_iff.mp found
  dsimp only at found
  split at found
  · rename_i block base handler
    cases found
    exact ⟨s, _, block, base, space, rfl, handler, rfl⟩
  · cases found

theorem readRam (found : m.ramAt? id address = some c) {byte : UInt8}
    (holds : m.memory.byte? c = some byte) {number : Nat}
    (ran : read call id address .byte m = some (number, m')) :
    number = byte.toNat ∧ m'.memory = m.memory := by
  obtain ⟨s, region, block, base, space, here, handler, rfl⟩ := ramInv found
  have plain : region.handler.kind ≠ .callback := by
    rw [handler]
    exact fun h => by cases h
  change readRank call id 0 address m = _ at ran
  unfold readRank at ran
  rw [Run.getBind, space] at ran
  unfold readRegion at ran
  obtain ⟨driven, m₁, handled, ran⟩ := Run.bindInv ran
  rw [← here, readHandlerByte plain, handler] at handled
  simp only [Bus.Handler.cell?, Option.bind_some, holds, Option.map_some] at handled
  cases handled
  cases ran
  exact ⟨rfl, rfl⟩

theorem writeRam (found : m.ramAt? id address = some c) {u : Unit}
    (ran : write call id address .byte value.toNat m = some (u, m')) :
    m'.memory = m.memory.write c.block c.offset [value] := by
  obtain ⟨s, region, block, base, space, here, handler, rfl⟩ := ramInv found
  have plain : region.handler.kind ≠ .callback := by
    rw [handler]
    exact fun h => by cases h
  change writeRank call id 0 address value.toNat m = _ at ran
  unfold writeRank at ran
  rw [Run.getBind, space] at ran
  unfold writeRegion at ran
  rw [show value.toNat % Bus.Width.byte.size = value.toNat from
    Nat.mod_eq_of_lt value.toNat_lt] at ran
  dsimp only at ran
  rw [Run.modifyBind, ← here] at ran
  rcases writeHandlerByte (w := ⟨id, id⟩) plain ran with ⟨c, cell, rfl⟩ | ⟨none, -⟩
  · rw [handler] at cell
    cases cell
    rfl
  · refine absurd ?_ (none ⟨block, base + (s.shape.wrap address - region.origin)⟩)
    rw [handler]
    rfl

theorem StackPage.read (page : StackPage program cells m) {offset : UInt8}
    (ran : (acc8Port call program io).read (stackAt offset) m = some (value, m')) :
    m.memory.byte? (cells offset) = some value ∧ m'.memory = m.memory := by
  obtain ⟨byte, holds⟩ := Option.isSome_iff_exists.mp (page.backed offset)
  obtain ⟨number, m₁, ran, done⟩ := Run.bindInv ran
  obtain ⟨rfl, memory⟩ := readRam (page.plain offset) holds ran
  cases done
  rw [UInt8.ofNat_toNat]
  exact ⟨holds, memory⟩

theorem StackPage.write (page : StackPage program cells m) {offset : UInt8} {u : Unit}
    (ran : (acc8Port call program io).write (stackAt offset) value m = some (u, m')) (c : Cell) :
    m'.memory.byte? c = if c = cells offset then some value else m.memory.byte? c := by
  rw [writeRam (page.plain offset) ran, byteWrite]
  obtain ⟨byte, holds⟩ := Option.isSome_iff_exists.mp (page.backed offset)
  split
  · rename_i here
    rw [here, holds, Option.map_some]
  · rfl

end

end Machine

end Lockstep
