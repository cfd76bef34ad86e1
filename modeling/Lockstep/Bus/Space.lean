import Lockstep.Bus.Handler

/-! An address space as a list of mapped ranges in address order, no two of which
share an address. Looking an address up gives the range that covers it or the
gap between two ranges. A range keeps the start it was installed with as its
origin, also when an override cuts it, and offsets count from there. -/
namespace Lockstep.Bus

structure Entry (κ : Type) where
  first : Nat
  last : Nat
  origin : Nat
  handler : Handler κ

structure Region (κ : Type) where
  first : Nat
  last : Nat
  origin : Nat
  handler : Handler κ

structure Space (κ : Type) where
  name : String
  shape : Shape
  entries : List (Entry κ) := []
  frozen : Bool := false
  lastDriven : Nat := 0
  unmappedReads : Nat := 0
  unmappedWrites : Nat := 0

def Entry.info {κ : Type} (memory : Memory) (portLabel : κ → String) (e : Entry κ) : RangeInfo :=
  ⟨e.first, e.last, e.origin, e.handler.kind, e.handler.label memory portLabel⟩

namespace Space
variable {κ : Type}

def freeze (s : Space κ) : Space κ := { s with frozen := true }

def validate (s : Space κ) (memory : Memory) (first last : Nat) (handler : Handler κ) :
    Except ConfigError Unit := do
  if s.frozen then throw (.spaceSealed s.name)
  if last < first then throw (.invertedRange s.name first last)
  if s.shape.maxAddress < last then
    throw (.rangeOutOfBounds s.name first last s.shape.maxAddress)
  if let some d := handler.demand? memory (last - first + 1) then
    if d.available < d.needed then throw (.memoryTooSmall d.tag d.available d.needed)

def below (entries : List (Entry κ)) (address : Nat) : List (Entry κ) :=
  entries.takeWhile (·.last < address)

def upFrom (entries : List (Entry κ)) (address : Nat) : List (Entry κ) :=
  entries.dropWhile (·.last < address)

def install (s : Space κ) (memory : Memory) (first last : Nat) (handler : Handler κ) :
    Except ConfigError (Space κ) := do
  s.validate memory first last handler
  let after := upFrom s.entries first
  if let some other := after.head?.filter (·.first ≤ last) then
    throw (.overlap s.name first last other.first other.last)
  return { s with entries := below s.entries first ++ ⟨first, last, first, handler⟩ :: after }

def carve (entries : List (Entry κ)) (middle : Entry κ) : List (Entry κ) :=
  let rest := upFrom entries middle.first
  let hit := rest.takeWhile (·.first ≤ middle.last)
  let left := (hit.filter (·.first < middle.first)).map fun e => { e with last := middle.first - 1 }
  let right := (hit.filter (middle.last < ·.last)).map fun e => { e with first := middle.last + 1 }
  below entries middle.first ++ left ++ middle :: right ++ rest.dropWhile (·.first ≤ middle.last)

def override (s : Space κ) (memory : Memory) (first last : Nat) (handler : Handler κ) :
    Except ConfigError (Space κ) := do
  s.validate memory first last handler
  return { s with entries := carve s.entries ⟨first, last, first, handler⟩ }

def covering? (entries : List (Entry κ)) (address : Nat) : Option (Entry κ) :=
  (upFrom entries address).head?.filter (·.first ≤ address)

def lookup? (s : Space κ) (address : Nat) : Option (Entry κ) :=
  covering? s.entries (s.shape.wrap address)

def regionFrom (max address floor : Nat) : List (Entry κ) → Region κ
  | [] => ⟨floor, max, floor, .unmapped⟩
  | e :: rest =>
      if e.last < address then regionFrom max address (e.last + 1) rest
      else if e.first ≤ address then ⟨e.first, e.last, e.origin, e.handler⟩
      else ⟨floor, e.first - 1, floor, .unmapped⟩

def region (s : Space κ) (address : Nat) : Region κ :=
  regionFrom s.shape.maxAddress address 0 s.entries

def mustSplit (s : Space κ) (region : Region κ) (address : Nat) (width : Width) : Bool :=
  width != .byte &&
    (decide (s.shape.dataWidth.bytes < width.bytes) ||
      decide (region.last < address + (width.bytes - 1)))

def floating (s : Space κ) (address : Nat) (width : Width) : Nat :=
  let repeated (byte : Nat) := byte * 0x0101010101010101
  (match s.shape.openBus with
    | .fixed pattern => repeated pattern.toNat
    | .lastDriven => s.lastDriven
    | .addressLowByte => repeated (address % 256)) % width.size

def drive (s : Space κ) (value : Nat) : Space κ := { s with lastDriven := value }

def countRead (s : Space κ) : Space κ := { s with unmappedReads := Word.add s.unmappedReads 1 }

def countWrite (s : Space κ) : Space κ := { s with unmappedWrites := Word.add s.unmappedWrites 1 }

end Space

end Lockstep.Bus
