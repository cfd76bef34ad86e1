import Lockstep.Proofs.AddressMap
import Lockstep.Proofs.Endian

/-! How an access falls into parts. A part goes over the bus at once: it is no wider than the
bus, and lies in one range or in one gap. An access that fits is its only part, and any other
is two halves, so the parts cover its addresses in order, each of them once. -/
namespace Lockstep.Bus
variable {κ : Type}

structure Part where
  address : Nat
  width : Width
  deriving DecidableEq, Repr

namespace Part

def last (p : Part) : Nat := p.address + (p.width.bytes - 1)

def addresses (p : Part) : List Nat := (List.range p.width.bytes).map (p.address + ·)

def deal (order : ByteOrder) : List Part → List UInt8 → List (Part × Nat)
  | [], _ => []
  | p :: rest, bytes =>
      (p, order.assemble (bytes.take p.width.bytes)) :: deal order rest (bytes.drop p.width.bytes)

@[simp] theorem lengthAddresses (p : Part) : p.addresses.length = p.width.bytes := by
  simp [addresses]

theorem dealAppend (order : ByteOrder) {lower : List Part} {xs : List UInt8}
    (all : (lower.flatMap (·.addresses)).length = xs.length) (higher : List Part)
    (ys : List UInt8) :
    deal order (lower ++ higher) (xs ++ ys) = deal order lower xs ++ deal order higher ys := by
  induction lower generalizing xs with
  | nil =>
    rw [List.eq_nil_of_length_eq_zero all.symm]
    rfl
  | cons p rest ih =>
    rw [List.flatMap_cons, List.length_append, lengthAddresses] at all
    have enough : p.width.bytes ≤ xs.length := by omega
    rw [List.cons_append, deal, deal, List.take_append_of_le_length enough,
      List.drop_append_of_le_length enough, ih (by rw [List.length_drop]; omega)]
    rfl

end Part

def Entry.Holds (e : Entry κ) (p : Part) : Prop := e.first ≤ p.address ∧ p.last ≤ e.last

def Entry.Misses (e : Entry κ) (p : Part) : Prop := e.last < p.address ∨ p.last < e.first

namespace Space

structure Fits (s : Space κ) (p : Part) : Prop where
  narrow : p.width.bytes ≤ s.shape.dataWidth.bytes
  inside : p.last ≤ s.shape.maxAddress
  whole : (∃ e ∈ s.entries, e.Holds p) ∨ ∀ e ∈ s.entries, e.Misses p

/-- The parts of an access. It is halved only if the bus cannot carry it at once. -/
inductive Divided (s : Space κ) : Width → Nat → List Part → Prop
  | whole {w address} (fits : s.Fits ⟨s.shape.wrap address, w⟩) :
      Divided s w address [⟨s.shape.wrap address, w⟩]
  | halves {w half address lower higher} (narrower : w.half? = some half)
      (misfit : ¬ s.Fits ⟨s.shape.wrap address, w⟩) (first : Divided s half address lower)
      (second : Divided s half (address + half.bytes) higher) :
      Divided s w address (lower ++ higher)

end Space

theorem Width.halving {P : Width → Prop} (byte : P .byte)
    (step : ∀ {w half : Width}, w.half? = some half → P half → P w) (w : Width) : P w := by
  have word := step (w := .word) rfl byte
  have dword := step (w := .dword) rfl word
  have qword := step (w := .qword) rfl dword
  cases w <;> assumption

theorem Width.size_pos (w : Width) : 0 < w.size := Nat.pow_pos (by decide)

theorem Width.bytesPos (w : Width) : 0 < w.bytes := by cases w <;> decide

section
variable {s : Space κ} {w half : Width} {address a : Nat} {parts : List Part} {p : Part}

theorem Shape.wrapAdd (shape : Shape) (a i : Nat) :
    shape.wrap (shape.wrap a + i) = shape.wrap (a + i) := Nat.mod_add_mod ..

theorem Shape.wrapInside (shape : Shape) {a : Nat} (inside : a ≤ shape.maxAddress) :
    shape.wrap a = a := by
  have := shape.size_pos
  unfold maxAddress at inside
  exact Nat.mod_eq_of_lt (by omega)

theorem Shape.wrapLe (shape : Shape) (a : Nat) : shape.wrap a ≤ shape.maxAddress :=
  Nat.le_sub_one_of_lt (shape.wrap_lt a)

namespace Space

theorem fitsByte (s : Space κ) (address : Nat) : s.Fits ⟨s.shape.wrap address, .byte⟩ := by
  refine ⟨s.shape.dataWidth.bytesPos, s.shape.wrapLe address, ?_⟩
  by_cases covered : ∃ e ∈ s.entries, e.Covers (s.shape.wrap address)
  · exact .inl covered
  · refine .inr fun e mem => ?_
    have apart : ¬ e.Covers (s.shape.wrap address) := fun covers => covered ⟨e, mem, covers⟩
    unfold Entry.Covers at apart
    unfold Entry.Misses Part.last
    change _ ∨ s.shape.wrap address + 0 < _
    dsimp only
    omega

theorem divide (s : Space κ) (w : Width) (address : Nat) : ∃ parts, s.Divided w address parts := by
  revert address
  refine Width.halving (P := fun w => ∀ address, ∃ parts, s.Divided w address parts) ?_ ?_ w
  · exact fun address => ⟨_, .whole (s.fitsByte address)⟩
  · intro w half narrower ih address
    by_cases fits : s.Fits ⟨s.shape.wrap address, w⟩
    · exact ⟨_, .whole fits⟩
    · obtain ⟨lower, first⟩ := ih address
      obtain ⟨higher, second⟩ := ih (address + half.bytes)
      exact ⟨_, .halves narrower fits first second⟩

theorem Divided.fits (divided : s.Divided w address parts) : ∀ p ∈ parts, s.Fits p := by
  induction divided with
  | whole fits => exact fun p mem => by rw [List.mem_singleton.mp mem]; exact fits
  | halves _ _ _ _ ih₁ ih₂ => exact List.forall_mem_append.mpr ⟨ih₁, ih₂⟩

theorem Divided.covers (divided : s.Divided w address parts) :
    parts.flatMap (·.addresses) =
      (List.range w.bytes).map fun i => s.shape.wrap (address + i) := by
  induction divided with
  | @whole w address fits =>
    rw [List.flatMap_singleton]
    refine List.map_congr_left fun i mem => ?_
    have inside := fits.inside
    have most := List.mem_range.mp mem
    unfold Part.last at inside
    dsimp only at inside most ⊢
    exact (s.shape.wrapInside (by omega)).symm.trans (s.shape.wrapAdd address i)
  | @halves w half address lower higher narrower _ _ _ ih₁ ih₂ =>
    rw [List.flatMap_append, ih₁, ih₂, Width.bytes_half narrower, Nat.two_mul, List.range_add,
      List.map_append, List.map_map]
    simp only [Function.comp_def, Nat.add_assoc]

theorem Divided.bytes (divided : s.Divided w address parts) :
    (parts.flatMap (·.addresses)).length = w.bytes := by
  rw [divided.covers, List.length_map, List.length_range]

theorem gapLast {top a x : Nat} {entries : List (Entry κ)} (laid : Laid top entries)
    (gap : covering? entries a = none) (floor : Nat) :
    x ≤ (regionFrom top a floor entries).last ↔
      x ≤ top ∧ ∀ e ∈ entries, e.last < a ∨ x < e.first := by
  -- the walk stops at the first range that does not end before `a`, and all others lie behind it
  induction entries generalizing floor with
  | nil => simp [regionFrom]
  | cons e rest ih =>
    have behind := (List.pairwise_cons.mp laid.ordered).1
    have within := laid.within e (List.mem_cons_self ..)
    simp only [covering?, upFrom, List.dropWhile_cons, decide_eq_true_eq] at ih gap
    unfold regionFrom
    rw [List.forall_mem_cons]
    by_cases passed : e.last < a
    · rw [if_pos passed] at gap ⊢
      rw [ih (laidTail laid) gap]
      simp [passed]
    · rw [if_neg passed] at gap ⊢
      have ahead : ¬ e.first ≤ a := by simpa using gap
      rw [if_neg ahead]
      dsimp only
      constructor
      · intro before
        refine ⟨by omega, by omega, fun e' mem => .inr ?_⟩
        have := behind e' mem
        omega
      · rintro ⟨-, before, -⟩
        omega

theorem fitsIff (laid : Laid s.shape.maxAddress s.entries) (w : Width) :
    s.Fits ⟨a, w⟩ ↔
      w.bytes ≤ s.shape.dataWidth.bytes ∧ a + (w.bytes - 1) ≤ (s.region a).last := by
  unfold region
  cases covering : covering? s.entries a with
  | some e =>
    obtain ⟨mem, covers⟩ := (coveringIff laid).mp covering
    have within := laid.within e mem
    rw [regionCovered covering]
    unfold Entry.Covers at covers
    refine ⟨fun fits => ⟨fits.narrow, ?_⟩, fun ⟨narrow, reach⟩ => ?_⟩
    · rcases fits.whole with ⟨e', mem', first, last⟩ | apart
      · unfold Part.last at last
        dsimp only at first last ⊢
        rw [laidUnique laid mem mem' (by omega) (by omega)]
        exact last
      · have apart := apart e mem
        unfold Entry.Misses Part.last at apart
        dsimp only at apart
        omega
    · dsimp only at reach
      exact ⟨narrow, by unfold Part.last; dsimp only; omega, .inl ⟨e, mem, covers.1, reach⟩⟩
  | none =>
    rw [gapLast laid covering 0]
    refine ⟨fun fits => ⟨fits.narrow, fits.inside, ?_⟩, fun ⟨narrow, inside, apart⟩ =>
      ⟨narrow, inside, .inr apart⟩⟩
    rcases fits.whole with ⟨e, mem, first, last⟩ | apart
    · have covers : e.Covers a := ⟨first, Nat.le_trans (Nat.le_add_right ..) last⟩
      rw [(coveringIff laid).mpr ⟨mem, covers⟩] at covering
      cases covering
    · exact apart

theorem Fits.holds {e : Entry κ} (fits : s.Fits p) (laid : Laid s.shape.maxAddress s.entries)
    (mem : e ∈ s.entries) (covers : e.Covers p.address) : e.Holds p := by
  obtain ⟨first, last⟩ := covers
  rcases fits.whole with ⟨e', mem', holds⟩ | apart
  · have reaches : p.address ≤ e'.last := Nat.le_trans (Nat.le_add_right ..) holds.2
    rwa [laidUnique laid mem mem' (Nat.le_trans first reaches) (Nat.le_trans holds.1 last)]
  · have := apart e mem
    unfold Entry.Misses Part.last at this
    omega

theorem splitIff (laid : Laid s.shape.maxAddress s.entries) (w : Width) (address : Nat) :
    s.mustSplit (s.region (s.shape.wrap address)) (s.shape.wrap address) w = true ↔
      ¬ s.Fits ⟨s.shape.wrap address, w⟩ := by
  by_cases byte : w = .byte
  · subst byte
    exact iff_of_false (fun split => by cases split) fun misfit => misfit (s.fitsByte address)
  · rw [fitsIff laid]
    simp only [mustSplit, Bool.and_eq_true, bne_iff_ne, Bool.or_eq_true, decide_eq_true_eq,
      ne_eq, byte, not_false_eq_true, true_and]
    omega

end Space

end

end Lockstep.Bus
