import Lockstep.Proofs.Parts
import Mathlib.Logic.Basic

/-! Ranges that are mapped to nothing. Such a range is a hole in the map, but its ends count: an
access that crosses one is halved there, where over the bare hole it need not be. What it is halved
for leads nowhere, so whatever an access does to memory and ports it does without the range. -/
namespace Lockstep.Bus.Space
variable {κ : Type}

def pruned (s : Space κ) : Space κ :=
  { s with entries := s.entries.filter (·.handler.kind != .unmapped) }

/-- A range that is mapped to nothing ends at the address, or starts behind it. -/
def Seam (s : Space κ) (address : Nat) : Prop :=
  ∃ e ∈ s.entries, e.handler.kind = .unmapped ∧ (e.last = address ∨ e.first = address + 1)

def level (s : Space κ) : (rank address : Nat) → Bool
  | 0, _ => true
  | rank + 1, address =>
      let address := s.shape.wrap address
      let width := Width.ofRank (rank + 1)
      let split := s.mustSplit (s.region address) address width
      split == s.pruned.mustSplit (s.pruned.region address) address width &&
        (!split || s.level rank address &&
          s.level rank (s.shape.wrap (address + (Width.ofRank rank).bytes)))

def reaches (s : Space κ) (p : Part) : Bool := (covering? s.pruned.entries p.address).isSome

variable {s t : Space κ} {e : Entry κ} {p : Part} {w half : Width} {rank address : Nat}
  {parts pruned : List Part}

@[simp] theorem prunedShape (s : Space κ) : s.pruned.shape = s.shape := rfl

theorem memPruned : e ∈ s.pruned.entries ↔ e ∈ s.entries ∧ e.handler.kind ≠ .unmapped := by
  simp [Space.pruned]

theorem Divided.starts (divided : s.Divided w address parts) (p : Part) (mem : p ∈ parts) :
    p.address ∈ (List.range w.bytes).map fun i => s.shape.wrap (address + i) := by
  rw [← divided.covers]
  exact List.mem_flatMap.mpr
    ⟨p, mem, List.mem_map.mpr ⟨0, List.mem_range.mpr p.width.bytesPos, rfl⟩⟩

theorem Divided.some (divided : s.Divided w address parts) : 0 < parts.length := by
  induction divided with
  | whole => exact Nat.one_pos
  | halves _ _ _ _ lower _ =>
    rw [List.length_append]
    exact Nat.add_pos_left lower _

theorem handlerUnmapped {h : Handler κ} (kind : h.kind = .unmapped) : h = .unmapped := by
  cases h with
  | unmapped => rfl
  | _ => cases kind

theorem levelNext : s.level (rank + 1) address = true ↔
    (s.mustSplit (s.region (s.shape.wrap address)) (s.shape.wrap address)
        (Width.ofRank (rank + 1)) =
      s.pruned.mustSplit (s.pruned.region (s.shape.wrap address)) (s.shape.wrap address)
        (Width.ofRank (rank + 1))) ∧
      (s.mustSplit (s.region (s.shape.wrap address)) (s.shape.wrap address)
          (Width.ofRank (rank + 1)) = true →
        s.level rank (s.shape.wrap address) = true ∧ s.level rank
          (s.shape.wrap (s.shape.wrap address + (Width.ofRank rank).bytes)) = true) := by
  simp only [level, Bool.and_eq_true, beq_iff_eq, Bool.or_eq_true, Bool.not_eq_true',
    ← Bool.not_eq_true, Decidable.imp_iff_not_or]

theorem levelWrap (s : Space κ) (rank address : Nat) :
    s.level rank (s.shape.wrap address) = s.level rank address := by
  cases rank with
  | zero => rfl
  | succ rank => simp only [level, Shape.wrap, Nat.mod_mod]

theorem levelLike (shape : t.shape = s.shape) (entries : t.entries = s.entries)
    (rank address : Nat) : t.level rank address = s.level rank address := by
  have regions : ∀ a, t.region a = s.region a ∧ t.pruned.region a = s.pruned.region a := by
    simp only [region, Space.pruned, shape, entries, and_self, implies_true]
  have splits : ∀ r a w, t.mustSplit r a w = s.mustSplit r a w ∧
      t.pruned.mustSplit r a w = s.pruned.mustSplit r a w := by
    intro r a w
    unfold mustSplit Space.pruned
    rw [shape]
    exact ⟨rfl, rfl⟩
  induction rank generalizing address with
  | zero => rfl
  | succ rank ih => simp only [level, regions, splits, shape, ih]

section
variable (laid : Laid s.shape.maxAddress s.entries)
include laid

theorem prunedLaid : Laid s.pruned.shape.maxAddress s.pruned.entries :=
  ⟨laid.ordered.filter _, fun e mem => laid.within e (memPruned.mp mem).1⟩

theorem fitsPruned :
    s.Fits p ↔ s.pruned.Fits p ∧ ∀ b, p.address ≤ b → b < p.last → ¬ s.Seam b := by
  constructor
  · intro fits
    refine ⟨⟨fits.narrow, fits.inside, ?_⟩, ?_⟩
    · rcases fits.whole with ⟨e, mem, holds⟩ | apart
      · by_cases hole : e.handler.kind = .unmapped
        · refine .inr fun e' mem' => Classical.byContradiction fun meets => ?_
          obtain ⟨mem', mapped⟩ := memPruned.mp mem'
          unfold Entry.Holds at holds
          unfold Entry.Misses at meets
          have same := laidUnique laid mem mem' (by omega) (by omega)
          exact mapped (same ▸ hole)
        · exact .inl ⟨e, memPruned.mpr ⟨mem, hole⟩, holds⟩
      · exact .inr fun e mem => apart e (memPruned.mp mem).1
    · rintro b first last ⟨e', mem', -, ends⟩
      have within := laid.within e' mem'
      rcases fits.whole with ⟨e, mem, holds⟩ | apart
      · unfold Entry.Holds at holds
        have same := laidUnique laid mem mem' (by omega) (by omega)
        subst same
        omega
      · have apart := apart e' mem'
        unfold Entry.Misses at apart
        omega
  · rintro ⟨fits, seamless⟩
    refine ⟨fits.narrow, fits.inside, ?_⟩
    rcases fits.whole with ⟨e, mem, holds⟩ | apart
    · exact .inl ⟨e, (memPruned.mp mem).1, holds⟩
    by_cases all : ∀ e ∈ s.entries, e.Misses p
    · exact .inr all
    -- only a range that is mapped to nothing can meet the part, and it has no end inside
    obtain ⟨e, meets⟩ := Classical.not_forall.mp all
    obtain ⟨mem, meets⟩ := Classical.not_imp.mp meets
    have hole : e.handler.kind = .unmapped := Classical.byContradiction fun mapped =>
      meets (apart e (memPruned.mpr ⟨mem, mapped⟩))
    have ends : ¬ (p.address ≤ e.last ∧ e.last < p.last) := fun ⟨first, last⟩ =>
      seamless e.last first last ⟨e, mem, hole, .inl rfl⟩
    have starts : ¬ (p.address < e.first ∧ e.first ≤ p.last) := fun ⟨first, last⟩ =>
      seamless (e.first - 1) (by omega) (by omega) ⟨e, mem, hole, .inr (by omega)⟩
    unfold Entry.Misses at meets
    exact .inl ⟨e, mem, by unfold Entry.Holds; omega⟩

theorem regionPruned (address : Nat) :
    (s.pruned.region address).handler = (s.region address).handler ∧
      ((s.pruned.region address).handler = .unmapped ∨
        (s.pruned.region address).origin = (s.region address).origin) := by
  unfold region
  cases covering : covering? s.pruned.entries address with
  | some e =>
    obtain ⟨mem, covers⟩ := (coveringIff (prunedLaid laid)).mp covering
    have found := (coveringIff laid).mpr ⟨(memPruned.mp mem).1, covers⟩
    rw [regionCovered covering, regionCovered found]
    exact ⟨rfl, .inr rfl⟩
  | none =>
    have gap : (Space.regionFrom s.pruned.shape.maxAddress address 0 s.pruned.entries).handler =
        .unmapped := regionGap covering 0
    refine ⟨gap.trans ?_, .inl gap⟩
    cases found : covering? s.entries address with
    | none => exact (regionGap found 0).symm
    | some e =>
      obtain ⟨mem, covers⟩ := (coveringIff laid).mp found
      rw [regionCovered found]
      refine (handlerUnmapped (Classical.byContradiction fun mapped => ?_)).symm
      rw [(coveringIff (prunedLaid laid)).mpr ⟨memPruned.mpr ⟨mem, mapped⟩, covers⟩] at covering
      cases covering

theorem levelHalves (narrower : w.half? = some half) (a : Nat) : s.level w.rank a = true ↔
    (s.Fits ⟨s.shape.wrap a, w⟩ ↔ s.pruned.Fits ⟨s.shape.wrap a, w⟩) ∧
      (¬ s.Fits ⟨s.shape.wrap a, w⟩ →
        s.level half.rank a = true ∧ s.level half.rank (a + half.bytes) = true) := by
  have whole := splitIff laid w a
  have pruned := splitIff (prunedLaid laid) w a
  have ranks : w.rank = half.rank + 1 ∧ Width.ofRank (half.rank + 1) = w := by
    cases w <;> cases narrower <;> exact ⟨rfl, rfl⟩
  change s.pruned.mustSplit (s.pruned.region (s.shape.wrap a)) (s.shape.wrap a) w = true ↔
    ¬ s.pruned.Fits ⟨s.shape.wrap a, w⟩ at pruned
  have higher : s.level half.rank (s.shape.wrap (s.shape.wrap a + half.bytes)) =
      s.level half.rank (a + half.bytes) := by rw [Shape.wrapAdd, levelWrap]
  rw [ranks.1, levelNext, ranks.2, Width.ofRank_rank, levelWrap s half.rank a, higher,
    Bool.eq_iff_iff, whole, pruned, not_iff_not]

theorem levelIff (w : Width) (a : Nat) : s.level w.rank a = true ↔
    ∀ parts, s.pruned.Divided w a parts →
      ∀ p ∈ parts, ∀ b, p.address ≤ b → b < p.last → ¬ s.Seam b := by
  revert a
  refine Width.halving (P := fun w => ∀ a, s.level w.rank a = true ↔
    ∀ parts, s.pruned.Divided w a parts →
      ∀ p ∈ parts, ∀ b, p.address ≤ b → b < p.last → ¬ s.Seam b) ?_ ?_ w
  · refine fun a => iff_of_true rfl fun parts divided p mem b first last => ?_
    cases divided with
    | whole fits =>
      obtain rfl := List.mem_singleton.mp mem
      exact absurd last (Nat.not_lt_of_le first)
    | halves narrower => cases narrower
  · intro w half narrower ih a
    rw [levelHalves laid narrower, ih, ih]
    constructor
    · rintro ⟨fits, halves⟩ parts divided
      cases divided with
      | whole pruned =>
        intro p mem
        obtain rfl := List.mem_singleton.mp mem
        exact ((fitsPruned laid).mp (fits.mpr pruned)).2
      | halves narrower' misfit first second =>
        cases narrower.symm.trans narrower'
        obtain ⟨lower, higher⟩ := halves fun whole => misfit (fits.mp whole)
        exact List.forall_mem_append.mpr ⟨lower _ first, higher _ second⟩
    · intro seamless
      have fits : s.Fits ⟨s.shape.wrap a, w⟩ ↔ s.pruned.Fits ⟨s.shape.wrap a, w⟩ := by
        refine ⟨fun fits => ((fitsPruned laid).mp fits).1, fun fits => (fitsPruned laid).mpr ?_⟩
        exact ⟨fits, seamless _ (.whole fits) _ (List.mem_singleton.mpr rfl)⟩
      refine ⟨fits, fun misfit => ?_⟩
      have misfit := fun pruned => misfit (fits.mpr pruned)
      obtain ⟨lower, first⟩ := s.pruned.divide half a
      obtain ⟨higher, second⟩ := s.pruned.divide half (a + half.bytes)
      refine ⟨fun parts divided => ?_, fun parts divided => ?_⟩
      · exact (List.forall_mem_append.mp (seamless _ (.halves narrower misfit divided second))).1
      · exact (List.forall_mem_append.mp (seamless _ (.halves narrower misfit first divided))).2

theorem levelDivided {a : Nat} (level : s.level w.rank a = true) :
    s.Divided w a parts ↔ s.pruned.Divided w a parts := by
  revert a parts
  refine Width.halving (P := fun w => ∀ {parts : List Part} {a : Nat}, s.level w.rank a = true →
    (s.Divided w a parts ↔ s.pruned.Divided w a parts)) ?_ ?_ w
  · intro parts a _
    constructor
    · intro divided
      cases divided with
      | whole fits => exact .whole ((fitsPruned laid).mp fits).1
      | halves narrower => cases narrower
    · intro divided
      cases divided with
      | whole => exact .whole (s.fitsByte a)
      | halves narrower => cases narrower
  · intro w half narrower ih parts a level
    obtain ⟨fits, halves⟩ := (levelHalves laid narrower a).mp level
    constructor
    · intro divided
      cases divided with
      | whole whole => exact .whole (fits.mp whole)
      | halves narrower' misfit first second =>
        cases narrower.symm.trans narrower'
        obtain ⟨lower, higher⟩ := halves misfit
        exact .halves narrower (fun pruned => misfit (fits.mpr pruned)) ((ih lower).mp first)
          ((ih higher).mp second)
    · intro divided
      cases divided with
      | whole whole => exact .whole (fits.mpr whole)
      | halves narrower' misfit first second =>
        cases narrower.symm.trans narrower'
        have misfit := fun whole => misfit (fits.mp whole)
        obtain ⟨lower, higher⟩ := halves misfit
        exact .halves narrower misfit ((ih lower).mpr first) ((ih higher).mpr second)

theorem levelParts {a : Nat} (divided : s.Divided w a parts)
    (divided' : s.pruned.Divided w a pruned) : pruned.length ≤ parts.length ∧
      (s.level w.rank a = true ↔ parts.length = pruned.length) := by
  induction divided' generalizing parts with
  | @whole w a fits =>
    cases divided with
    | whole whole =>
      refine ⟨Nat.le_refl _, iff_of_true ((levelIff laid w a).mpr fun parts divided => ?_) rfl⟩
      cases divided with
      | whole =>
        intro p mem
        obtain rfl := List.mem_singleton.mp mem
        exact ((fitsPruned laid).mp whole).2
      | halves _ misfit => exact absurd fits misfit
    | @halves _ half _ lower higher narrower misfit first second =>
      have more : 1 < (lower ++ higher).length := by
        rw [List.length_append]
        exact Nat.add_le_add first.some second.some
      refine ⟨Nat.le_of_lt more, iff_of_false (fun level => ?_) (Nat.ne_of_gt more)⟩
      exact misfit (((levelHalves laid narrower a).mp level).1.mpr fits)
  | @halves w half a lower' higher' narrower misfit _ _ ih₁ ih₂ =>
    cases divided with
    | whole fits => exact absurd ((fitsPruned laid).mp fits).1 misfit
    | @halves _ _ _ lower higher narrower' misfit' first second =>
      cases narrower.symm.trans narrower'
      obtain ⟨fewer, level⟩ := ih₁ first
      obtain ⟨fewer', level'⟩ := ih₂ second
      rw [levelHalves laid narrower, level, level', List.length_append, List.length_append]
      refine ⟨Nat.add_le_add fewer fewer', ⟨fun ⟨_, halves⟩ => ?_, fun same => ?_⟩⟩
      · obtain ⟨first, second⟩ := halves misfit'
        rw [first, second]
      · exact ⟨iff_of_false misfit' misfit, fun _ => ⟨by omega, by omega⟩⟩

theorem seamsNowhere {a b : Nat} (fits : s.pruned.Fits ⟨s.shape.wrap a, w⟩)
    (misfit : ¬ s.Fits ⟨s.shape.wrap a, w⟩)
    (within : b ∈ (List.range w.bytes).map fun i => s.shape.wrap (a + i)) :
    covering? s.pruned.entries b = none := by
  refine Option.eq_none_iff_forall_ne_some.mpr fun e covering => ?_
  obtain ⟨found, covers⟩ := (coveringIff (prunedLaid laid)).mp covering
  obtain ⟨i, less, same⟩ := List.mem_map.mp within
  have less := List.mem_range.mp less
  have inside := fits.inside
  have top : s.pruned.shape.maxAddress = s.shape.maxAddress := rfl
  unfold Part.last at inside
  dsimp only at inside
  rw [← s.shape.wrapAdd, s.shape.wrapInside (by omega)] at same
  have apart : e.Misses ⟨s.shape.wrap a, w⟩ := by
    rcases fits.whole with ⟨e', mem', holds⟩ | apart
    · exact absurd ⟨fits.narrow, fits.inside, .inl ⟨e', (memPruned.mp mem').1, holds⟩⟩ misfit
    · exact apart e found
  unfold Entry.Misses Part.last at apart
  unfold Entry.Covers at covers
  dsimp only at apart
  omega

theorem reachesSame {a : Nat} (divided : s.Divided w a parts)
    (divided' : s.pruned.Divided w a pruned) :
    parts.filter s.reaches = pruned.filter s.reaches := by
  induction divided' generalizing parts with
  | @whole w a fits =>
    by_cases whole : s.Fits ⟨s.shape.wrap a, w⟩
    · cases divided with
      | whole => rfl
      | halves _ misfit => exact absurd whole misfit
    · have nowhere : ∀ {q : Part}, q.address ∈ (List.range w.bytes).map (s.shape.wrap <| a + ·) →
          ¬ s.reaches q = true := fun within hit => by
        unfold Space.reaches at hit
        rw [seamsNowhere laid fits whole within] at hit
        cases hit
      rw [List.filter_eq_nil_iff.mpr fun q mem => nowhere (divided.starts q mem),
        List.filter_eq_nil_iff.mpr fun q mem => nowhere ((Divided.whole fits).starts q mem)]
  | @halves w half a lower higher narrower misfit _ _ ih₁ ih₂ =>
    cases divided with
    | whole fits => exact absurd ((fitsPruned laid).mp fits).1 misfit
    | halves narrower' misfit' first second =>
      cases narrower.symm.trans narrower'
      rw [List.filter_append, List.filter_append, ih₁ first, ih₂ second]

end

end Lockstep.Bus.Space
