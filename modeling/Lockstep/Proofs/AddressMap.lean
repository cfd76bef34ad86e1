import Lockstep.Machine.Interpreter
import Lockstep.Proofs.Run

/-! What an address space shows is what was mapped last. The ranges of a space stay in order and
apart whatever is mapped over them, and each shows the handler of the latest call that covers
it, with the offsets of that call. -/
namespace Lockstep
namespace Bus
variable {κ : Type}

inductive Edit (κ : Type) where
  | install (memory : Memory) (first last : Nat) (handler : Handler κ)
  | override (memory : Memory) (first last : Nat) (handler : Handler κ)
  | freeze
  | drive (value : Nat)
  | countRead
  | countWrite

structure Mapping (κ : Type) where
  first : Nat
  last : Nat
  handler : Handler κ

def Space.edit (s : Space κ) : Edit κ → Space κ × Option (Mapping κ)
  | .install memory first last handler =>
      match s.install memory first last handler with
      | .ok t => (t, some ⟨first, last, handler⟩)
      | .error _ => (s, none)
  | .override memory first last handler =>
      match s.override memory first last handler with
      | .ok t => (t, some ⟨first, last, handler⟩)
      | .error _ => (s, none)
  | .freeze => (s.freeze, none)
  | .drive value => (s.drive value, none)
  | .countRead => (s.countRead, none)
  | .countWrite => (s.countWrite, none)

def Space.editAll (s : Space κ) : List (Edit κ) → List (Mapping κ) → Space κ × List (Mapping κ)
  | [], calls => (s, calls)
  | edit :: edits, calls => (s.edit edit).1.editAll edits ((s.edit edit).2.toList ++ calls)

def Mapping.covers (c : Mapping κ) (address : Nat) : Bool :=
  decide (c.first ≤ address) && decide (address ≤ c.last)

def latest? (calls : List (Mapping κ)) (address : Nat) : Option (Mapping κ) :=
  calls.find? (·.covers address)

structure Space.Accepts (s : Space κ) (memory : Memory) (first last : Nat) (handler : Handler κ) :
    Prop where
  thawed : s.frozen = false
  upright : first ≤ last
  inside : last ≤ s.shape.maxAddress
  backed : ∀ d, handler.demand? memory (last - first + 1) = some d → d.needed ≤ d.available

namespace Entry

def Covers (e : Entry κ) (address : Nat) : Prop := e.first ≤ address ∧ address ≤ e.last

end Entry

structure Laid (top : Nat) (entries : List (Entry κ)) : Prop where
  ordered : entries.Pairwise fun a b => a.last < b.first
  within : ∀ e ∈ entries, e.origin ≤ e.first ∧ e.first ≤ e.last ∧ e.last ≤ top

inductive Piece (middle old : Entry κ) : Entry κ → Prop where
  | whole (apart : old.last < middle.first ∨ middle.last < old.first) : Piece middle old old
  | left (before : old.first < middle.first) (meets : middle.first ≤ old.last) :
      Piece middle old { old with last := middle.first - 1 }
  | right (meets : old.first ≤ middle.last) (behind : middle.last < old.last)
      (reaches : middle.first ≤ old.last) : Piece middle old { old with first := middle.last + 1 }

section
variable {entries rest : List (Entry κ)} {e middle old : Entry κ} {top a b : Nat}

theorem splitAtFilter {α : Type} {p : α → Bool} {rows : List α}
    (closed : rows.Pairwise fun x y => p y = true → p x = true) :
    rows.takeWhile p = rows.filter p ∧ rows.dropWhile p = rows.filter (!p ·) := by
  induction rows with
  | nil => simp
  | cons x rows ih =>
    obtain ⟨first, closed⟩ := List.pairwise_cons.mp closed
    obtain ⟨taken, dropped⟩ := ih closed
    by_cases holds : p x = true
    · simp [holds, taken, dropped]
    · have none : ∀ y ∈ rows, ¬ p y = true := fun y mem own => holds (first y mem own)
      have empty : rows.filter p = [] := List.filter_eq_nil_iff.mpr none
      have all : rows.filter (!p ·) = rows := List.filter_eq_self.mpr (by simpa using none)
      simp [holds, empty, all]

theorem belowFilter (laid : Laid top entries) (address : Nat) :
    Space.below entries address = entries.filter (·.last < address) ∧
      Space.upFrom entries address = entries.filter fun e => !decide (e.last < address) := by
  refine splitAtFilter (laid.ordered.imp_of_mem fun {x y} _ mem before => ?_)
  have within := laid.within y mem
  simp only [decide_eq_true_eq]
  omega

theorem hitFilter (laid : Laid top entries) (p : Entry κ → Bool) (address : Nat) :
    (entries.filter p).takeWhile (·.first ≤ address) =
        (entries.filter p).filter (·.first ≤ address) ∧
      (entries.filter p).dropWhile (·.first ≤ address) =
        (entries.filter p).filter fun e => !decide (e.first ≤ address) := by
  refine splitAtFilter ((laid.ordered.filter p).imp_of_mem fun {x y} mem _ before => ?_)
  have within := laid.within x (List.mem_filter.mp mem).1
  simp only [decide_eq_true_eq]
  omega

theorem memCarve (laid : Laid top entries) (upright : middle.first ≤ middle.last) :
    e ∈ Space.carve entries middle ↔ e = middle ∨ ∃ old ∈ entries, Piece middle old e := by
  -- In an ordered list the two binary searches split as filters do.
  obtain ⟨below, above⟩ := belowFilter laid middle.first
  obtain ⟨hit, clear⟩ := hitFilter laid (fun e => !decide (e.last < middle.first)) middle.last
  simp only [Space.carve, below, above, hit, clear, List.mem_append, List.mem_cons, List.mem_map,
    List.mem_filter, Bool.not_eq_true', decide_eq_true_eq, decide_eq_false_iff_not, Nat.not_lt,
    Nat.not_le]
  constructor
  · rintro (((⟨mem, apart⟩ | ⟨old, ⟨⟨⟨mem, meets⟩, -⟩, before⟩, rfl⟩) | rfl |
      ⟨old, ⟨⟨⟨mem, reaches⟩, meets⟩, behind⟩, rfl⟩) | ⟨⟨mem, -⟩, apart⟩)
    · exact .inr ⟨e, mem, .whole (.inl apart)⟩
    · exact .inr ⟨old, mem, .left before meets⟩
    · exact .inl rfl
    · exact .inr ⟨old, mem, .right meets behind reaches⟩
    · exact .inr ⟨e, mem, .whole (.inr apart)⟩
  · rintro (rfl | ⟨old, mem, piece⟩)
    · exact .inl (.inr (.inl rfl))
    · have within := laid.within old mem
      cases piece with
      | whole apart =>
        rcases apart with apart | apart
        · exact .inl (.inl (.inl ⟨mem, apart⟩))
        · exact .inr ⟨⟨mem, by omega⟩, apart⟩
      | left before meets =>
        exact .inl (.inl (.inr ⟨old, ⟨⟨⟨mem, meets⟩, by omega⟩, before⟩, rfl⟩))
      | right meets behind reaches =>
        exact .inl (.inr (.inr ⟨old, ⟨⟨⟨mem, reaches⟩, meets⟩, behind⟩, rfl⟩))

theorem pieceWithin (within : old.origin ≤ old.first ∧ old.first ≤ old.last ∧ old.last ≤ top)
    (piece : Piece middle old e) :
    e.origin = old.origin ∧ e.handler = old.handler ∧ old.first ≤ e.first ∧ e.first ≤ e.last ∧
      e.last ≤ old.last ∧ (e.last < middle.first ∨ middle.last < e.first) := by
  cases piece with
  | whole apart => exact ⟨rfl, rfl, Nat.le_refl _, within.2.1, Nat.le_refl _, apart⟩
  | left before meets => refine ⟨rfl, rfl, ?_, ?_, ?_, ?_⟩ <;> dsimp only <;> omega
  | right meets behind reaches => refine ⟨rfl, rfl, ?_, ?_, ?_, ?_⟩ <;> dsimp only <;> omega

theorem pieceCovers (covers : old.Covers a)
    (outside : ¬ middle.Covers a) : ∃ e, Piece middle old e ∧ e.Covers a := by
  unfold Entry.Covers at *
  by_cases apart : old.last < middle.first ∨ middle.last < old.first
  · exact ⟨old, .whole apart, covers⟩
  · by_cases before : a < middle.first
    · exact ⟨_, .left (by omega) (by omega), by dsimp only; omega⟩
    · exact ⟨_, .right (by omega) (by omega) (by omega), by dsimp only; omega⟩

theorem laidTail (laid : Laid top (e :: rest)) : Laid top rest :=
  ⟨(List.pairwise_cons.mp laid.ordered).2, fun x mem => laid.within x (List.mem_cons_of_mem _ mem)⟩

theorem coveringIff (laid : Laid top entries) :
    Space.covering? entries a = some e ↔ e ∈ entries ∧ e.Covers a := by
  induction entries with
  | nil => simp [Space.covering?, Space.upFrom]
  | cons head rest ih =>
    have behind := (List.pairwise_cons.mp laid.ordered).1
    have within := laid.within head (List.mem_cons_self ..)
    replace ih := ih (laidTail laid)
    simp only [Space.covering?, Space.upFrom, List.dropWhile_cons, decide_eq_true_eq] at ih ⊢
    by_cases passed : head.last < a
    · rw [if_pos passed, ih]
      constructor
      · exact fun ⟨mem, covers⟩ => ⟨List.mem_cons_of_mem _ mem, covers⟩
      · rintro ⟨mem, covers⟩
        rcases List.mem_cons.mp mem with rfl | mem
        · exact absurd covers.2 (Nat.not_le_of_lt passed)
        · exact ⟨mem, covers⟩
    · rw [if_neg passed, List.head?_cons, Option.filter_eq_some_iff, Option.some.injEq]
      constructor
      · rintro ⟨rfl, first⟩
        exact ⟨List.mem_cons_self .., of_decide_eq_true first, Nat.le_of_not_lt passed⟩
      · rintro ⟨mem, first, last⟩
        rcases List.mem_cons.mp mem with rfl | mem
        · exact ⟨rfl, decide_eq_true first⟩
        · have := behind e mem
          omega

theorem laidUnique (laid : Laid top entries) (left : e ∈ entries) (right : old ∈ entries)
    (meets : e.first ≤ old.last) (meets' : old.first ≤ e.last) : e = old := by
  have within := laid.within e left
  have within' := laid.within old right
  have one := (coveringIff (a := max e.first old.first) laid).mpr ⟨left, by
    unfold Entry.Covers; omega⟩
  have two := (coveringIff (a := max e.first old.first) laid).mpr ⟨right, by
    unfold Entry.Covers; omega⟩
  exact Option.some.inj (one.symm.trans two)

theorem laidApart (laid : Laid top entries) (left : e ∈ entries) (right : old ∈ entries)
    (before : e.first < old.first ∨ e.last < old.last) : e.last < old.first := by
  refine Nat.lt_of_not_le fun meets => ?_
  have within := laid.within e left
  have within' := laid.within old right
  have same := laidUnique laid left right (by omega) meets
  subst same
  omega

theorem carveOrdered (laid : Laid top entries) (upright : middle.first ≤ middle.last) :
    (Space.carve entries middle).Pairwise fun a b => a.last < b.first := by
  obtain ⟨below, above⟩ := belowFilter laid middle.first
  obtain ⟨hit, clear⟩ := hitFilter laid (fun e => !decide (e.last < middle.first)) middle.last
  have rows (p : Entry κ → Bool) := laid.ordered.filter p
  simp only [Space.carve, below, above, hit, clear]
  simp only [List.pairwise_append, List.pairwise_cons, List.pairwise_map, List.mem_append,
    List.mem_cons, List.mem_map, List.mem_filter, Bool.not_eq_true', decide_eq_true_eq,
    decide_eq_false_iff_not, Nat.not_lt, Nat.not_le]
  refine ⟨⟨⟨rows _, ?_, ?_⟩, ⟨?_, ?_⟩, ?_⟩, (rows _).filter _, ?_⟩
  · refine (((rows _).filter _).filter _).imp_of_mem fun {x y} left _ before => ?_
    simp only [List.mem_filter, Bool.not_eq_true', decide_eq_false_iff_not, Nat.not_lt] at left
    omega
  · rintro x ⟨left, below⟩ _ ⟨y, ⟨⟨⟨right, reaches⟩, -⟩, -⟩, rfl⟩
    have clear : x.last < y.first := laidApart laid left right (.inr (by omega))
    exact clear
  · rintro _ ⟨y, -, rfl⟩
    exact Nat.lt_succ_self _
  · refine (((rows _).filter _).filter _).imp_of_mem fun {x y} left right before => ?_
    simp only [List.mem_filter, decide_eq_true_eq] at left right
    omega
  · rintro x (⟨-, below⟩ | ⟨x, ⟨-, first⟩, rfl⟩) y (rfl | ⟨y, -, rfl⟩)
    · exact below
    · dsimp only; omega
    · dsimp only; omega
    · dsimp only; omega
  · rintro x ((⟨-, below⟩ | ⟨x, ⟨-, first⟩, rfl⟩) | rfl | ⟨x, ⟨⟨⟨left, -⟩, first⟩, -⟩, rfl⟩) y
      ⟨⟨right, -⟩, behind⟩
    · omega
    · dsimp only
      omega
    · exact behind
    · have clear : x.last < y.first := laidApart laid left right (.inl (by omega))
      exact clear

theorem carveLaid (laid : Laid top entries) (upright : middle.first ≤ middle.last)
    (origin : middle.origin ≤ middle.first) (inside : middle.last ≤ top) :
    Laid top (Space.carve entries middle) := by
  constructor
  · exact carveOrdered laid upright
  · intro e mem
    rcases (memCarve laid upright).mp mem with rfl | ⟨old, mem, piece⟩
    · exact ⟨origin, upright, inside⟩
    · have within := laid.within old mem
      obtain ⟨same, -, first, order, last, -⟩ := pieceWithin within piece
      omega

theorem regionCovered (covering : Space.covering? entries a = some e) (floor : Nat) :
    Space.regionFrom top a floor entries = ⟨e.first, e.last, e.origin, e.handler⟩ := by
  induction entries generalizing floor with
  | nil => cases covering
  | cons head rest ih =>
    simp only [Space.covering?, Space.upFrom, List.dropWhile_cons, decide_eq_true_eq] at ih covering
    unfold Space.regionFrom
    split at covering
    · rename_i passed
      rw [if_pos passed]
      exact ih covering _
    · rename_i ahead
      obtain ⟨same, first⟩ := Option.filter_eq_some_iff.mp covering
      cases same
      rw [if_neg ahead, if_pos (of_decide_eq_true first)]

theorem regionGap (covering : Space.covering? entries a = none) (floor : Nat) :
    (Space.regionFrom top a floor entries).handler = .unmapped := by
  induction entries generalizing floor with
  | nil => rfl
  | cons head rest ih =>
    simp only [Space.covering?, Space.upFrom, List.dropWhile_cons, decide_eq_true_eq] at ih covering
    unfold Space.regionFrom
    split at covering
    · rename_i passed
      rw [if_pos passed]
      exact ih covering _
    · rename_i ahead
      have late : ¬ head.first ≤ a := by simpa using covering
      rw [if_neg ahead, if_neg late]

end

namespace Space
variable {s t : Space κ} {memory : Memory} {first last : Nat} {handler : Handler κ}
  {entries : List (Entry κ)} {top : Nat}

theorem validateCases (s : Space κ) (memory : Memory) (first last : Nat) (handler : Handler κ) :
    s.validate memory first last handler = .ok () ∧ s.Accepts memory first last handler ∨
    ∃ e, s.validate memory first last handler = .error e ∧ ¬ s.Accepts memory first last handler ∧
      ∀ x y, e ≠ .overlap s.name first last x y := by
  unfold validate
  by_cases frozen : s.frozen = true
  · refine .inr ⟨_, by rw [if_pos frozen]; rfl, fun accepts => ?_, fun _ _ => ConfigError.noConfusion⟩
    have thawed := accepts.thawed
    rw [frozen] at thawed
    cases thawed
  by_cases inverted : last < first
  · exact .inr ⟨_, by rw [if_neg frozen, if_pos inverted]; rfl,
      fun accepts => Nat.not_lt_of_le accepts.upright inverted, fun _ _ => ConfigError.noConfusion⟩
  by_cases outside : s.shape.maxAddress < last
  · exact .inr ⟨_, by rw [if_neg frozen, if_neg inverted, if_pos outside]; rfl,
      fun accepts => Nat.not_lt_of_le accepts.inside outside, fun _ _ => ConfigError.noConfusion⟩
  rw [if_neg frozen, if_neg inverted, if_neg outside]
  have sound (backed : ∀ d, handler.demand? memory (last - first + 1) = some d →
      d.needed ≤ d.available) : s.Accepts memory first last handler :=
    ⟨by simpa using frozen, Nat.le_of_not_lt inverted, Nat.le_of_not_lt outside, backed⟩
  cases demand : handler.demand? memory (last - first + 1) with
  | none => exact .inl ⟨rfl, sound fun d own => by rw [demand] at own; cases own⟩
  | some d =>
    by_cases short : d.available < d.needed
    · exact .inr ⟨.memoryTooSmall d.tag d.available d.needed, by simp only [if_pos short]; rfl,
        fun accepts => Nat.not_lt_of_le (accepts.backed d demand) short,
        fun _ _ => ConfigError.noConfusion⟩
    · refine .inl ⟨by simp only [if_neg short]; rfl, sound fun d' own => ?_⟩
      rw [demand] at own
      cases own
      exact Nat.le_of_not_lt short

theorem meetsIff (laid : Laid top entries) :
    (upFrom entries first).head?.filter (·.first ≤ last) = none ↔
      ∀ e ∈ entries, first ≤ e.last → last < e.first := by
  rw [(belowFilter laid first).2]
  have ordered := laid.ordered.filter fun e => !decide (e.last < first)
  have member (e : Entry κ) : e ∈ entries.filter (fun e => !decide (e.last < first)) ↔
      e ∈ entries ∧ first ≤ e.last := by
    simp [List.mem_filter]
  cases rows : entries.filter (fun e => !decide (e.last < first)) with
  | nil =>
    rw [rows] at member
    simp only [List.head?_nil, Option.filter_none, true_iff]
    intro e mem reaches
    cases (member e).mpr ⟨mem, reaches⟩
  | cons head rest =>
    rw [rows] at ordered member
    have behind := (List.pairwise_cons.mp ordered).1
    obtain ⟨mem, reaches⟩ := (member head).mp (List.mem_cons_self ..)
    have within := laid.within head mem
    rw [List.head?_cons, Option.filter_eq_none_iff]
    constructor
    · intro late e mem' reaches'
      have after : last < head.first := by simpa using late head rfl
      rcases List.mem_cons.mp ((member e).mpr ⟨mem', reaches'⟩) with rfl | later
      · exact after
      · have := behind e later
        omega
    · intro clear e own
      cases own
      simpa using clear head mem reaches

theorem carveBeside (clear : (upFrom entries first).head?.filter (·.first ≤ last) = none) :
    carve entries ⟨first, last, first, handler⟩ =
      below entries first ++ ⟨first, last, first, handler⟩ :: upFrom entries first := by
  unfold carve
  cases rows : upFrom entries first with
  | nil => simp
  | cons head rest =>
    have late : ¬ head.first ≤ last := by
      rw [rows] at clear
      simpa using clear
    simp [late]

theorem overrideCases (s : Space κ) (memory : Memory) (first last : Nat) (handler : Handler κ) :
    (s.override memory first last handler =
        .ok { s with entries := carve s.entries ⟨first, last, first, handler⟩ } ∧
      s.Accepts memory first last handler) ∨
    ∃ e, s.override memory first last handler = .error e ∧
      ¬ s.Accepts memory first last handler := by
  unfold override
  rcases validateCases s memory first last handler with ⟨ok, accepts⟩ | ⟨e, refused, rejects, -⟩
  · exact .inl ⟨by rw [ok]; rfl, accepts⟩
  · exact .inr ⟨e, by rw [refused]; rfl, rejects⟩

theorem installCases (laid : Laid top s.entries) (memory : Memory) (first last : Nat)
    (handler : Handler κ) :
    (s.install memory first last handler =
        .ok { s with entries := carve s.entries ⟨first, last, first, handler⟩ } ∧
      s.Accepts memory first last handler ∧ ∀ e ∈ s.entries, first ≤ e.last → last < e.first) ∨
    (∃ x y, s.install memory first last handler = .error (.overlap s.name first last x y) ∧
      s.Accepts memory first last handler ∧
        ∃ e ∈ s.entries, first ≤ e.last ∧ e.first ≤ last) ∨
    ∃ e, s.install memory first last handler = .error e ∧
      ¬ s.Accepts memory first last handler ∧ ∀ x y, e ≠ .overlap s.name first last x y := by
  unfold install
  rcases validateCases s memory first last handler with ⟨ok, accepts⟩ | ⟨e, refused, rest⟩
  · rw [ok]
    cases meets : (upFrom s.entries first).head?.filter (·.first ≤ last) with
    | none =>
      refine .inl ⟨?_, accepts, (meetsIff laid).mp meets⟩
      rw [carveBeside meets]
      simp only [meets]
      rfl
    | some other =>
      refine .inr (.inl ⟨other.first, other.last, by simp only [meets]; rfl, accepts, ?_⟩)
      refine Classical.byContradiction fun clear => ?_
      have none := (meetsIff laid).mpr fun e mem reaches =>
        Nat.lt_of_not_le fun first => clear ⟨e, mem, reaches, first⟩
      rw [meets] at none
      cases none
  · exact .inr (.inr ⟨e, by rw [refused]; rfl, rest⟩)

structure Faithful (s : Space κ) (calls : List (Mapping κ)) : Prop where
  laid : Laid s.shape.maxAddress s.entries
  shown : ∀ e ∈ s.entries, ∀ address, e.Covers address → ∃ c, latest? calls address = some c ∧
    c.first = e.origin ∧ c.handler = e.handler ∧ e.last ≤ c.last
  found : ∀ address c, latest? calls address = some c → ∃ e ∈ s.entries, e.Covers address

variable {calls : List (Mapping κ)}

theorem faithfulFresh (name : String) (shape : Shape) :
    Faithful ({ name, shape } : Space κ) [] := by
  refine ⟨⟨.nil, ?_⟩, ?_, ?_⟩ <;> simp [latest?]

theorem faithfulSame (faithful : Faithful s calls) (shape : t.shape = s.shape)
    (entries : t.entries = s.entries) : Faithful t calls := by
  obtain ⟨laid, shown, found⟩ := faithful
  rw [← shape, ← entries] at laid
  rw [← entries] at shown found
  exact ⟨laid, shown, found⟩

theorem latestCons (c : Mapping κ) (address : Nat) :
    latest? (c :: calls) address = if c.covers address then some c else latest? calls address := by
  rw [latest?, List.find?_cons]
  cases c.covers address <;> rfl

theorem faithfulCarve (faithful : Faithful s calls)
    (accepts : s.Accepts memory first last handler) :
    Faithful { s with entries := carve s.entries ⟨first, last, first, handler⟩ }
      (⟨first, last, handler⟩ :: calls) := by
  obtain ⟨laid, shown, found⟩ := faithful
  let middle : Entry κ := ⟨first, last, first, handler⟩
  have upright : middle.first ≤ middle.last := accepts.upright
  have member {e : Entry κ} := memCarve (e := e) laid upright
  have covers (address : Nat) :
      (Mapping.mk first last handler).covers address = true ↔ middle.Covers address := by
    simp [Mapping.covers, Entry.Covers, middle]
  refine ⟨carveLaid laid upright (Nat.le_refl _) accepts.inside, fun e mem address inside => ?_,
    fun address c latest => ?_⟩
  -- A range is the new one, or a piece that still shows what it did: the new call is clear of it.
  · rcases member.mp mem with rfl | ⟨old, mem, piece⟩
    · refine ⟨⟨first, last, handler⟩, ?_, rfl, rfl, Nat.le_refl _⟩
      rw [latestCons, if_pos ((covers address).mpr inside)]
    · obtain ⟨origin, same, left, -, right, clear⟩ := pieceWithin (laid.within old mem) piece
      obtain ⟨lower, upper⟩ := inside
      obtain ⟨c, latest, origin', same', last'⟩ :=
        shown old mem address ⟨Nat.le_trans left lower, Nat.le_trans upper right⟩
      have outside : ¬ middle.Covers address := fun within => by
        obtain ⟨lower', upper'⟩ := within
        omega
      refine ⟨c, ?_, origin'.trans origin.symm, same'.trans same.symm, Nat.le_trans right last'⟩
      rw [latestCons, if_neg (fun own => outside ((covers address).mp own)), latest]
  · rw [latestCons] at latest
    split at latest
    · rename_i own
      exact ⟨middle, member.mpr (.inl rfl), (covers address).mp own⟩
    · rename_i other
      obtain ⟨old, mem, inside⟩ := found address c latest
      have outside : ¬ middle.Covers address := fun own => other ((covers address).mpr own)
      obtain ⟨e, piece, inside⟩ := pieceCovers inside outside
      exact ⟨e, member.mpr (.inr ⟨old, mem, piece⟩), inside⟩

theorem faithfulEdit (faithful : Faithful s calls) (edit : Edit κ) :
    Faithful (s.edit edit).1 ((s.edit edit).2.toList ++ calls) := by
  cases edit with
  | install memory first last handler =>
    rcases installCases faithful.laid memory first last handler with
      ⟨ok, accepts, -⟩ | ⟨x, y, refused, -⟩ | ⟨e, refused, -⟩
    · simp only [Space.edit, ok]
      exact faithfulCarve faithful accepts
    · simp only [Space.edit, refused]
      exact faithful
    · simp only [Space.edit, refused]
      exact faithful
  | override memory first last handler =>
    rcases overrideCases s memory first last handler with ⟨ok, accepts⟩ | ⟨e, refused, -⟩
    · simp only [Space.edit, ok]
      exact faithfulCarve faithful accepts
    · simp only [Space.edit, refused]
      exact faithful
  | freeze => exact faithfulSame faithful rfl rfl
  | drive value => exact faithfulSame faithful rfl rfl
  | countRead => exact faithfulSame faithful rfl rfl
  | countWrite => exact faithfulSame faithful rfl rfl

theorem faithfulAll (faithful : Faithful s calls) (edits : List (Edit κ)) :
    Faithful (s.editAll edits calls).1 (s.editAll edits calls).2 := by
  induction edits generalizing s calls with
  | nil => exact faithful
  | cons edit edits ih => exact ih (faithfulEdit faithful edit)

theorem Faithful.lookup (faithful : Faithful s calls) (a : Nat) :
    (∀ c, latest? calls (s.shape.wrap a) = some c → ∃ e, s.lookup? a = some e ∧
        e.Covers (s.shape.wrap a) ∧ e.origin = c.first ∧ e.handler = c.handler ∧
        c.first ≤ e.first ∧ e.last ≤ c.last) ∧
      (latest? calls (s.shape.wrap a) = none → s.lookup? a = none) := by
  have covering {e : Entry κ} := coveringIff (a := s.shape.wrap a) (e := e) faithful.laid
  constructor
  · intro c latest
    obtain ⟨e, mem, covers⟩ := faithful.found _ c latest
    obtain ⟨c', latest', origin, handler, last⟩ := faithful.shown e mem _ covers
    cases latest.symm.trans latest'
    have within := faithful.laid.within e mem
    exact ⟨e, covering.mpr ⟨mem, covers⟩, covers, origin.symm, handler.symm, origin ▸ within.1,
      last⟩
  · intro open_
    cases found : s.lookup? a with
    | none => rfl
    | some e =>
      obtain ⟨mem, covers⟩ := covering.mp found
      obtain ⟨c, latest, -⟩ := faithful.shown e mem _ covers
      rw [open_] at latest
      cases latest

theorem Faithful.meets (faithful : Faithful s calls) (upright : first ≤ last) :
    (∃ e ∈ s.entries, first ≤ e.last ∧ e.first ≤ last) ↔
      ∃ b, first ≤ b ∧ b ≤ last ∧ (latest? calls b).isSome := by
  constructor
  · rintro ⟨e, mem, reaches, starts⟩
    have within := faithful.laid.within e mem
    obtain ⟨c, latest, -⟩ := faithful.shown e mem (max first e.first)
      ⟨Nat.le_max_right .., by omega⟩
    exact ⟨max first e.first, Nat.le_max_left .., by omega, by rw [latest]; rfl⟩
  · rintro ⟨b, lower, upper, reached⟩
    obtain ⟨c, latest⟩ := Option.isSome_iff_exists.mp reached
    obtain ⟨e, mem, starts, ends⟩ := faithful.found b c latest
    exact ⟨e, mem, Nat.le_trans lower ends, Nat.le_trans starts upper⟩

theorem Faithful.installed (faithful : Faithful s calls) :
    (∃ t, s.install memory first last handler = .ok t) ↔ s.Accepts memory first last handler ∧
      ∀ b, first ≤ b → b ≤ last → latest? calls b = none := by
  rcases installCases faithful.laid memory first last handler with
    ⟨ok, accepts, clear⟩ | ⟨x, y, refused, accepts, meets⟩ | ⟨e, refused, rejects, -⟩
  · refine iff_of_true ⟨_, ok⟩ ⟨accepts, fun b lower upper => ?_⟩
    refine Option.not_isSome_iff_eq_none.mp fun reached => ?_
    obtain ⟨e, mem, reaches, starts⟩ :=
      (faithful.meets accepts.upright).mpr ⟨b, lower, upper, reached⟩
    exact Nat.not_lt_of_le starts (clear e mem reaches)
  · obtain ⟨b, lower, upper, reached⟩ := (faithful.meets accepts.upright).mp meets
    refine iff_of_false (fun ⟨t, ok⟩ => ?_) fun ⟨_, clear⟩ => ?_
    · rw [refused] at ok
      cases ok
    · rw [clear b lower upper] at reached
      cases reached
  · refine iff_of_false (fun ⟨t, ok⟩ => ?_) fun ⟨accepts, _⟩ => rejects accepts
    rw [refused] at ok
    cases ok

theorem Faithful.overlapped (faithful : Faithful s calls) :
    (∃ x y, s.install memory first last handler = .error (.overlap s.name first last x y)) ↔
      s.Accepts memory first last handler ∧
        ∃ b, first ≤ b ∧ b ≤ last ∧ (latest? calls b).isSome := by
  rcases installCases faithful.laid memory first last handler with
    ⟨ok, accepts, clear⟩ | ⟨x, y, refused, accepts, meets⟩ | ⟨e, refused, rejects, other⟩
  · refine iff_of_false (fun ⟨x, y, refused⟩ => ?_) fun ⟨_, reached⟩ => ?_
    · rw [ok] at refused
      cases refused
    · obtain ⟨e, mem, reaches, starts⟩ := (faithful.meets accepts.upright).mpr reached
      exact Nat.not_lt_of_le starts (clear e mem reaches)
  · exact iff_of_true ⟨x, y, refused⟩ ⟨accepts, (faithful.meets accepts.upright).mp meets⟩
  · refine iff_of_false (fun ⟨x, y, overlap⟩ => ?_) fun ⟨accepts, _⟩ => rejects accepts
    rw [refused] at overlap
    exact other x y (Except.error.inj overlap)

theorem overridden : (∃ t, s.override memory first last handler = .ok t) ↔
    s.Accepts memory first last handler := by
  rcases overrideCases s memory first last handler with ⟨ok, accepts⟩ | ⟨e, refused, rejects⟩
  · exact iff_of_true ⟨_, ok⟩ accepts
  · refine iff_of_false (fun ⟨t, ok⟩ => ?_) rejects
    rw [refused] at ok
    cases ok

theorem editShape (s : Space κ) (edit : Edit κ) :
    (s.edit edit).1.shape = s.shape ∧ (s.edit edit).1.name = s.name := by
  cases edit with
  | install memory first last handler =>
    simp only [Space.edit, install]
    cases s.validate memory first last handler with
    | error e => exact ⟨rfl, rfl⟩
    | ok =>
      cases meets : (upFrom s.entries first).head?.filter (·.first ≤ last) <;>
        simp [bind, Except.bind, throw, throwThe, MonadExceptOf.throw, pure, Except.pure]
  | override memory first last handler =>
    simp only [Space.edit, override]
    cases s.validate memory first last handler <;> exact ⟨rfl, rfl⟩
  | _ => exact ⟨rfl, rfl⟩

theorem editAllShape (s : Space κ) (edits : List (Edit κ)) (calls : List (Mapping κ)) :
    (s.editAll edits calls).1.shape = s.shape ∧ (s.editAll edits calls).1.name = s.name := by
  induction edits generalizing s calls with
  | nil => exact ⟨rfl, rfl⟩
  | cons edit edits ih =>
    obtain ⟨shape, name⟩ := ih (s.edit edit).1 ((s.edit edit).2.toList ++ calls)
    exact ⟨shape.trans (editShape s edit).1, name.trans (editShape s edit).2⟩

end Space

end Bus

namespace Machine
open Bus

theorem readRegionSame (call : Callback) (id : SpaceId) (s : Space Port) {r r' : Region Port}
    (handler : r.handler = r'.handler) (origin : r.handler = .unmapped ∨ r.origin = r'.origin)
    (address : Nat) (width : Width) :
    readRegion call id s r address width = readRegion call id s r' address width := by
  have same : readHandler call s.shape.byteOrder r address width =
      readHandler call s.shape.byteOrder r' address width := by
    rcases origin with hole | origin
    · unfold readHandler
      rw [← handler, hole]
    · unfold readHandler
      rw [← handler, ← origin]
  unfold readRegion
  rw [same]

theorem writeRegionSame (call : Callback) (id : SpaceId) (s : Space Port) {r r' : Region Port}
    (handler : r.handler = r'.handler) (origin : r.handler = .unmapped ∨ r.origin = r'.origin)
    (address : Nat) (width : Width) (value : Nat) :
    writeRegion call id s r address width value = writeRegion call id s r' address width value := by
  have same : writeHandler call id s r address width value =
      writeHandler call id s r' address width value := by
    rcases origin with hole | origin
    · unfold writeHandler
      rw [← handler, hole]
    · unfold writeHandler
      rw [← handler, ← origin]
  unfold writeRegion
  rw [same]

end Machine

def Bus.Mapping.region (c : Bus.Mapping Port) : Bus.Region Port :=
  ⟨c.first, c.last, c.first, c.handler⟩

def Bus.serving (calls : List (Bus.Mapping Port)) (top address : Nat) : Bus.Region Port :=
  (Bus.latest? calls address).elim ⟨0, top, 0, .unmapped⟩ Bus.Mapping.region

namespace Machine
open Bus

theorem regionServing {s : Space Port} {calls : List (Mapping Port)} (faithful : s.Faithful calls)
    (top address : Nat) :
    (s.region address).handler = (serving calls top address).handler ∧
      ((s.region address).handler = .unmapped ∨
        (s.region address).origin = (serving calls top address).origin) := by
  unfold Space.region serving
  cases covering : Space.covering? s.entries address with
  | some e =>
    rw [regionCovered covering]
    obtain ⟨mem, covers⟩ := (coveringIff faithful.laid).mp covering
    obtain ⟨c, latest, origin, handler, -⟩ := faithful.shown e mem address covers
    rw [latest]
    exact ⟨handler.symm, .inr origin.symm⟩
  | none =>
    have gap : (Space.regionFrom s.shape.maxAddress address 0 s.entries).handler = .unmapped :=
      regionGap covering 0
    have open_ : latest? calls address = none := by
      cases latest : latest? calls address with
      | none => rfl
      | some c =>
        obtain ⟨e, mem, covers⟩ := faithful.found address c latest
        rw [(coveringIff faithful.laid).mpr ⟨mem, covers⟩] at covering
        cases covering
    rw [open_, gap]
    exact ⟨rfl, .inl rfl⟩

theorem readServing {s : Space Port} {calls : List (Mapping Port)} (faithful : s.Faithful calls)
    (call : Callback) {m : Machine} {id : SpaceId} (found : m.space? id = some s) (a : Nat) :
    read call id a .byte m = readRegion call id s
      (serving calls s.shape.maxAddress (s.shape.wrap a)) (s.shape.wrap a) .byte m := by
  obtain ⟨handler, origin⟩ := regionServing faithful s.shape.maxAddress (s.shape.wrap a)
  change readRank call id 0 a m = _
  unfold readRank
  rw [Run.getBind, found]
  exact congrFun (readRegionSame call id s handler origin ..) m

theorem writeServing {s : Space Port} {calls : List (Mapping Port)} (faithful : s.Faithful calls)
    (call : Callback) {m : Machine} {id : SpaceId} (found : m.space? id = some s) (a value : Nat) :
    write call id a .byte value m = writeRegion call id s
      (serving calls s.shape.maxAddress (s.shape.wrap a)) (s.shape.wrap a) .byte
        (value % Width.byte.size) m := by
  obtain ⟨handler, origin⟩ := regionServing faithful s.shape.maxAddress (s.shape.wrap a)
  change writeRank call id 0 a value m = _
  unfold writeRank
  rw [Run.getBind, found]
  exact congrFun (writeRegionSame call id s handler origin ..) m

theorem wrapMask (shape : Shape) (a : Nat) : a &&& shape.maxAddress = shape.wrap a :=
  Nat.and_two_pow_sub_one_eq_mod a (min shape.addressBits 64)

theorem mapFault {call : Callback} {override : Bool} {route : Route} {first last : Nat}
    {target : Target Port} {m m' : Machine} {fault : Fault}
    (ran : (Command.map override route first last target).run call m = some (.fault fault, m')) :
    m' = m := by
  rw [Command.run, onSpace, Run.getBind] at ran
  cases resolved : m.resolve route with
  | error e =>
    rw [resolved] at ran
    exact (Run.pureInv ran).2.symm
  | ok id =>
    simp only [resolved, Run.getBind] at ran
    cases found : m.handler? target with
    | none =>
      rw [found] at ran
      exact (Run.pureInv ran).2.symm
    | some handler =>
      simp only [found] at ran
      cases mapped : m.map override id first last handler with
      | error e =>
        rw [mapped] at ran
        exact (Run.pureInv ran).2.symm
      | ok t =>
        rw [mapped] at ran
        exact absurd (Run.pureInv ran).1 Reply.noConfusion

/-- An address space shows what was mapped last. After any edits, an address finds what the
latest accepted call around it mapped there, and a byte read or written there goes to that
handler, at the offset from the start of that call; where no call reaches, the bus is open. An
install is refused for an overlap exactly if its range is valid and meets what is visible, and a
mapping that is refused changes nothing. -/
theorem addressMap {name : String} {shape : Shape} {edits : List (Edit Port)} {s : Space Port}
    {calls : List (Mapping Port)}
    (after : Space.editAll { name, shape } edits [] = (s, calls)) :
    (∀ a, (∀ c, latest? calls (a &&& shape.maxAddress) = some c → ∃ e, s.lookup? a = some e ∧
          e.Covers (a &&& shape.maxAddress) ∧ e.origin = c.first ∧ e.handler = c.handler ∧
          c.first ≤ e.first ∧ e.last ≤ c.last) ∧
        (latest? calls (a &&& shape.maxAddress) = none → s.lookup? a = none)) ∧
      (∀ (call : Callback) (m : Machine) (id : SpaceId), m.space? id = some s → ∀ a,
        let b := a &&& shape.maxAddress
        read call id a .byte m =
            readRegion call id s (serving calls shape.maxAddress b) b .byte m ∧
          ∀ value, write call id a .byte value m = writeRegion call id s
            (serving calls shape.maxAddress b) b .byte (value % Width.byte.size) m) ∧
      (∀ (memory : Memory) (first last : Nat) (handler : Handler Port),
        ((∃ t, s.install memory first last handler = .ok t) ↔
            s.Accepts memory first last handler ∧
              ∀ b, first ≤ b → b ≤ last → latest? calls b = none) ∧
          ((∃ x y, s.install memory first last handler =
                .error (.overlap s.name first last x y)) ↔
            s.Accepts memory first last handler ∧
              ∃ b, first ≤ b ∧ b ≤ last ∧ (latest? calls b).isSome) ∧
          ((∃ t, s.override memory first last handler = .ok t) ↔
            s.Accepts memory first last handler)) ∧
      ∀ (call : Callback) (override : Bool) (route : Route) (first last : Nat)
        (target : Target Port) (m m' : Machine) (fault : Fault),
        (Command.map override route first last target).run call m = some (.fault fault, m') →
          m' = m := by
  have faithful := Space.faithfulAll (Space.faithfulFresh name shape) edits
  have same := (Space.editAllShape { name, shape } edits []).1
  rw [after] at faithful same
  simp only at faithful same
  subst same
  simp only [wrapMask]
  refine ⟨faithful.lookup, fun call m id found a => ?_, fun memory first last handler => ?_,
    fun _ _ _ _ _ _ _ _ _ => mapFault⟩
  · exact ⟨readServing faithful call found a, writeServing faithful call found a⟩
  · exact ⟨faithful.installed, faithful.overlapped, Space.overridden⟩

section
def slotShape : Shape := ⟨.program, 8, .byte, .little, .fixed 0xFF⟩

def slotEdits : List (Edit Port) :=
  let memory := Memory.putBlock {} (.zeroed "ram" 0x20)
  [.install memory 0x40 0x5F (.ram ⟨0⟩ 0), .override memory 0x48 0x4F .unmapped,
    .install memory 0x30 0x44 .unmapped, .freeze]

def slotSpace : Space Port := { name := "bus", shape := slotShape }

theorem slotMap : ∃ s calls, slotSpace.editAll slotEdits [] = (s, calls) ∧ calls.length = 2 ∧
    ∃ e, s.lookup? 0x155 = some e ∧ e.Covers 0x55 ∧ e.origin = 0x40 ∧ e.handler = .ram ⟨0⟩ 0 ∧
      0x40 ≤ e.first ∧ e.last ≤ 0x5F := by
  have after : slotSpace.editAll slotEdits [] = ((slotSpace.editAll slotEdits []).1,
    [⟨0x48, 0x4F, .unmapped⟩, ⟨0x40, 0x5F, .ram ⟨0⟩ 0⟩]) := rfl
  exact ⟨_, _, after, rfl, ((addressMap after).1 0x155).1 ⟨0x40, 0x5F, .ram ⟨0⟩ 0⟩ rfl⟩

end

end Machine

end Lockstep
