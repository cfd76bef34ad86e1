import Lockstep.Proofs.WideAccess

/-! Bisection of a map. The ranges of a space are in order and apart, so a search that halves
them finds the place that a walk does, and the sums and differences with which the ends of gaps
and of cut ranges are found stay within a word, also in a space of all 64-bit addresses. What is
found for an address is one whole range or the widest gap around it. -/
namespace Lockstep

namespace Word

def succ? (n : Nat) : Option Nat := if n < largest then some (n + 1) else none

def pred? (n : Nat) : Option Nat := if 0 < n then some (n - 1) else none

theorem succSome {n m : Nat} (less : n < m) (word : m ≤ largest) : succ? n = some (n + 1) :=
  if_pos (Nat.lt_of_lt_of_le less word)

theorem predSome {n m : Nat} (less : n < m) : pred? m = some (m - 1) :=
  if_pos (Nat.zero_lt_of_lt less)

end Word

namespace Bus

section
variable {α : Type} {p q : α → Bool} {rows : List α}

def Parted (p : α → Bool) (rows : List α) : Prop :=
  rows.Pairwise fun x y => p y = true → p x = true

def bisect (p : α → Bool) (rows : List α) (low high : Nat) : Nat :=
  if low < high then
    let middle := low + (high - low) / 2
    if (rows[middle]?).any p then bisect p rows (middle + 1) high else bisect p rows low middle
  else low
termination_by high - low

def partitionPoint (p : α → Bool) (rows : List α) : Nat := bisect p rows 0 rows.length

theorem passesAt (parted : Parted p rows) (i : Nat) :
    (rows[i]?).any p = true ↔ i < (rows.takeWhile p).length := by
  obtain ⟨passing, failing⟩ := splitAtFilter parted
  have parts : rows.takeWhile p ++ rows.dropWhile p = rows := List.takeWhile_append_dropWhile
  constructor
  · intro passes
    obtain ⟨y, there, passes⟩ := (Option.any_eq_true ..).mp passes
    refine Nat.lt_of_not_le fun beyond => ?_
    rw [← parts, List.getElem?_append_right beyond, failing] at there
    have fails := (List.mem_filter.mp (List.mem_of_getElem? there)).2
    rw [passes] at fails
    cases fails
  · intro inside
    obtain ⟨y, there⟩ : ∃ y, (rows.takeWhile p)[i]? = some y :=
      ⟨_, List.getElem?_eq_getElem inside⟩
    have mem := List.mem_of_getElem? there
    rw [passing] at mem
    rw [← parts, List.getElem?_append_left inside, there]
    exact (List.mem_filter.mp mem).2

theorem bisectEnds (parted : Parted p rows) (low high : Nat)
    (lower : low ≤ (rows.takeWhile p).length) (upper : (rows.takeWhile p).length ≤ high) :
    bisect p rows low high = (rows.takeWhile p).length := by
  induction low, high using bisect.induct p rows with
  | case1 low high more middle passes ih =>
    have inside := (passesAt parted middle).mp passes
    rw [bisect, if_pos more]
    exact (if_pos passes).trans (ih inside upper)
  | case2 low high more middle fails ih =>
    have outside := mt (passesAt parted middle).mpr fails
    rw [bisect, if_pos more]
    exact (if_neg fails).trans (ih lower (Nat.le_of_not_lt outside))
  | case3 low high none =>
    rw [bisect, if_neg none]
    omega

theorem partitionWalk (parted : Parted p rows) :
    partitionPoint p rows = (rows.takeWhile p).length := by
  refine bisectEnds parted 0 rows.length (Nat.zero_le _) ?_
  exact (List.takeWhile_prefix p).length_le

theorem takePoint (parted : Parted p rows) :
    rows.take (partitionPoint p rows) = rows.takeWhile p := by
  rw [partitionWalk parted]
  exact (List.prefix_iff_eq_take.mp (List.takeWhile_prefix p)).symm

theorem dropPoint (parted : Parted p rows) :
    rows.drop (partitionPoint p rows) = rows.dropWhile p := by
  have parts : rows.takeWhile p ++ rows.dropWhile p = rows := List.takeWhile_append_dropWhile
  calc rows.drop (partitionPoint p rows)
      = (rows.takeWhile p ++ rows.dropWhile p).drop (rows.takeWhile p).length := by
        rw [parts, partitionWalk parted]
    _ = rows.dropWhile p := List.drop_left ..

theorem atPoint (parted : Parted p rows) :
    rows[partitionPoint p rows]? = (rows.dropWhile p).head? := by
  rw [← dropPoint parted, List.head?_drop]

theorem beforePoint (parted : Parted p rows) :
    ((Word.pred? (partitionPoint p rows)).bind fun i => rows[i]?) =
      (rows.takeWhile p).getLast? := by
  rw [← takePoint parted]
  generalize place : partitionPoint p rows = i
  have inside : i ≤ rows.length := by
    rw [← place, partitionWalk parted]
    exact (List.takeWhile_prefix p).length_le
  cases i with
  | zero => rfl
  | succ i =>
    rw [List.getLast?_eq_getElem?, List.length_take_of_le inside, List.getElem?_take]
    simp [Word.pred?]

theorem mapMTotal {β : Type} {f : α → Option β} {g : α → β}
    (total : ∀ x ∈ rows, f x = some (g x)) : rows.mapM f = some (rows.map g) := by
  refine mapMSome.mpr ?_
  rw [List.map_map]
  exact List.map_congr_left total

theorem takeBetween (stronger : ∀ x ∈ rows, p x = true → q x = true) :
    rows.takeWhile q = rows.takeWhile p ++ (rows.dropWhile p).takeWhile q ∧
      rows.dropWhile q = (rows.dropWhile p).dropWhile q := by
  induction rows with
  | nil => simp
  | cons x rows ih =>
    obtain ⟨here, later⟩ := List.forall_mem_cons.mp stronger
    obtain ⟨taken, dropped⟩ := ih later
    by_cases passes : p x = true
    · simp [passes, here passes, taken, dropped]
    · simp [passes]

end

variable {κ : Type} {top a : Nat} {entries : List (Entry κ)} {middle : Entry κ}

theorem lastParted (laid : Laid top entries) (a : Nat) : Parted (·.last < a) entries := by
  refine laid.ordered.imp_of_mem fun {x y} _ mem before => ?_
  have within := laid.within y mem
  simp only [decide_eq_true_eq]
  omega

theorem firstParted (laid : Laid top entries) (a : Nat) : Parted (·.first ≤ a) entries := by
  refine laid.ordered.imp_of_mem fun {x y} mem _ before => ?_
  have within := laid.within x mem
  simp only [decide_eq_true_eq]
  omega

namespace Space

def splice? (entries : List (Entry κ)) (middle : Entry κ) : Option (List (Entry κ)) := do
  let start := partitionPoint (·.last < middle.first) entries
  let stop := partitionPoint (·.first ≤ middle.last) entries
  guard (start ≤ stop)
  let hit := (entries.take stop).drop start
  let left ← (hit.filter (·.first < middle.first)).mapM fun e =>
    (Word.pred? middle.first).map fun last => { e with last }
  let right ← (hit.filter (middle.last < ·.last)).mapM fun e =>
    (Word.succ? middle.last).map fun first => { e with first }
  some (entries.take start ++ left ++ middle :: right ++ entries.drop stop)

def resolve? (s : Space κ) (address : Nat) : Option (Region κ) :=
  let index := partitionPoint (·.last < address) s.entries
  match s.entries[index]?.filter (·.first ≤ address) with
  | some e => some ⟨e.first, e.last, e.origin, e.handler⟩
  | none => do
      let before := (Word.pred? index).bind fun i => s.entries[i]?
      let first ← before.elim (some 0) fun e => Word.succ? e.last
      let last ← s.entries[index]?.elim (some s.shape.maxAddress) fun e => Word.pred? e.first
      some ⟨first, last, first, .unmapped⟩

inductive Around (s : Space κ) (address : Nat) : Region κ → Prop where
  | range (e : Entry κ) (mem : e ∈ s.entries) (covers : e.Covers address) :
      Around s address ⟨e.first, e.last, e.origin, e.handler⟩
  | gap (first last : Nat) (lower : first ≤ address) (upper : address ≤ last)
      (inside : last ≤ s.shape.maxAddress)
      (clear : ∀ e ∈ s.entries, e.last < first ∨ last < e.first)
      (widest : ∀ x y, x ≤ address → address ≤ y → y ≤ s.shape.maxAddress →
        (∀ e ∈ s.entries, e.last < x ∨ y < e.first) → first ≤ x ∧ y ≤ last) :
      Around s address ⟨first, last, first, .unmapped⟩

theorem pointsBetween (laid : Laid top entries) (upright : middle.first ≤ middle.last) :
    let start := partitionPoint (fun e => decide (e.last < middle.first)) entries
    let stop := partitionPoint (fun e => decide (e.first ≤ middle.last)) entries
    start ≤ stop ∧
      (entries.take stop).drop start =
        (upFrom entries middle.first).takeWhile (·.first ≤ middle.last) ∧
      entries.drop stop = (upFrom entries middle.first).dropWhile (·.first ≤ middle.last) := by
  have ends := lastParted laid middle.first
  have starts := firstParted laid middle.last
  obtain ⟨taken, dropped⟩ := takeBetween
    (p := fun e : Entry κ => decide (e.last < middle.first))
    (q := fun e : Entry κ => decide (e.first ≤ middle.last)) fun e mem before => by
      have within := laid.within e mem
      simp only [decide_eq_true_eq] at before ⊢
      omega
  refine ⟨?_, ?_, ?_⟩
  · rw [partitionWalk ends, partitionWalk starts, taken, List.length_append]
    exact Nat.le_add_right ..
  · rw [takePoint starts, taken, partitionWalk ends, List.drop_left]
    rfl
  · rw [dropPoint starts, dropped]
    rfl

theorem spliceCarve (laid : Laid top entries) (word : top ≤ Word.largest)
    (upright : middle.first ≤ middle.last) :
    splice? entries middle = some (carve entries middle) := by
  obtain ⟨order, hit, rest⟩ := pointsBetween laid upright
  have left : (((upFrom entries middle.first).takeWhile (·.first ≤ middle.last)).filter
      (·.first < middle.first)).mapM (fun e =>
        (Word.pred? middle.first).map fun last => { e with last }) = some (List.map _ _) :=
    mapMTotal (g := fun e => { e with last := middle.first - 1 }) fun e mem => by
      rw [Word.predSome (of_decide_eq_true (List.mem_filter.mp mem).2)]
      rfl
  have right : (((upFrom entries middle.first).takeWhile (·.first ≤ middle.last)).filter
      (middle.last < ·.last)).mapM (fun e =>
        (Word.succ? middle.last).map fun first => { e with first }) = some (List.map _ _) :=
    mapMTotal (g := fun e => { e with first := middle.last + 1 }) fun e mem => by
      obtain ⟨mem, behind⟩ := List.mem_filter.mp mem
      have known : e ∈ entries :=
        (List.dropWhile_sublist _).mem ((List.takeWhile_sublist _).mem mem)
      have room := Nat.le_trans (laid.within e known).2.2 word
      rw [Word.succSome (of_decide_eq_true behind) room]
      rfl
  have upward : (guard (partitionPoint (fun e : Entry κ => decide (e.last < middle.first)) entries ≤
      partitionPoint (fun e : Entry κ => decide (e.first ≤ middle.last)) entries) : Option Unit) =
      some () := if_pos order
  unfold splice?
  dsimp only
  rw [upward, hit, rest, takePoint (lastParted laid middle.first), left, right]
  rfl

theorem gapFirst {x : Nat} (laid : Laid top entries) (gap : covering? entries a = none)
    {floor : Nat} (under : ∀ e ∈ entries, floor ≤ e.last + 1) :
    (regionFrom top a floor entries).first ≤ x ↔
      floor ≤ x ∧ ∀ e ∈ entries, e.last < a → e.last < x := by
  induction entries generalizing floor with
  | nil => simp [regionFrom]
  | cons e rest ih =>
    have behind := (List.pairwise_cons.mp laid.ordered).1
    have within := laid.within e (List.mem_cons_self ..)
    simp only [covering?, upFrom, List.dropWhile_cons, decide_eq_true_eq] at ih gap
    unfold regionFrom
    rw [List.forall_mem_cons]
    have here := under e (List.mem_cons_self ..)
    by_cases passed : e.last < a
    · rw [if_pos passed] at gap ⊢
      rw [ih (laidTail laid) gap fun e' mem => ?_]
      · constructor
        · rintro ⟨past, rest⟩
          exact ⟨by omega, fun _ => past, rest⟩
        · rintro ⟨-, past, rest⟩
          exact ⟨past passed, rest⟩
      · have := behind e' mem
        have := (laidTail laid).within e' mem
        omega
    · rw [if_neg passed] at gap ⊢
      have ahead : ¬ e.first ≤ a := by simpa using gap
      rw [if_neg ahead]
      dsimp only
      refine ⟨fun order => ⟨order, fun early => absurd early passed, fun e' mem early => ?_⟩,
        fun all => all.1⟩
      have := behind e' mem
      have := (laidTail laid).within e' mem
      omega

theorem gapEnds (gap : covering? entries a = none) (floor : Nat) :
    regionFrom top a floor entries =
      let first := ((below entries a).getLast?).elim floor (·.last + 1)
      ⟨first, ((upFrom entries a).head?).elim top (·.first - 1), first, .unmapped⟩ := by
  induction entries generalizing floor with
  | nil => rfl
  | cons e rest ih =>
    simp only [covering?, below, upFrom, List.dropWhile_cons, List.takeWhile_cons,
      decide_eq_true_eq] at ih gap ⊢
    unfold regionFrom
    by_cases passed : e.last < a
    · rw [if_pos passed] at gap
      simp only [if_pos passed, ih gap, List.getLast?_cons]
      cases (rest.takeWhile fun e => decide (e.last < a)).getLast? <;> rfl
    · rw [if_neg passed] at gap
      have ahead : ¬ e.first ≤ a := by simpa using gap
      simp [passed, ahead]

theorem resolveRegion {s : Space κ} (laid : Laid s.shape.maxAddress s.entries)
    (word : s.shape.maxAddress ≤ Word.largest) (inside : a ≤ s.shape.maxAddress) :
    s.resolve? a = some (s.region a) := by
  have ends := lastParted laid a
  have found : s.entries[partitionPoint (fun e => decide (e.last < a)) s.entries]? =
    (upFrom s.entries a).head? := atPoint ends
  have before : ((Word.pred? (partitionPoint (fun e => decide (e.last < a)) s.entries)).bind
    fun i => s.entries[i]?) = (below s.entries a).getLast? := beforePoint ends
  unfold resolve? region
  simp only [found, before]
  cases covering : covering? s.entries a with
  | some e =>
    rw [regionCovered covering, show (upFrom s.entries a).head?.filter _ = some e from covering]
  | none =>
    rw [gapEnds covering, show (upFrom s.entries a).head?.filter _ = none from covering]
    have first : (below s.entries a).getLast?.elim (some 0) (fun e => Word.succ? e.last) =
        some ((below s.entries a).getLast?.elim 0 (·.last + 1)) := by
      cases last : (below s.entries a).getLast? with
      | none => rfl
      | some e =>
        have mem := List.mem_of_getLast? last
        rw [(belowFilter laid a).1, List.mem_filter] at mem
        exact Word.succSome (of_decide_eq_true mem.2) (Nat.le_trans inside word)
    have last : (upFrom s.entries a).head?.elim (some s.shape.maxAddress)
        (fun e => Word.pred? e.first) =
        some ((upFrom s.entries a).head?.elim s.shape.maxAddress (·.first - 1)) := by
      cases head : (upFrom s.entries a).head? with
      | none => rfl
      | some e =>
        have ahead : ¬ e.first ≤ a := by simpa [covering?, head] using covering
        exact Word.predSome (Nat.lt_of_not_le ahead)
    simp only [first, last]
    rfl

theorem regionAround {s : Space κ} (laid : Laid s.shape.maxAddress s.entries)
    (inside : a ≤ s.shape.maxAddress) : s.Around a (s.region a) := by
  unfold region
  cases covering : covering? s.entries a with
  | some e =>
    obtain ⟨mem, covers⟩ := (coveringIff laid).mp covering
    rw [regionCovered covering]
    exact .range e mem covers
  | none =>
    have apart (e : Entry κ) (mem : e ∈ s.entries) : e.last < a ∨ a < e.first := by
      refine Classical.byContradiction fun meets => ?_
      have covers : e.Covers a := by unfold Entry.Covers; omega
      rw [(coveringIff laid).mpr ⟨mem, covers⟩] at covering
      cases covering
    have under : ∀ e ∈ s.entries, 0 ≤ e.last + 1 := fun _ _ => Nat.zero_le _
    have first {x : Nat} := gapFirst (x := x) laid covering under
    have last {x : Nat} := gapLast (x := x) laid covering 0
    obtain ⟨-, past⟩ := first.mp (Nat.le_refl _)
    obtain ⟨short, ahead⟩ := last.mp (Nat.le_refl _)
    have gap : s.Around a _ := .gap _ _
      (first.mpr ⟨Nat.zero_le _, fun e mem => id⟩) (last.mpr ⟨inside, apart⟩) short
      (fun e mem => (ahead e mem).imp_left (past e mem)) fun x y low high reach clear =>
        ⟨first.mpr ⟨Nat.zero_le _, fun e mem early => ?_⟩, last.mpr ⟨reach, fun e mem => ?_⟩⟩
    · rw [gapEnds covering 0] at gap ⊢
      exact gap
    · have within := laid.within e mem
      have := clear e mem
      omega
    · have := clear e mem
      omega

theorem installPoint {s t : Space κ} {memory : Memory} {first last : Nat} {handler : Handler κ}
    (laid : Laid top s.entries) (done : s.install memory first last handler = .ok t) :
    let index := partitionPoint (fun e : Entry κ => decide (e.last < first)) s.entries
    t.entries =
      s.entries.take index ++ ⟨first, last, first, handler⟩ :: s.entries.drop index := by
  have ends := lastParted laid first
  rcases installCases laid memory first last handler with
    ⟨ok, -, clear⟩ | ⟨x, y, refused, -⟩ | ⟨e, refused, -⟩
  · rw [ok] at done
    cases done
    dsimp only
    rw [carveBeside ((meetsIff laid).mpr clear), takePoint ends, dropPoint ends]
    rfl
  · rw [refused] at done
    cases done
  · rw [refused] at done
    cases done

theorem overrideSplice {s t : Space κ} {memory : Memory} {first last : Nat} {handler : Handler κ}
    (laid : Laid top s.entries) (word : top ≤ Word.largest)
    (done : s.override memory first last handler = .ok t) :
    splice? s.entries ⟨first, last, first, handler⟩ = some t.entries := by
  rcases overrideCases s memory first last handler with ⟨ok, accepts⟩ | ⟨e, refused, -⟩
  · rw [ok] at done
    cases done
    exact spliceCarve laid word accepts.upright
  · rw [refused] at done
    cases done

end Space

theorem Shape.maxWord (shape : Shape) : shape.maxAddress ≤ Word.largest := by
  have size : shape.size ≤ 2 ^ 64 := Nat.pow_le_pow_right (by decide) (Nat.min_le_right ..)
  exact Nat.sub_le_of_le_add size

/-- Whatever is mapped into a space of any shape, its ranges stay in order and apart, each from
its origin on and within the space. So both tests by which a place is searched part them, what is
found there serves an address or takes in a new range, the ends of gaps and of cut ranges are
words, and an address is served by one whole range or lies in the widest gap. -/
theorem rangesBisected (name : String) (shape : Shape) (edits : List (Edit κ)) :
    let s := (({ name, shape } : Space κ).editAll edits []).1
    s.entries.Pairwise (fun a b => a.first < b.first ∧ ∀ x, ¬ (a.Covers x ∧ b.Covers x)) ∧
    (∀ e ∈ s.entries, e.origin ≤ e.first ∧ e.first ≤ e.last ∧ e.last ≤ shape.maxAddress) ∧
    (∀ a, Parted (·.last < a) s.entries ∧ Parted (·.first ≤ a) s.entries) ∧
    (∀ memory first last handler t, s.install memory first last handler = .ok t →
      let index := partitionPoint (fun e : Entry κ => decide (e.last < first)) s.entries
      t.entries =
        s.entries.take index ++ ⟨first, last, first, handler⟩ :: s.entries.drop index) ∧
    (∀ memory first last handler t, s.override memory first last handler = .ok t →
      Space.splice? s.entries ⟨first, last, first, handler⟩ = some t.entries) ∧
    ∀ address, let a := shape.wrap address
      s.lookup? address =
        s.entries[partitionPoint (fun e : Entry κ => decide (e.last < a)) s.entries]?.filter
          (·.first ≤ a) ∧
      s.resolve? a = some (s.region a) ∧ s.Around a (s.region a) := by
  intro s
  have laid : Laid s.shape.maxAddress s.entries :=
    (Space.faithfulAll (Space.faithfulFresh name shape) edits).laid
  have same : s.shape = shape := (Space.editAllShape { name, shape } edits []).1
  have word := s.shape.maxWord
  rw [← same]
  refine ⟨laid.ordered.imp_of_mem fun {x y} left right before => ?_, laid.within,
    fun a => ⟨lastParted laid a, firstParted laid a⟩,
    fun _ _ _ _ _ => Space.installPoint laid, fun _ _ _ _ _ => Space.overrideSplice laid word,
    fun address => ⟨?_, Space.resolveRegion laid word (s.shape.wrapLe address),
      Space.regionAround laid (s.shape.wrapLe address)⟩⟩
  · have within := laid.within x left
    unfold Entry.Covers
    exact ⟨by omega, by omega⟩
  · rw [atPoint (lastParted laid _)]
    rfl

def expanseEdits : List (Edit Unit) :=
  [.install {} 0 0xFFFF_FFFF_FFFF_FFFF .unmapped, .override {} 0 0xF .unmapped,
    .override {} 0xFFFF_FFFF_FFFF_FFF0 0xFFFF_FFFF_FFFF_FFFF .unmapped,
    .override {} 0x40 0x4F (.port ())]

def expanse : Space Unit := { name := "expanse", shape := ⟨.data, 64, .qword, .big, .lastDriven⟩ }

theorem expanseBisected :
    let s := (expanse.editAll expanseEdits []).1
    s.entries.map (fun e => (e.first, e.last, e.origin)) =
      [(0, 0xF, 0), (0x10, 0x3F, 0), (0x40, 0x4F, 0x40), (0x50, 0xFFFF_FFFF_FFFF_FFEF, 0),
        (0xFFFF_FFFF_FFFF_FFF0, 0xFFFF_FFFF_FFFF_FFFF, 0xFFFF_FFFF_FFFF_FFF0)] ∧
    ∃ t, s.override {} 0x48 0xFFFF_FFFF_FFFF_FFFF .unmapped = .ok t ∧
      Space.splice? s.entries ⟨0x48, 0xFFFF_FFFF_FFFF_FFFF, 0x48, .unmapped⟩ = some t.entries := by
  have bisected := rangesBisected "expanse" expanse.shape expanseEdits
  exact ⟨rfl, _, rfl, bisected.2.2.2.2.1 {} 0x48 0xFFFF_FFFF_FFFF_FFFF .unmapped _ rfl⟩

end Bus

end Lockstep
