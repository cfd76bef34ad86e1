import Mathlib.Algebra.GroupWithZero.Nat
import Mathlib.Algebra.Order.BigOperators.Group.List
import Mathlib.Algebra.Order.Group.Nat
import Lockstep.Proofs.TimerQueue

/-! How many firings a queue still has up to a time before the last. A pop takes one of them, and a
queue that nothing is armed in has no more of them later. -/
namespace Lockstep.Timer

def shotsLeft (limit time period : Time) : Nat :=
  if limit < time then 0
  else if period.isZero then 1
  else (limit.attos - time.attos) / period.attos + 1

section
variable {limit time period : Time}

theorem shotsNone (late : limit < time) : shotsLeft limit time period = 0 := if_pos late

theorem shotsOnce (due : time ≤ limit) (once : period.isZero = true) :
    shotsLeft limit time period = 1 := by
  have due : ¬ limit < time := Nat.not_lt.mpr due
  rw [shotsLeft, if_neg due, if_pos once]

theorem periodPositive (recurring : ¬ period.isZero = true) : 0 < period.attos := by
  simp only [Time.isZero, beq_iff_eq] at recurring
  exact Nat.pos_of_ne_zero recurring

theorem shotsAgain (early : limit < .never) (due : time ≤ limit)
    (recurring : ¬ period.isZero = true) :
    shotsLeft limit time period = shotsLeft limit (time + period) period + 1 := by
  have positive := periodPositive recurring
  have now : ¬ limit < time := Nat.not_lt.mpr due
  unfold shotsLeft
  rw [if_neg now, if_neg recurring, if_neg recurring]
  simp only [Time.le_def, Time.lt_def, Time.attos_never, Time.attos_add] at *
  split <;> rename_i next
  · rw [Nat.div_eq_of_lt (by omega)]
  · have sum : min (time.attos + period.attos) Time.last = time.attos + period.attos := by omega
    have split : limit.attos - time.attos =
        limit.attos - (time.attos + period.attos) + period.attos := by omega
    rw [sum, split, Nat.add_div_right _ positive]

theorem shotsIff {k : Nat} : k < shotsLeft limit time period ↔
    (period.isZero = true → k = 0) ∧ time.attos + k * period.attos ≤ limit.attos := by
  unfold shotsLeft
  split
  · rename_i late
    rw [Time.lt_def] at late
    exact ⟨fun none => absurd none (Nat.not_lt_zero k), fun due => by have := due.2; omega⟩
  · rename_i due
    rw [Time.lt_def, Nat.not_lt] at due
    split
    · rename_i once
      have empty : period.attos = 0 := by simpa [Time.isZero] using once
      simp only [once, empty, forall_const, Nat.mul_zero]
      omega
    · rename_i recurring
      rw [Nat.lt_succ_iff, Nat.le_div_iff_mul_le (periodPositive recurring)]
      simp only [recurring, Bool.false_eq_true, false_implies, true_and]
      omega

end

namespace Queue
variable {q p r : Queue} {s : Slot} {limit : Time} {fired : Fired} {key : Key} {rest : List Key}

def periodAt (slots : Array Slot) (index : Nat) : Time := (slots[index]?).elim .zero Slot.period

def shotsOf (slots : Array Slot) (limit : Time) (key : Key) : Nat :=
  shotsLeft limit key.time (periodAt slots key.slot)

def load (q : Queue) (limit : Time) : Nat := (q.order.map (shotsOf q.slots limit)).sum

structure Eased (q p : Queue) : Prop where
  order : p.order.Sublist q.order
  periods : ∀ key ∈ p.order, periodAt p.slots key.slot = periodAt q.slots key.slot

theorem Eased.refl (q : Queue) : Eased q q := ⟨.refl _, fun _ _ => rfl⟩

theorem Eased.trans (first : Eased q p) (later : Eased p r) : Eased q r :=
  ⟨later.order.trans first.order, fun key mem =>
    (later.periods key mem).trans (first.periods key (later.order.subset mem))⟩

theorem Eased.load (eased : Eased q p) (limit : Time) : p.load limit ≤ q.load limit := by
  have same : p.order.map (shotsOf p.slots limit) = p.order.map (shotsOf q.slots limit) :=
    List.map_congr_left fun key mem => by rw [shotsOf, shotsOf, eased.periods key mem]
  rw [Queue.load, Queue.load, same]
  exact (eased.order.map _).sum_le_sum fun _ _ => Nat.zero_le _

theorem periodModify {slots : Array Slot} {index other : Nat} {f : Slot → Slot}
    (same : ∀ s, (f s).period = s.period) :
    periodAt (slots.modify index f) other = periodAt slots other := by
  simp only [periodAt, Array.getElem?_modify]
  split
  · cases slots[other]? with
    | none => rfl
    | some s => exact same s
  · rfl

theorem occupyEased (filed : q.Filed) (owner : DeviceId) (param : Nat) (persistent : Bool) :
    Eased q (q.occupy owner param persistent).1 := by
  unfold occupy
  split
  · rename_i index rest free
    refine ⟨.refl _, fun key mem => ?_⟩
    obtain ⟨s, found, dead⟩ := filed.unused index (by rw [free]; exact List.mem_cons_self ..)
    obtain ⟨t, row, live, -⟩ := keyInv ((filed.listed key).mp mem)
    have other : key.slot ≠ index := by
      rintro rfl
      cases found.symm.trans row
      rw [dead] at live
      cases live
    simp only [periodAt, slotElsewhere other]
  · refine ⟨.refl _, fun key mem => ?_⟩
    obtain ⟨t, row, -⟩ := keyInv ((filed.listed key).mp mem)
    have within := (Array.getElem?_eq_some_iff.mp row).1
    simp only [periodAt, Array.getElem?_push, if_neg (Nat.ne_of_lt within)]

theorem disarmEased {id : Id} : Eased q (q.disarm id).1 := by
  unfold disarm
  split
  · split
    · exact ⟨List.filter_sublist, fun _ _ => periodModify fun _ => rfl⟩
    · exact .refl q
  · exact .refl q

theorem releaseEased {id : Id} : Eased q (q.release id) :=
  ⟨.refl _, fun _ _ => periodModify fun _ => rfl⟩

theorem cancelEased {id : Id} : Eased q (q.cancel id).1 := by
  unfold cancel
  split
  · exact .refl q
  · dsimp only
    split
    · exact disarmEased
    · exact disarmEased.trans releaseEased

theorem removeEased {id : Id} : Eased q (q.remove id) := by
  unfold remove
  split
  · exact .refl q
  · exact disarmEased.trans releaseEased

theorem setNowEased (time : Time) : Eased q (q.setNow time) := by
  unfold setNow
  split <;> exact ⟨.refl _, fun _ _ => rfl⟩

theorem filedApart (filed : q.Filed) {a b : Key} (left : a ∈ q.order) (right : b ∈ q.order)
    (same : a.slot = b.slot) : a = b := by
  have listed := (filed.listed a).mp left
  rw [same, (filed.listed b).mp right] at listed
  exact (Option.some.inj listed).symm

theorem insertSum (f : Key → Nat) (rows : List Key) :
    ((key.insert rows).map f).sum = f key + (rows.map f).sum := by
  induction rows with
  | nil => simp [Key.insert]
  | cons head rows ih =>
    unfold Key.insert
    split
    · simp
    · simp only [List.map_cons, List.sum_cons, ih]
      omega

theorem periodChanged {f : Slot → Slot} (found : q.slots[key.slot]? = some s) :
    periodAt (q.slots.modify key.slot f) key.slot = (f s).period := by
  rw [periodAt, slotChanged found, Option.elim_some]

theorem loadElsewhere (f : Slot → Slot) (apart : ∀ other ∈ rest, other.slot ≠ key.slot) :
    rest.map (shotsOf (q.slots.modify key.slot f) limit) = rest.map (shotsOf q.slots limit) :=
  List.map_congr_left fun other mem => by
    simp only [shotsOf, periodAt, slotElsewhere (apart other mem)]

theorem popLoad {bound : Time} (popped : Popped q bound fired p key rest s) (filed : q.Filed)
    (within : bound ≤ limit) (early : limit < .never) : q.load limit = p.load limit + 1 := by
  have due : key.time ≤ limit := Nat.le_trans popped.due within
  have apart : ∀ other ∈ rest, other.slot ≠ key.slot := fun other mem same => by
    have old : other ∈ q.order := by rw [popped.order]; exact List.mem_cons_of_mem _ mem
    have before := popped.first filed other mem
    rw [filedApart filed old popped.head same] at before
    exact Key.beforeIrrefl key before
  have period : periodAt q.slots key.slot = s.period := by
    rw [periodAt, popped.found, Option.elim_some]
  have before : q.load limit =
      shotsLeft limit key.time s.period + (rest.map (shotsOf q.slots limit)).sum := by
    rw [load, popped.order, List.map_cons, List.sum_cons, shotsOf, period]
  rw [before, popped.result]
  split
  · rename_i once
    rw [shotsOnce due once, Nat.add_comm]
    congr 1
    split
    · exact (congrArg List.sum (loadElsewhere _ apart)).symm
    · simp only [load, release, taken, modifySlot, popped.reported]
      have twice : ∀ f g : Slot → Slot, (q.slots.modify key.slot f).modify key.slot g =
          q.slots.modify key.slot (g ∘ f) := fun f g => by
        apply Array.ext_getElem?
        intro i
        simp only [Array.getElem?_modify]
        split <;> simp
      rw [twice, loadElsewhere _ apart]
  · rename_i recurring
    have new : periodAt (q.again key rest s.period).slots key.slot = s.period :=
      periodChanged popped.found
    have sum : (q.again key rest s.period).load limit =
        shotsLeft limit (key.time + s.period) s.period +
          (rest.map (shotsOf q.slots limit)).sum := by
      rw [load, again, insertSum, loadElsewhere _ apart, shotsOf]
      congr 1
      exact congrArg _ new
    rw [sum, shotsAgain early due recurring]
    omega

end Queue

end Lockstep.Timer
