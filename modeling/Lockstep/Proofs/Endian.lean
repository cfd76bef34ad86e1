import Lockstep.Bus.Width

/-! Values and their bytes. In either order a value of some bytes is told by them, the bytes of
two halves stand one after the other, and the big order is the little one backwards. -/
namespace Lockstep.Bus

def span (count : Nat) : Nat := Nat.pow 256 count

theorem spanSucc (count : Nat) : span (count + 1) = 256 * span count := Nat.mul_comm ..

theorem spanPos (count : Nat) : 0 < span count := Nat.pow_pos (by decide)

theorem Width.sizeSpan (w : Width) : w.size = span w.bytes := by cases w <;> rfl

namespace ByteOrder

def bytes (order : ByteOrder) (count value : Nat) : List UInt8 :=
  (List.range count).map (order.byteAt count value)

@[simp] theorem lengthBytes (order : ByteOrder) (count value : Nat) :
    (order.bytes count value).length = count := by
  simp [bytes]

@[simp] theorem littleCons (count value : Nat) :
    little.bytes (count + 1) value = UInt8.ofNat value :: little.bytes count (value / 256) := by
  simp only [bytes, List.range_succ_eq_map, List.map_cons, List.map_map]
  congr 1
  refine List.map_congr_left fun i _ => congrArg UInt8.ofNat ?_
  change value >>> (8 * (i + 1)) = (value / 256) >>> (8 * i)
  rw [show 8 * (i + 1) = 8 + 8 * i by omega, Nat.shiftRight_add, Nat.shiftRight_eq_div_pow value 8]

theorem bigBytes (count value : Nat) :
    big.bytes count value = (little.bytes count value).reverse := by
  refine List.ext_getElem (by simp) fun i inside _ => ?_
  simp [bytes, byteAt]

theorem bigAssemble (xs : List UInt8) : big.assemble xs = little.assemble xs.reverse := by
  simp [assemble, List.foldr_reverse, Nat.add_comm]

@[simp] theorem littleAssemble (x : UInt8) (xs : List UInt8) :
    little.assemble (x :: xs) = x.toNat + 256 * little.assemble xs := rfl

theorem assembleBytes (order : ByteOrder) (count value : Nat) :
    order.assemble (order.bytes count value) = value % span count := by
  have small : ∀ (count value : Nat),
      little.assemble (little.bytes count value) = value % span count := by
    intro count
    induction count with
    | zero => exact fun value => (Nat.mod_one value).symm
    | succ count ih =>
      intro value
      rw [littleCons, littleAssemble, ih, spanSucc, Nat.mod_mul, UInt8.toNat_ofNat']
  cases order with
  | little => exact small count value
  | big => rw [bigBytes, bigAssemble, List.reverse_reverse, small]

theorem bytesAssemble (order : ByteOrder) (xs : List UInt8) :
    order.bytes xs.length (order.assemble xs) = xs := by
  have small : ∀ xs : List UInt8, little.bytes xs.length (little.assemble xs) = xs := by
    intro xs
    induction xs with
    | nil => rfl
    | cons x xs ih =>
      have low := x.toNat_lt
      rw [List.length_cons, littleCons, littleAssemble]
      congr 1
      · refine UInt8.toNat_inj.mp ?_
        rw [UInt8.toNat_ofNat']
        omega
      · rw [Nat.add_mul_div_left _ _ (by decide), Nat.div_eq_of_lt low, Nat.zero_add, ih]
  cases order with
  | little => exact small xs
  | big =>
    have backwards := small xs.reverse
    rw [List.length_reverse] at backwards
    rw [bigBytes, bigAssemble, backwards, List.reverse_reverse]

theorem assembleLt (order : ByteOrder) (xs : List UInt8) : order.assemble xs < span xs.length := by
  have same := order.assembleBytes xs.length (order.assemble xs)
  rw [bytesAssemble] at same
  rw [same]
  exact Nat.mod_lt _ (spanPos _)

theorem bytesMod (order : ByteOrder) (count value : Nat) :
    order.bytes count (value % span count) = order.bytes count value := by
  have same := order.bytesAssemble (order.bytes count value)
  rwa [lengthBytes, assembleBytes] at same

theorem littleSplit (a b value : Nat) :
    little.bytes (a + b) value = little.bytes a value ++ little.bytes b (value / span a) := by
  induction a generalizing value with
  | zero => simp [bytes, span]
  | succ a ih =>
    rw [Nat.add_right_comm, littleCons, littleCons, ih, spanSucc, Nat.div_div_eq_div_mul]
    rfl

theorem bytesPart (order : ByteOrder) (half : Width) (value : Nat) :
    order.bytes (half.bytes + half.bytes) value =
      order.bytes half.bytes (order.part half value).1 ++
        order.bytes half.bytes (order.part half value).2 := by
  have split := littleSplit half.bytes half.bytes value
  rw [← half.sizeSpan, ← bytesMod little half.bytes value,
    ← bytesMod little half.bytes (value / _), ← half.sizeSpan] at split
  cases order with
  | little => exact split
  | big =>
    rw [bigBytes, split, List.reverse_append, ← bigBytes, ← bigBytes]
    rfl

theorem littleAppend (xs ys : List UInt8) :
    little.assemble (xs ++ ys) = little.assemble xs + span xs.length * little.assemble ys := by
  induction xs with
  | nil => simp [assemble, span]
  | cons x xs ih =>
    rw [List.cons_append, littleAssemble, littleAssemble, ih, List.length_cons, spanSucc,
      Nat.mul_add, Nat.mul_assoc, Nat.add_assoc]

theorem joinAssemble (order : ByteOrder) {half : Width} {xs ys : List UInt8}
    (lower : xs.length = half.bytes) (higher : ys.length = half.bytes) :
    order.join half (order.assemble xs) (order.assemble ys) = order.assemble (xs ++ ys) := by
  cases order with
  | little => rw [littleAppend, lower, ← half.sizeSpan, Nat.mul_comm]; rfl
  | big =>
    rw [bigAssemble (xs ++ ys), List.reverse_append, littleAppend, List.length_reverse, higher,
      ← half.sizeSpan, ← bigAssemble, ← bigAssemble, Nat.mul_comm, Nat.add_comm]
    rfl

end ByteOrder

end Lockstep.Bus
