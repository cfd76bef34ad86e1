import Lockstep.Proofs.Stream
import Mathlib.Logic.ExistsUnique

/-! How a fingerprint answers to its bytes. A step of the digest can be undone, since its factor has
an inverse modulo the size of a word, so the digests of two streams that differ in one place differ
from there on. One byte of memory, the run state of a processor or its suspension is one place of a
stream, and so is one byte of any number in it. -/
namespace Lockstep

/-- The same but for one place. -/
def OneApart (a b : List UInt8) : Prop :=
  ∃ before x y after, x ≠ y ∧ a = before ++ x :: after ∧ b = before ++ y :: after

namespace Fnv1a

def inverse : UInt64 := 0xce965057aff6957b

theorem primeInverse : prime * inverse = 1 := by decide

theorem mulTells {h k : UInt64} (same : h * prime = k * prime) : h = k := by
  have undone (h : UInt64) : h * prime * inverse = h := by
    rw [UInt64.mul_assoc, primeInverse, UInt64.mul_one]
  rw [← undone h, same, undone]

theorem stepHash {h k : UInt64} {byte : UInt8} (same : step h byte = step k byte) : h = k :=
  (UInt64.xor_left_inj _).mp (mulTells same)

theorem stepByte {h : UInt64} {x y : UInt8} (same : step h x = step h y) : x = y := by
  have words := congrArg UInt64.toUInt8 ((UInt64.xor_right_inj _).mp (mulTells same))
  rwa [UInt8.toUInt8_toUInt64, UInt8.toUInt8_toUInt64] at words

theorem foldTells (bytes : List UInt8) {h k : UInt64}
    (same : bytes.foldl step h = bytes.foldl step k) : h = k := by
  induction bytes generalizing h k with
  | nil => exact same
  | cons byte rest ih => exact stepHash (ih same)

theorem digestApart {a b : List UInt8} (apart : OneApart a b) : digest a ≠ digest b := by
  obtain ⟨before, x, y, after, other, rfl, rfl⟩ := apart
  intro same
  rw [digest, digest, List.foldl_append, List.foldl_append] at same
  exact other (stepByte (foldTells after same))

end Fnv1a

namespace OneApart
variable {a b : List UInt8}

theorem after (before : List UInt8) (apart : OneApart a b) :
    OneApart (before ++ a) (before ++ b) := by
  obtain ⟨lower, x, y, upper, other, rfl, rfl⟩ := apart
  exact ⟨before ++ lower, x, y, upper, other, (List.append_assoc ..).symm,
    (List.append_assoc ..).symm⟩

theorem before (apart : OneApart a b) (after : List UInt8) :
    OneApart (a ++ after) (b ++ after) := by
  obtain ⟨lower, x, y, upper, other, rfl, rfl⟩ := apart
  exact ⟨lower, x, y, upper ++ after, other, List.append_assoc .., List.append_assoc ..⟩

theorem row {α : Type} {f : α → List UInt8} {x y : α} (apart : OneApart (f x) (f y))
    (lower upper : List α) :
    OneApart ((lower ++ x :: upper).flatMap f) ((lower ++ y :: upper).flatMap f) := by
  simp only [List.flatMap_append, List.flatMap_cons]
  exact (apart.before _).after _

theorem single {x y : UInt8} (other : x ≠ y) : OneApart [x] [y] := ⟨[], x, y, [], other, rfl, rfl⟩

theorem differs (apart : OneApart a b) : a.length = b.length ∧ ∃! i : Nat, a[i]? ≠ b[i]? := by
  obtain ⟨before, x, y, after, other, rfl, rfl⟩ := apart
  refine ⟨by simp, before.length, by simpa using other, fun i differ => ?_⟩
  rcases Nat.lt_trichotomy i before.length with below | here | above
  · exact absurd (by rw [List.getElem?_append_left below, List.getElem?_append_left below]) differ
  · exact here
  · obtain ⟨k, rfl⟩ := Nat.exists_eq_add_of_lt above
    refine absurd ?_ differ
    rw [List.getElem?_append_right (by omega), List.getElem?_append_right (by omega),
      show before.length + k + 1 - before.length = k + 1 by omega, List.getElem?_cons_succ,
      List.getElem?_cons_succ]

theorem ofIndex (length : a.length = b.length) (one : ∃! i : Nat, a[i]? ≠ b[i]?) :
    OneApart a b := by
  induction a generalizing b with
  | nil =>
    obtain ⟨i, differ, -⟩ := one
    exact absurd (by rw [List.eq_nil_of_length_eq_zero length.symm]) differ
  | cons x a ih =>
    obtain _ | ⟨y, b⟩ := b
    · cases length
    obtain ⟨i, differ, only⟩ := one
    by_cases same : x = y
    · subst same
      obtain _ | i := i
      · exact absurd rfl differ
      · refine (ih (Nat.succ.inj length) ⟨i, differ, fun j differ' => ?_⟩).after [x]
        exact Nat.succ.inj (only (j + 1) differ')
    · -- the one index is the first, so the rest is the same
      have first : 0 = i := only 0 fun equal => same (Option.some.inj equal)
      have rest : a = b := List.ext_getElem? fun j =>
        Decidable.byContradiction fun differ' =>
          absurd ((only (j + 1) differ').trans first.symm) (Nat.succ_ne_zero j)
      exact ⟨[], x, y, a, same, rfl, by rw [rest]; rfl⟩

end OneApart

inductive UnitSnapshot.Touched (u : UnitSnapshot) : UnitSnapshot → Prop
  | localTime {time : Time} :
      OneApart (littleEndian 16 u.localTime.attos) (littleEndian 16 time.attos) →
      Touched u { u with localTime := time }
  | totalCycles {cycles : Nat} :
      OneApart (littleEndian 8 u.totalCycles) (littleEndian 8 cycles) →
      Touched u { u with totalCycles := cycles }
  | runState {state : RunState} : u.runState ≠ state → Touched u { u with runState := state }
  | suspension {bits : Nat} : u.suspension < Bus.span 1 → bits < Bus.span 1 →
      u.suspension ≠ bits → Touched u { u with suspension := bits }
  | registerId {lower upper : List (RegisterId × Nat)} {old new : RegisterId} {value : Nat} :
      u.registers = lower ++ (old, value) :: upper →
      OneApart (littleEndian 2 old.number) (littleEndian 2 new.number) →
      Touched u { u with registers := lower ++ (new, value) :: upper }
  | register {lower upper : List (RegisterId × Nat)} {id : RegisterId} {old new : Nat} :
      u.registers = lower ++ (id, old) :: upper →
      OneApart (littleEndian 8 old) (littleEndian 8 new) →
      Touched u { u with registers := lower ++ (id, new) :: upper }

inductive Timer.Info.Touched (t : Timer.Info) : Timer.Info → Prop
  | owner {owner : DeviceId} :
      OneApart (littleEndian 4 t.owner.index) (littleEndian 4 owner.index) →
      Touched t { t with owner }
  | param {param : Nat} : OneApart (littleEndian 8 t.param) (littleEndian 8 param) →
      Touched t { t with param }
  | fireTime {time : Time} :
      OneApart (littleEndian 16 t.fireTime.attos) (littleEndian 16 time.attos) →
      Touched t { t with fireTime := time }

namespace Snapshot

/-- One byte of one part of a snapshot is another. -/
inductive Touched (s : Snapshot) : Snapshot → Prop
  | time {time : Time} : OneApart (littleEndian 16 s.time.attos) (littleEndian 16 time.attos) →
      Touched s { s with time }
  | unit {lower upper : List UnitSnapshot} {u v : UnitSnapshot} :
      s.units = lower ++ u :: upper → u.Touched v →
      Touched s { s with units := lower ++ v :: upper }
  | timer {lower upper : List Timer.Info} {t r : Timer.Info} :
      s.timers = lower ++ t :: upper → t.Touched r →
      Touched s { s with timers := lower ++ r :: upper }
  | bank {lower upper : List BankSelection} {b : BankSelection} {selected : Nat} :
      s.banks = lower ++ b :: upper →
      OneApart (littleEndian 8 b.selected) (littleEndian 8 selected) →
      Touched s { s with banks := lower ++ { b with selected } :: upper }
  | memory {lower upper : List MemoryImage} {i : MemoryImage} {below above : List UInt8}
      {x y : UInt8} :
      s.memory = lower ++ i :: upper → i.bytes = below ++ x :: above → x ≠ y →
      Touched s { s with memory := lower ++ { i with bytes := below ++ y :: above } :: upper }

theorem unitTouched {u v : UnitSnapshot} (touched : u.Touched v) :
    OneApart (unitBytes u) (unitBytes v) := by
  unfold unitBytes
  cases touched with
  | localTime apart => exact (((apart.after _).before _).before _).before _
  | totalCycles apart => exact ((apart.after _).before _).before _
  | runState other =>
    have code : UInt8.ofNat u.runState.code ≠ UInt8.ofNat _ := fun same =>
      other (RunState.code_injective (byteTells (codeSized _) (codeSized _) same))
    exact (((OneApart.single code).before [_]).after _).before _
  | suspension left right other =>
    have bits : UInt8.ofNat u.suspension ≠ UInt8.ofNat _ := fun same =>
      other (byteTells left right same)
    exact (((OneApart.single bits).after [_]).after _).before _
  | registerId row apart =>
    rw [row]
    exact ((apart.before _).row (f := registerBytes) _ _).after _
  | register row apart =>
    rw [row]
    exact ((apart.after _).row (f := registerBytes) _ _).after _

theorem timerTouched {t r : Timer.Info} (touched : t.Touched r) :
    OneApart (timerBytes t) (timerBytes r) := by
  unfold timerBytes
  cases touched with
  | owner apart => exact (apart.before _).before _
  | param apart => exact (apart.after _).before _
  | fireTime apart => exact apart.after _

theorem streamTouched {s t : Snapshot} (touched : s.Touched t) : OneApart s.stream t.stream := by
  unfold stream
  cases touched with
  | time apart => exact (((apart.before _).before _).before _).before _
  | unit row touched =>
    rw [row]
    exact (((((unitTouched touched).row _ _).after _).before _).before _).before _
  | timer row touched =>
    rw [row]
    exact ((((timerTouched touched).row _ _).after _).before _).before _
  | bank row apart =>
    rw [row]
    exact (((apart.after _).row (f := bankBytes) _ _).after _).before _
  | memory row bytes other =>
    rw [row]
    refine OneApart.after _ (OneApart.row ?_ _ _)
    rw [imageBytes, imageBytes, bytes]
    exact ⟨_, _, _, _, other, (List.append_assoc ..).symm, (List.append_assoc ..).symm⟩

/-- A fingerprint shows every difference in one place of its stream, so also any one byte of
memory that changes, a run state, a suspension, or a number that changes in one byte. -/
theorem oneByteShows :
    (∀ s t : Snapshot, s.stream.length = t.stream.length →
      (∃! i : Nat, s.stream[i]? ≠ t.stream[i]?) → s.fingerprint ≠ t.fingerprint) ∧
    ∀ s t : Snapshot, s.Touched t → s.fingerprint ≠ t.fingerprint :=
  ⟨fun _ _ length one => Fnv1a.digestApart (OneApart.ofIndex length one),
    fun _ _ touched => Fnv1a.digestApart (streamTouched touched)⟩

theorem dialShows :
    (dial 0x1234 []).Touched { dial 0x1234 [] with memory := [⟨"ram", [1, 9, 3]⟩] } ∧
    (dial 0x1234 []).fingerprint ≠
      { dial 0x1234 [] with memory := [⟨"ram", [1, 9, 3]⟩] : Snapshot }.fingerprint ∧
    (dial 0x1234 []).stream.length = (dial 0x12ff []).stream.length ∧
    (∃! i : Nat, (dial 0x1234 []).stream[i]? ≠ (dial 0x12ff []).stream[i]?) ∧
    (dial 0x1234 []).fingerprint ≠ (dial 0x12ff []).fingerprint := by
  have touched : (dial 0x1234 []).Touched
      { dial 0x1234 [] with memory := [⟨"ram", [1, 9, 3]⟩] } := by
    have row : (dial 0x1234 []).memory = [] ++ ⟨"ram", [1, 2, 3]⟩ :: [] := rfl
    have bytes : [1, 2, 3] = [1] ++ (2 : UInt8) :: [3] := rfl
    exact .memory row bytes (by decide : (2 : UInt8) ≠ 9)
  have turned : (dial 0x1234 []).Touched (dial 0x12ff []) := by
    have row : (dial 0x1234 []).units = [] ++ (dial 0x1234 []).units[0] :: [] := rfl
    have register : ((dial 0x1234 []).units[0]).registers =
        [] ++ (⟨0⟩, 0x1234) :: [(⟨1⟩, 0x56)] := rfl
    exact .unit row (.register register
      ⟨[], 0x34, 0xff, [0x12, 0, 0, 0, 0, 0, 0], by decide, by decide, by decide⟩)
  obtain ⟨length, one⟩ := (streamTouched turned).differs
  exact ⟨touched, oneByteShows.2 _ _ touched, length, one, oneByteShows.1 _ _ length one⟩

end Snapshot

end Lockstep
