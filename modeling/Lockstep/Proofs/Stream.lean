import Lockstep.Machine.Inspect
import Lockstep.Proofs.Delivery
import Lockstep.Proofs.Endian

/-! What the bytes behind a fingerprint tell. Nothing separates their parts, but a configuration
fixes the length of each, and the length of them all the number of timers, so what went into them
can be read off again. That is all of a snapshot except for its timers: of these it is whose they
are, their parameters and their times, and neither whether they are armed nor how they recur. -/
namespace Lockstep

namespace Timer

structure Gist where
  owner : DeviceId
  param : Nat
  time : Time
  deriving DecidableEq, Repr

def Info.gist (t : Info) : Gist := ⟨t.owner, t.param, t.fireTime⟩

def Gist.bytes (g : Gist) : List UInt8 :=
  littleEndian 4 g.owner.index ++ littleEndian 8 g.param ++ littleEndian 16 g.time.attos

structure Gist.Sized (g : Gist) : Prop where
  owner : g.owner.index < Bus.span 4
  param : g.param < Bus.span 8

instance (g : Gist) : Decidable g.Sized :=
  decidable_of_iff (g.owner.index < Bus.span 4 ∧ g.param < Bus.span 8)
    ⟨fun ⟨owner, param⟩ => ⟨owner, param⟩, fun sized => ⟨sized.owner, sized.param⟩⟩

end Timer

namespace UnitSnapshot

def key (u : UnitSnapshot) : String × List RegisterId := (u.tag, u.registers.map Prod.fst)

structure Sized (u : UnitSnapshot) : Prop where
  cycles : u.totalCycles < Bus.span 8
  suspension : u.suspension < Bus.span 1
  registers : ∀ row ∈ u.registers, row.1.number < Bus.span 2 ∧ row.2 < Bus.span 8

instance (u : UnitSnapshot) : Decidable u.Sized :=
  decidable_of_iff (u.totalCycles < Bus.span 8 ∧ u.suspension < Bus.span 1 ∧
    ∀ row ∈ u.registers, row.1.number < Bus.span 2 ∧ row.2 < Bus.span 8)
    ⟨fun ⟨cycles, suspension, registers⟩ => ⟨cycles, suspension, registers⟩,
      fun sized => ⟨sized.cycles, sized.suspension, sized.registers⟩⟩

end UnitSnapshot

def MemoryImage.key (i : MemoryImage) : String × Nat := (i.tag, i.bytes.length)

namespace Snapshot

/-- Snapshots of one configuration. Timers come and go, so there may be any number in each. -/
structure Akin (a b : Snapshot) : Prop where
  units : a.units.map (·.key) = b.units.map (·.key)
  banks : a.banks.map (·.tag) = b.banks.map (·.tag)
  memory : a.memory.map (·.key) = b.memory.map (·.key)

structure Sized (s : Snapshot) : Prop where
  units : ∀ u ∈ s.units, u.Sized
  timers : ∀ t ∈ s.timers, t.gist.Sized
  banks : ∀ b ∈ s.banks, b.selected < Bus.span 8

instance (a b : Snapshot) : Decidable (a.Akin b) :=
  decidable_of_iff (a.units.map (·.key) = b.units.map (·.key) ∧
    a.banks.map (·.tag) = b.banks.map (·.tag) ∧ a.memory.map (·.key) = b.memory.map (·.key))
    ⟨fun ⟨units, banks, memory⟩ => ⟨units, banks, memory⟩,
      fun akin => ⟨akin.units, akin.banks, akin.memory⟩⟩

instance (s : Snapshot) : Decidable s.Sized :=
  decidable_of_iff ((∀ u ∈ s.units, u.Sized) ∧ (∀ t ∈ s.timers, t.gist.Sized) ∧
    ∀ b ∈ s.banks, b.selected < Bus.span 8)
    ⟨fun ⟨units, timers, banks⟩ => ⟨units, timers, banks⟩,
      fun sized => ⟨sized.units, sized.timers, sized.banks⟩⟩

end Snapshot

theorem littleEndianBytes (count n : Nat) :
    littleEndian count n = Bus.ByteOrder.little.bytes count n := by
  induction count generalizing n with
  | zero => rfl
  | succ count ih => rw [littleEndian, Bus.ByteOrder.littleCons, ih]

@[simp] theorem lengthLittleEndian (count n : Nat) : (littleEndian count n).length = count := by
  rw [littleEndianBytes, Bus.ByteOrder.lengthBytes]

theorem littleEndianTells {count a b : Nat} (left : a < Bus.span count) (right : b < Bus.span count)
    (same : littleEndian count a = littleEndian count b) : a = b := by
  have values := congrArg Bus.ByteOrder.little.assemble same
  rwa [littleEndianBytes, littleEndianBytes, Bus.ByteOrder.assembleBytes,
    Bus.ByteOrder.assembleBytes, Nat.mod_eq_of_lt left, Nat.mod_eq_of_lt right] at values

theorem byteTells {a b : Nat} (left : a < Bus.span 1) (right : b < Bus.span 1)
    (same : UInt8.ofNat a = UInt8.ofNat b) : a = b :=
  littleEndianTells left right (congrArg (· :: []) same)

theorem timeTells {a b : Time} (same : littleEndian 16 a.attos = littleEndian 16 b.attos) :
    a = b := by
  have fits (t : Time) : t.attos < Bus.span 16 := Nat.lt_of_le_of_lt t.bounded (by decide)
  exact Time.ext (littleEndianTells (fits a) (fits b) same)

section
variable {α β κ : Type} {f : α → List β} {k : α → κ} {xs ys : List α}

theorem rowsLength (keys : xs.map k = ys.map k)
    (fixed : ∀ x y, k x = k y → (f x).length = (f y).length) :
    (xs.flatMap f).length = (ys.flatMap f).length := by
  induction xs generalizing ys with
  | nil => rw [List.map_eq_nil_iff.mp keys.symm]
  | cons x xs ih =>
    cases ys with
    | nil => cases keys
    | cons y ys =>
      obtain ⟨here, rest⟩ := List.cons.inj keys
      rw [List.flatMap_cons, List.flatMap_cons, List.length_append, List.length_append,
        fixed x y here, ih rest]

theorem rowsTell (keys : xs.map k = ys.map k)
    (fixed : ∀ x y, k x = k y → (f x).length = (f y).length)
    (tell : ∀ x ∈ xs, ∀ y ∈ ys, k x = k y → f x = f y → x = y)
    (same : xs.flatMap f = ys.flatMap f) : xs = ys := by
  induction xs generalizing ys with
  | nil => exact (List.map_eq_nil_iff.mp keys.symm).symm
  | cons x xs ih =>
    cases ys with
    | nil => cases keys
    | cons y ys =>
      obtain ⟨here, rest⟩ := List.cons.inj keys
      rw [List.flatMap_cons, List.flatMap_cons] at same
      obtain ⟨row, rows⟩ := List.append_inj same (fixed x y here)
      rw [tell x (List.mem_cons_self ..) y (List.mem_cons_self ..) here row,
        ih rest (fun x mem y mem' =>
          tell x (List.mem_cons_of_mem _ mem) y (List.mem_cons_of_mem _ mem')) rows]

end

theorem Timer.Gist.length (g : Gist) : g.bytes.length = 28 := by simp [bytes]

theorem Timer.Gist.tells {g h : Gist} (left : g.Sized) (right : h.Sized)
    (same : g.bytes = h.bytes) : g = h := by
  obtain ⟨same, time⟩ := List.append_inj same (by simp)
  obtain ⟨owner, param⟩ := List.append_inj same (by simp)
  rw [Gist.mk.injEq, DeviceId.mk.injEq]
  exact ⟨littleEndianTells left.owner right.owner owner,
    littleEndianTells left.param right.param param, timeTells time⟩

theorem gistsLength (gists : List Timer.Gist) :
    (gists.flatMap (·.bytes)).length = 28 * gists.length := by
  induction gists with
  | nil => rfl
  | cons g rest ih =>
    rw [List.flatMap_cons, List.length_append, g.length, ih, List.length_cons, Nat.mul_succ,
      Nat.add_comm]

namespace Snapshot
variable {a b : Snapshot} {u v : UnitSnapshot} {c d : BankSelection} {i j : MemoryImage}

def registerBytes (row : RegisterId × Nat) : List UInt8 :=
  littleEndian 2 row.1.number ++ littleEndian 8 row.2

theorem registerLength (row : RegisterId × Nat) : (registerBytes row).length = 10 := by
  simp [registerBytes]

theorem unitRoom (u : UnitSnapshot) : (unitBytes u).length =
    (utf8 u.tag).length + 26 + (u.registers.flatMap registerBytes).length := by
  change (utf8 u.tag ++ _ ++ _ ++ [_, _] ++ u.registers.flatMap registerBytes).length = _
  simp only [List.length_append, lengthLittleEndian, List.length_cons, List.length_nil]

theorem unitLength (keys : u.key = v.key) : (unitBytes u).length = (unitBytes v).length := by
  obtain ⟨tag, ids⟩ := Prod.mk.inj keys
  rw [unitRoom, unitRoom, tag,
    rowsLength ids fun x y _ => (registerLength x).trans (registerLength y).symm]

theorem codeSized (s : RunState) : s.code < Bus.span 1 := by
  rcases s with _ | _ | _ | ⟨_ | _ | _⟩ <;> decide

theorem registersTell (left : u.Sized) (right : v.Sized) (keys : u.key = v.key)
    (same : u.registers.flatMap registerBytes = v.registers.flatMap registerBytes) :
    u.registers = v.registers := by
  refine rowsTell (Prod.mk.inj keys).2
    (fun x y _ => (registerLength x).trans (registerLength y).symm)
    (fun x mem y mem' here row => ?_) same
  obtain ⟨-, value⟩ := List.append_inj row (by simp)
  exact Prod.ext here (littleEndianTells (left.registers x mem).2 (right.registers y mem').2 value)

theorem unitTells (left : u.Sized) (right : v.Sized) (keys : u.key = v.key)
    (same : unitBytes u = unitBytes v) : u = v := by
  have tag : u.tag = v.tag := (Prod.mk.inj keys).1
  unfold unitBytes at same
  obtain ⟨same, registers⟩ := List.append_inj same (by simp [tag])
  obtain ⟨same, pair⟩ := List.append_inj same (by simp [tag])
  obtain ⟨same, cycles⟩ := List.append_inj same (by simp [tag])
  obtain ⟨-, time⟩ := List.append_inj same (by rw [tag])
  obtain ⟨state, rest⟩ := List.cons.inj pair
  rw [UnitSnapshot.mk.injEq]
  exact ⟨tag, timeTells time, littleEndianTells left.cycles right.cycles cycles,
    RunState.code_injective (byteTells (codeSized _) (codeSized _) state),
    byteTells left.suspension right.suspension (List.cons.inj rest).1,
    registersTell left right keys registers⟩

theorem bankLength (tags : c.tag = d.tag) : (bankBytes c).length = (bankBytes d).length := by
  simp [bankBytes, tags]

theorem bankTells (left : c.selected < Bus.span 8) (right : d.selected < Bus.span 8)
    (tags : c.tag = d.tag) (same : bankBytes c = bankBytes d) : c = d := by
  obtain ⟨-, selected⟩ := List.append_inj same (by rw [tags])
  rw [BankSelection.mk.injEq]
  exact ⟨tags, littleEndianTells left right selected⟩

theorem imageLength (keys : i.key = j.key) : (imageBytes i).length = (imageBytes j).length := by
  obtain ⟨tag, length⟩ := Prod.mk.inj keys
  rw [imageBytes, imageBytes, List.length_append, List.length_append, tag, length]

theorem imageTells (keys : i.key = j.key) (same : imageBytes i = imageBytes j) : i = j := by
  have tag : i.tag = j.tag := (Prod.mk.inj keys).1
  obtain ⟨-, bytes⟩ := List.append_inj same (by rw [tag])
  rw [MemoryImage.mk.injEq]
  exact ⟨tag, bytes⟩

def gists (s : Snapshot) : List Timer.Gist := s.timers.map (·.gist)

theorem timersBytes (s : Snapshot) : s.timers.flatMap timerBytes = s.gists.flatMap (·.bytes) := by
  rw [gists, List.flatMap_map]
  rfl

theorem Sized.gists (sized : a.Sized) : ∀ g ∈ a.gists, g.Sized := by
  intro g mem
  obtain ⟨t, listed, rfl⟩ := List.mem_map.mp mem
  exact sized.timers t listed

theorem gistsTell (left : a.Sized) (right : b.Sized) (count : a.gists.length = b.gists.length)
    (same : a.gists.flatMap (·.bytes) = b.gists.flatMap (·.bytes)) : a.gists = b.gists := by
  -- gists have no key of their own: there are as many on either side, and all are of one length
  refine rowsTell (k := fun _ => ()) ?_ (fun g h _ => g.length.trans h.length.symm)
    (fun g mem h mem' _ => Timer.Gist.tells (left.gists g mem) (right.gists h mem')) same
  rw [List.map_const', List.map_const', count]

theorem Akin.rooms (akin : a.Akin b) :
    (a.units.flatMap unitBytes).length = (b.units.flatMap unitBytes).length ∧
      (a.banks.flatMap bankBytes).length = (b.banks.flatMap bankBytes).length ∧
      (a.memory.flatMap imageBytes).length = (b.memory.flatMap imageBytes).length :=
  ⟨rowsLength akin.units fun _ _ => unitLength, rowsLength akin.banks fun _ _ => bankLength,
    rowsLength akin.memory fun _ _ => imageLength⟩

theorem gistsCounted (akin : a.Akin b) (same : a.stream.length = b.stream.length) :
    a.gists.length = b.gists.length := by
  obtain ⟨units, banks, memory⟩ := akin.rooms
  simp only [stream, timersBytes, List.length_append, lengthLittleEndian, gistsLength, units,
    banks, memory] at same
  omega

/-- A stream tells everything but, of a timer, its handle, whether it is armed and how it
recurs. -/
theorem streamTells (akin : a.Akin b) (left : a.Sized) (right : b.Sized) :
    a.stream = b.stream ↔ a.time = b.time ∧ a.units = b.units ∧ a.gists = b.gists ∧
      a.banks = b.banks ∧ a.memory = b.memory := by
  constructor
  · intro same
    have count := gistsCounted akin (congrArg List.length same)
    unfold stream at same
    rw [timersBytes, timersBytes] at same
    have lengths : (a.gists.flatMap (·.bytes)).length = (b.gists.flatMap (·.bytes)).length := by
      rw [gistsLength, gistsLength, count]
    obtain ⟨room, room', -⟩ := akin.rooms
    obtain ⟨same, memory⟩ := List.append_inj same (by
      simp only [List.length_append, lengthLittleEndian, room, lengths, room'])
    obtain ⟨same, banks⟩ := List.append_inj same (by
      simp only [List.length_append, lengthLittleEndian, room, lengths])
    obtain ⟨same, timers⟩ := List.append_inj same (by
      simp only [List.length_append, lengthLittleEndian, room])
    obtain ⟨time, units⟩ := List.append_inj same (by simp only [lengthLittleEndian])
    refine ⟨timeTells time, ?_, gistsTell left right count timers, ?_, ?_⟩
    · exact rowsTell akin.units (fun _ _ => unitLength) (fun u mem v mem' =>
        unitTells (left.units u mem) (right.units v mem')) units
    · exact rowsTell akin.banks (fun _ _ => bankLength) (fun c mem d mem' =>
        bankTells (left.banks c mem) (right.banks d mem')) banks
    · exact rowsTell akin.memory (fun _ _ => imageLength) (fun _ _ _ _ => imageTells) memory
  · rintro ⟨time, units, gists, banks, memory⟩
    rw [stream, stream, timersBytes, timersBytes, time, units, gists, banks, memory]

def dial (value : Nat) (timers : List Timer.Info) : Snapshot :=
  { time := .ofMicros 5
    units := [⟨"u", .ofMicros 6, 6, .running, 0, [(⟨0⟩, value), (⟨1⟩, 0x56)]⟩]
    timers
    banks := [⟨"bank", 1⟩]
    memory := [⟨"ram", [1, 2, 3]⟩] }

def dialTimer (slot param : Nat) : Timer.Info :=
  ⟨⟨slot, 0⟩, ⟨0⟩, param, .ofMicros 9, .zero, true, false⟩

theorem dialTells :
    (dial 0x1234 [dialTimer 0 1, dialTimer 1 2]).Akin (dial 0x1234 [dialTimer 1 2, dialTimer 0 1]) ∧
    (dial 0x1234 [dialTimer 0 1, dialTimer 1 2]).Sized ∧
    (dial 0x1234 [dialTimer 1 2, dialTimer 0 1]).Sized ∧
    (dial 0x1234 [dialTimer 0 1, dialTimer 1 2]).stream ≠
      (dial 0x1234 [dialTimer 1 2, dialTimer 0 1]).stream := by
  have akin : (dial 0x1234 [dialTimer 0 1, dialTimer 1 2]).Akin
      (dial 0x1234 [dialTimer 1 2, dialTimer 0 1]) := by decide
  have left : (dial 0x1234 [dialTimer 0 1, dialTimer 1 2]).Sized := by decide
  have right : (dial 0x1234 [dialTimer 1 2, dialTimer 0 1]).Sized := by decide
  refine ⟨akin, left, right, fun same => ?_⟩
  obtain ⟨-, -, gists, -⟩ := (streamTells akin left right).mp same
  exact absurd gists (by decide)

end Snapshot

def kitchen : Assembly :=
  (Assembly.new {} .builtin).extend "egg" (.ofMhz 1) (.peripheral { name := "egg" })

theorem kitchenAssembled : Assembled kitchen := (Assembled.new _ _).extend _ _ _

namespace Machine

def boil (period : Time) : Script :=
  .step (.allocateTimer ⟨0⟩ 7) fun _ => .perform (.adjustTimer 0 (.ofMicros 5) period)

def takeOff : Script := .perform (.cancelTimer 0)

def settings (m : Machine) : List (Time × Bool) :=
  m.snapshot.timers.map fun t => (t.period, t.enabled)

def rings (m : Machine) : List Time :=
  (deliveries (noteUntil (invoke 3) (.ofMicros 10) 9 m).1).map Prod.snd

/-- Two states of one configuration with the same bytes behind their fingerprints. -/
structure Undistinguished (a b : Machine) : Prop where
  akin : a.snapshot.Akin b.snapshot
  left : a.snapshot.Sized
  right : b.snapshot.Sized
  same : a.snapshot.stream = b.snapshot.stream

def boilsAlike : Bool :=
  match kitchen.build (invoke 3) with
  | some (none, origin) =>
      match invoke 3 (boil .zero) origin, invoke 3 (boil (.ofMicros 2)) origin with
      | some (_, once), some (_, often) =>
          match invoke 3 takeOff once with
          | some (_, never) => decide (
              (once.snapshot.Akin often.snapshot ∧ once.snapshot.Akin never.snapshot ∧
                once.snapshot.Sized ∧ often.snapshot.Sized ∧ never.snapshot.Sized ∧
                once.snapshot.stream = often.snapshot.stream ∧
                once.snapshot.stream = never.snapshot.stream) ∧
              once.settings = [(.zero, true)] ∧ often.settings = [(.ofMicros 2, true)] ∧
              never.settings = [(.zero, false)] ∧ once.rings = [.ofMicros 5] ∧
              often.rings = [.ofMicros 5, .ofMicros 7, .ofMicros 9] ∧ never.rings = [])
          | none => false
      | _, _ => false
  | _ => false

/-- A timer that fires once, one that comes round and one that was cancelled leave the same bytes
behind, though the one rings once, the other again and again, and the last not at all. -/
theorem settingsUntold : ∃ origin once often never, Built (invoke 3) origin ∧
    (invoke 3 (boil .zero) origin).map Prod.snd = some once ∧
    (invoke 3 (boil (.ofMicros 2)) origin).map Prod.snd = some often ∧
    (invoke 3 takeOff once).map Prod.snd = some never ∧
    Undistinguished once often ∧ Undistinguished once never ∧
    once.settings = [(.zero, true)] ∧ often.settings = [(.ofMicros 2, true)] ∧
    never.settings = [(.zero, false)] ∧ once.rings = [.ofMicros 5] ∧
    often.rings = [.ofMicros 5, .ofMicros 7, .ofMicros 9] ∧ never.rings = [] := by
  have alike : boilsAlike = true := by decide +kernel
  unfold boilsAlike at alike
  split at alike
  · rename_i origin started
    split at alike
    · rename_i r once r' often boiled boiled'
      split at alike
      · rename_i r'' never taken
        obtain ⟨⟨akin, akin', sized, sized', sized'', same, same'⟩, rest⟩ :=
          of_decide_eq_true alike
        exact ⟨origin, once, often, never, ⟨kitchen, kitchenAssembled, started⟩,
          by rw [boiled]; rfl, by rw [boiled']; rfl, by rw [taken]; rfl,
          ⟨akin, sized, sized', same⟩, ⟨akin', sized, sized'', same'⟩, rest⟩
      · cases alike
    · cases alike
  · cases alike

end Machine

end Lockstep
