import Lockstep.Time
import Lockstep.DeviceId

/-! A queue of future events, ordered by fire time and then by the order of
arming. An entry lives in a slot; its handle carries the slot's generation, so
a handle to a freed entry matches nothing and every operation on it does
nothing. The clock never moves back and no entry is armed behind it. -/
namespace Lockstep.Timer

structure Id where
  slot : Nat
  generation : UInt32
  deriving DecidableEq, Repr, Inhabited

structure Fired where
  id : Id
  owner : DeviceId
  param : Nat
  time : Time
  deriving DecidableEq, Repr

structure Info where
  id : Id
  owner : DeviceId
  param : Nat
  fireTime : Time
  period : Time
  enabled : Bool
  persistent : Bool
  deriving DecidableEq, Repr

structure Slot where
  generation : UInt32
  live : Bool
  owner : DeviceId
  param : Nat
  expire : Time
  period : Time
  enabled : Bool
  persistent : Bool
  seq : Nat
  deriving DecidableEq, Repr

structure Key where
  time : Time
  seq : Nat
  slot : Nat
  deriving DecidableEq, Repr

def Key.Before (a b : Key) : Prop :=
  a.time < b.time ∨ a.time = b.time ∧ a.seq < b.seq

instance (a b : Key) : Decidable (a.Before b) := by
  unfold Key.Before; infer_instance

def Key.insert (k : Key) : List Key → List Key
  | [] => [k]
  | head :: rest => if k.Before head then k :: head :: rest else head :: k.insert rest

structure Queue where
  now : Time := .zero
  nextSeq : Nat := 0
  order : List Key := []
  slots : Array Slot := #[]
  free : List Nat := []
  deriving Repr, Inhabited

namespace Queue

def slot? (q : Queue) (id : Id) : Option Slot :=
  (q.slots[id.slot]?).filter fun s => s.live && s.generation == id.generation

def modifySlot (q : Queue) (index : Nat) (f : Slot → Slot) : Queue :=
  { q with slots := q.slots.modify index f }

def setNow (q : Queue) (t : Time) : Queue :=
  if q.now < t then { q with now := t } else q

def size (q : Queue) : Nat := q.order.length

def isEmpty (q : Queue) : Bool := q.order.isEmpty

def occupy (q : Queue) (owner : DeviceId) (param : Nat) (persistent : Bool) : Queue × Id :=
  let reset (s : Slot) : Slot :=
    { s with live := true, owner, param, expire := .zero, period := .zero,
             enabled := false, persistent }
  match q.free with
  | index :: rest =>
      let generation := (q.slots[index]?).elim 0 Slot.generation
      ({ q with free := rest, slots := q.slots.modify index reset }, ⟨index, generation⟩)
  | [] =>
      let blank : Slot := ⟨0, true, owner, param, .zero, .zero, false, persistent, 0⟩
      ({ q with slots := q.slots.push blank }, ⟨q.slots.size, 0⟩)

def arm (q : Queue) (id : Id) (time period : Time) : Queue :=
  let expire := max time q.now
  let seq := q.nextSeq
  let q := { q with nextSeq := seq + 1 }
  match q.slot? id with
  | none => q
  | some _ =>
      { q with
        order := (Key.mk expire seq id.slot).insert q.order
        slots := q.slots.modify id.slot fun s => { s with expire, period, enabled := true, seq } }

def disarm (q : Queue) (id : Id) : Queue × Bool :=
  match q.slot? id with
  | some s =>
      if s.enabled then
        ({ q with
          order := q.order.filter fun k => !(k.time == s.expire && k.seq == s.seq)
          slots := q.slots.modify id.slot fun s => { s with enabled := false } }, true)
      else (q, false)
  | none => (q, false)

def release (q : Queue) (id : Id) : Queue :=
  { q with
    slots := q.slots.modify id.slot fun s =>
      { s with live := false, enabled := false, generation := s.generation + 1 }
    free := id.slot :: q.free }

def scheduleAt (q : Queue) (owner : DeviceId) (time period : Time) (param : Nat) : Queue × Id :=
  let (q, id) := q.occupy owner param false
  (q.arm id time period, id)

def schedule (q : Queue) (owner : DeviceId) (delay period : Time) (param : Nat) : Queue × Id :=
  q.scheduleAt owner (q.now + delay) period param

def allocate (q : Queue) (owner : DeviceId) (param : Nat) : Queue × Id :=
  q.occupy owner param true

def adjustAt (q : Queue) (id : Id) (time period : Time) : Queue × Bool :=
  match q.slot? id with
  | none => (q, false)
  | some _ => ((q.disarm id).1.arm id time period, true)

def adjust (q : Queue) (id : Id) (delay period : Time) : Queue × Bool :=
  q.adjustAt id (q.now + delay) period

def cancel (q : Queue) (id : Id) : Queue × Bool :=
  match q.slot? id with
  | none => (q, false)
  | some s =>
      let (q, armed) := q.disarm id
      (if s.persistent then q else q.release id, armed)

def remove (q : Queue) (id : Id) : Queue :=
  match q.slot? id with
  | none => q
  | some _ => (q.disarm id).1.release id

def setEnabled (q : Queue) (id : Id) (on : Bool) : Queue :=
  match q.slot? id with
  | none => q
  | some s =>
      if on && !s.enabled then q.arm id s.expire s.period
      else if !on && s.enabled then (q.disarm id).1
      else q

def isEnabled (q : Queue) (id : Id) : Bool := (q.slot? id).elim false Slot.enabled

def fireTime? (q : Queue) (id : Id) : Option Time :=
  (q.slot? id).bind fun s => if s.enabled then some s.expire else none

def remaining? (q : Queue) (id : Id) : Option Time := (q.fireTime? id).map (· - q.now)

def setParam (q : Queue) (id : Id) (param : Nat) : Queue :=
  match q.slot? id with
  | none => q
  | some _ => q.modifySlot id.slot fun s => { s with param }

def nextFireTime? (q : Queue) : Option Time := q.order.head?.map Key.time

def untilNext? (q : Queue) : Option Time := q.nextFireTime?.map (· - q.now)

/-- Takes the first entry if it is due at or before `limit`. A recurring entry
is armed again one period after its nominal fire time. -/
def popDue (q : Queue) (limit : Time) : Option (Fired × Queue) :=
  match q.order with
  | [] => none
  | key :: rest =>
      if limit < key.time then none else
        (q.slots[key.slot]?).map fun s =>
          let fired : Fired := ⟨⟨key.slot, s.generation⟩, s.owner, s.param, key.time⟩
          let q := { q with order := rest, now := max q.now key.time }
          if s.period.isZero then
            let q := q.modifySlot key.slot fun s => { s with enabled := false }
            (fired, if s.persistent then q else q.release fired.id)
          else
            let expire := key.time + s.period
            let seq := q.nextSeq
            (fired, { q with
              nextSeq := seq + 1
              order := (Key.mk expire seq key.slot).insert q.order
              slots := q.slots.modify key.slot fun s => { s with expire, seq } })

def drain {σ : Type} (fire : Fired → Queue × σ → Option (Queue × σ)) (limit : Time) :
    (fuel : Nat) → Queue × σ → Option (Queue × σ)
  | 0, _ => none
  | fuel + 1, (q, s) =>
      match q.popDue limit with
      | none => some (q, s)
      | some (fired, q) => do drain fire limit fuel (← fire fired (q, s))

def advanceTo {σ : Type} (fire : Fired → Queue × σ → Option (Queue × σ)) (limit : Time)
    (fuel : Nat) (start : Queue × σ) : Option (Queue × σ) := do
  let (q, s) ← drain fire limit fuel start
  some (q.setNow limit, s)

def info (index : Nat) (s : Slot) : Info :=
  ⟨⟨index, s.generation⟩, s.owner, s.param, s.expire, s.period, s.enabled, s.persistent⟩

def entries (q : Queue) : List Info :=
  q.order.filterMap (fun k => (q.slots[k.slot]?).map (info k.slot)) ++
    (q.slots.toList.zipIdx.filter fun (s, _) => s.live && !s.enabled).map fun (s, i) => info i s

end Queue

end Lockstep.Timer
