import Mathlib.Data.List.Basic
import Lockstep.Proofs.Apart
import Lockstep.Proofs.TimerQueue

/-! The alarms of a timer queue. Taking the first timer off a queue takes the first alarm off
those of its processor and leaves those of the others alone. -/
namespace Lockstep
open Timer (Key Slot)

namespace Alarm

theorem insertFirst {a : Alarm} {rows : List Alarm} (first : ∀ b ∈ rows, a.time < b.time) :
    a.insert rows = a :: rows := by
  cases rows with
  | nil => rfl
  | cons b rest => simp [Alarm.insert, first b]

end Alarm

namespace Timer.Queue
variable {q p : Queue} {slots : Array Slot} {aimed : DeviceId → Nat → Option Action} {k : Key}

theorem alarmTime {a : Alarm} (h : alarm? slots aimed k = some a) : a.time = k.time := by
  obtain ⟨slot, -, h⟩ := Option.bind_eq_some_iff.mp h
  obtain ⟨action, -, h⟩ := Option.bind_eq_some_iff.mp h
  cases h
  rfl

theorem alarmKey {a : Alarm} (mem : a ∈ q.alarms aimed) : ∃ key ∈ q.order, key.time = a.time := by
  obtain ⟨key, armed, h⟩ := List.mem_filterMap.mp mem
  exact ⟨key, armed, (alarmTime h).symm⟩

theorem alarmFound {s : Slot} (found : slots[k.slot]? = some s) :
    alarm? slots aimed k = (aimed s.owner s.param).map (Alarm.mk k.time s.period) := by
  cases action : aimed s.owner s.param <;> simp [alarm?, found, action]

theorem alarmsInsert {rows : List Key} (sorted : rows.Pairwise Key.Before)
    (young : ∀ key ∈ rows, key.seq < k.seq) :
    (k.insert rows).filterMap (alarm? slots aimed) =
      (alarm? slots aimed k).elim id Alarm.insert (rows.filterMap (alarm? slots aimed)) := by
  induction rows with
  | nil => cases own : alarm? slots aimed k <;> simp [Key.insert, Alarm.insert, own]
  | cons head rest ih =>
    obtain ⟨first, sorted⟩ := List.pairwise_cons.mp sorted
    have younger := young head (List.mem_cons_self ..)
    replace ih := ih sorted fun key mem => young key (List.mem_cons_of_mem _ mem)
    unfold Key.insert
    by_cases early : k.time < head.time
    · rw [if_pos (.inl early), List.filterMap_cons]
      cases own : alarm? slots aimed k with
      | none => rfl
      | some a =>
        refine (Alarm.insertFirst fun b mem => ?_).symm
        obtain ⟨key, armed, h⟩ := List.mem_filterMap.mp mem
        rw [alarmTime own, alarmTime h]
        rcases List.mem_cons.mp armed with rfl | armed
        · exact early
        · exact Nat.lt_of_lt_of_le early (Key.beforeTime (first key armed))
    · have late : ¬ k.Before head := by
        rintro (earlier | ⟨-, older⟩)
        · exact early earlier
        · omega
      rw [if_neg late, List.filterMap_cons, List.filterMap_cons, ih]
      cases own : alarm? slots aimed k with
      | none => cases alarm? slots aimed head <;> rfl
      | some a =>
        cases other : alarm? slots aimed head with
        | none => rfl
        | some b => simp [Alarm.insert, alarmTime own, alarmTime other, early]

theorem keyUnique (sound : q.Sound) {a b : Key} (left : a ∈ q.order) (right : b ∈ q.order)
    (same : a.slot = b.slot) : a = b := by
  have first := (sound.listed a).mp left
  rw [same, (sound.listed b).mp right] at first
  exact (Option.some.inj first).symm

theorem alarmsElsewhere {rows : List Key} {index : Nat} {f : Slot → Slot}
    (away : ∀ key ∈ rows, key.slot ≠ index) :
    rows.filterMap (alarm? (slots.modify index f) aimed) = rows.filterMap (alarm? slots aimed) := by
  refine List.filterMap_congr fun key mem => ?_
  simp [alarm?, slotElsewhere (away key mem)]

variable (aimed) in
theorem popAlarms (sound : q.Sound) {limit : Time} {fired : Fired}
    (h : q.popDue limit = some (fired, p)) :
    ∃ period rest, q.alarms aimed = ((aimed fired.owner fired.param).map
        (Alarm.mk fired.time period)).elim rest (· :: rest) ∧
      p.alarms aimed = ((aimed fired.owner fired.param).map
        (Alarm.mk fired.time period)).elim rest (Alarm.next · rest) := by
  obtain ⟨key, rest, s, popped⟩ := popCases sound.toFiled h
  have found := popped.found
  have away : ∀ other ∈ rest, other.slot ≠ key.slot := by
    intro other mem shared
    have listed : other ∈ q.order := by rw [popped.order]; exact List.mem_cons_of_mem _ mem
    have equal := keyUnique sound listed popped.head shared
    subst equal
    exact Key.beforeIrrefl other (popped.first sound.toFiled other mem)
  have sorted := sound.sorted
  rw [popped.order] at sorted
  have before : q.alarms aimed = ((aimed s.owner s.param).map (Alarm.mk key.time s.period)).elim
      (rest.filterMap (alarm? q.slots aimed)) (· :: rest.filterMap (alarm? q.slots aimed)) := by
    unfold alarms
    rw [popped.order, List.filterMap_cons, alarmFound found]
    cases aimed s.owner s.param <;> rfl
  rw [popped.reported]
  refine ⟨s.period, rest.filterMap (alarm? q.slots aimed), before, ?_⟩
  rw [popped.result]
  split
  · rename_i once
    have left : (if s.persistent then q.taken key rest
        else (q.taken key rest).release fired.id).alarms aimed =
          rest.filterMap (alarm? q.slots aimed) := by
      rw [popped.reported]
      split
      · exact alarmsElsewhere away
      · exact (alarmsElsewhere away).trans (alarmsElsewhere away)
    refine left.trans ?_
    cases aimed s.owner s.param with
    | none => rfl
    | some action => simp [Alarm.next, once]
  · rename_i recurring
    let armed (t : Slot) : Slot := { t with expire := key.time + s.period, seq := q.nextSeq }
    have behind : alarm? (q.slots.modify key.slot armed) aimed
        ⟨key.time + s.period, q.nextSeq, key.slot⟩ =
          (aimed s.owner s.param).map (Alarm.mk (key.time + s.period) s.period) :=
      alarmFound (s := armed s) (slotChanged found)
    refine (alarmsInsert (List.pairwise_cons.mp sorted).2 fun other mem =>
      sound.young other (by rw [popped.order]; exact List.mem_cons_of_mem _ mem)).trans ?_
    have slots : (q.again key rest s.period).slots = q.slots.modify key.slot armed := rfl
    rw [slots, alarmsElsewhere away, behind]
    cases aimed s.owner s.param with
    | none => rfl
    | some action => simp [Alarm.next, recurring]

end Timer.Queue

end Lockstep
