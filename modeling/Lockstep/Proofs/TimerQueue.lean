import Lockstep.Proofs.TimerOrder

/-! A queue is sound when it is filed and nothing in it lies behind the clock. Arming,
disarming, freeing and firing keep a queue sound, so the head of the order is the next
timer due. -/
namespace Lockstep.Timer.Queue
variable {q : Queue} {id : Id}

structure Sound (q : Queue) : Prop extends Filed q where
  ahead : ∀ key ∈ q.order, q.now ≤ key.time

theorem soundEmpty : Sound {} := ⟨filedEmpty, fun _ mem => absurd mem List.not_mem_nil⟩

theorem soundEdited {p : Queue} (sound : q.Sound) (edited : Edited q p) (now : p.now = q.now) :
    p.Sound := by
  refine ⟨edited.filed sound.toFiled, fun key mem => ?_⟩
  rw [now]
  rcases edited.added key mem with old | ⟨late, -⟩
  · exact sound.ahead key old
  · exact late

theorem soundOccupy (sound : q.Sound) (owner : DeviceId) (param : Nat) (persistent : Bool) :
    (q.occupy owner param persistent).1.Sound :=
  soundEdited sound (occupyEdited q owner param persistent) (nowOccupy ..)

theorem soundScheduleAt (sound : q.Sound) (owner : DeviceId) (time period : Time) (param : Nat) :
    (q.scheduleAt owner time period param).1.Sound :=
  soundEdited sound (scheduleAtEdited owner time period param) (nowScheduleAt ..)

theorem soundAdjustAt (sound : q.Sound) (time period : Time) :
    (q.adjustAt id time period).1.Sound :=
  soundEdited sound (adjustAtEdited time period) (nowAdjustAt ..)

theorem soundCancel (sound : q.Sound) : (q.cancel id).1.Sound :=
  soundEdited sound cancelEdited nowCancel

theorem soundRemove (sound : q.Sound) : (q.remove id).Sound :=
  soundEdited sound removeEdited nowRemove

theorem soundSetNow {limit : Time} (sound : q.Sound) (later : ∀ key ∈ q.order, limit < key.time) :
    (q.setNow limit).Sound := by
  refine ⟨(setNowEdited limit).filed sound.toFiled, fun key mem => ?_⟩
  rw [orderSetNow] at mem
  have ahead := sound.ahead key mem
  have due := later key mem
  rw [nowSetNow, Time.le_def, Time.attos_max]
  rw [Time.le_def] at ahead
  rw [Time.lt_def] at due
  omega

theorem popInv {limit : Time} {fired : Fired} {p : Queue} (sound : q.Sound)
    (h : q.popDue limit = some (fired, p)) :
    p.Sound ∧ p.now = fired.time ∧ q.now ≤ fired.time ∧ fired.time ≤ limit ∧
      ∃ key rest, q.order = key :: rest ∧ key.time = fired.time := by
  obtain ⟨key, rest, s, popped⟩ := popCases sound.toFiled h
  have ahead := sound.ahead key popped.head
  have now : p.now = key.time := by
    rw [popped.now]
    apply Time.ext
    rw [Time.attos_max]
    rw [Time.le_def] at ahead
    omega
  have time : fired.time = key.time := by rw [popped.reported]
  refine ⟨⟨popped.filed sound.toFiled, fun other mem => ?_⟩, now.trans time.symm, time ▸ ahead,
    time ▸ popped.due, key, rest, popped.order, time.symm⟩
  rw [now]
  exact Key.beforeTime (popped.later sound.toFiled other mem)

end Lockstep.Timer.Queue
