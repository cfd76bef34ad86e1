import Lockstep.Proofs.Completion
import Lockstep.Proofs.TimerMap

/-! Timers are delivered on time. Pops go forward in time, each is heard by its owner at its own
fire time unless the owner is in use, and a recurring timer that nobody touches recurs exactly
at the multiples of its period. -/
namespace Lockstep
open Timer (Entry Fired)

namespace Timer.Queue
variable {q p : Queue} {limit : Time} {fired : Fired} {id : Id} {e : Entry}

theorem fireEntry (known : q.find? id = some e) : q.fireTime? id = e.fireTime? := by
  obtain ⟨s, valid, rfl⟩ := entryInv known
  cases enabled : s.enabled <;> simp [fireTime?, valid, Entry.fireTime?, Slot.entry, enabled]

theorem popRecurring (sound : q.Sound) (popped : q.popDue limit = some (fired, p))
    (known : q.find? id = some e) (recurring : e.period.isZero = false) :
    (fired.id = id ∧ fired.owner = e.owner ∧ fired.time = e.time ∧
        ∃ n, p.find? id = some { e with time := e.time + e.period, armed := some n }) ∨
      fired.id ≠ id ∧ p.find? id = some e := by
  obtain ⟨key, rest, s, cases⟩ := popCases sound.toFiled popped
  have agenda := congrArg Agenda.find? (popAgenda (h := []) cases)
  have own : q.find? fired.id = some s.entry := by
    rw [find?, cases.reported, slotOf cases.found cases.live rfl, Option.map_some]
  change p.find? = _ at agenda
  by_cases same : fired.id = id
  · subst same
    cases known.symm.trans own
    have time : fired.time = s.expire := by rw [cases.reported, cases.same]
    refine .inl ⟨rfl, by rw [cases.reported]; rfl, time, q.nextSeq, ?_⟩
    rw [agenda, Agenda.fire, recurring]
    exact Function.update_self ..
  · refine .inr ⟨same, ?_⟩
    rw [agenda, Agenda.fire]
    split
    · split
      · exact (Function.update_of_ne (Ne.symm same) ..).trans known
      · exact (Function.update_of_ne (Ne.symm same) ..).trans known
    · exact (Function.update_of_ne (Ne.symm same) ..).trans known

end Timer.Queue

section
variable (notices more : List Notice) (fired : Fired) (m : Machine)

@[simp] theorem popsPopped : pops (.popped fired :: notices) = fired :: pops notices := rfl

@[simp] theorem deliveriesPopped : deliveries (.popped fired :: notices) = deliveries notices := rfl

@[simp] theorem popsAppend : pops (notices ++ more) = pops notices ++ pops more :=
  List.filterMap_append

@[simp] theorem deliveriesAppend :
    deliveries (notices ++ more) = deliveries notices ++ deliveries more :=
  List.filterMap_append

@[simp] theorem popsHeard : pops (m.heard fired) = [] := by
  unfold Machine.heard
  split <;> rfl

@[simp] theorem deliveriesHeard : deliveries (m.heard fired) =
    if m.busyAt fired.owner = some false then [(fired, m.timers.now)] else [] := by
  unfold Machine.heard
  split <;> rfl

end

namespace Machine
variable {R : Machine → Machine → Prop} {m m' : Machine} {notices : List Notice}
  {r : Option Machine}

theorem Tale.timely (tale : Tale R m notices r) (sound : m.timers.Sound) :
    (∀ f ∈ pops notices, m.timers.now ≤ f.time) ∧
      (pops notices).Pairwise (fun f g => f.time ≤ g.time) ∧
      (∀ d ∈ deliveries notices, d.2 = d.1.time) ∧ ∀ m', r = some m' → Motion m m' := by
  induction tale with
  | stop m =>
    refine ⟨by simp [pops], .nil, by simp [deliveries], fun m' same => ?_⟩
    cases same
    exact .refl
  | stuck => exact ⟨by simp [pops], .nil, by simp [deliveries], fun m' same => by cases same⟩
  | lull first _ ih =>
    obtain ⟨sound', later⟩ := motionSound first.motion sound
    obtain ⟨ahead, order, timely, ends⟩ := ih sound'
    exact ⟨fun f mem => Nat.le_trans later (ahead f mem), order, timely,
      fun m' same => first.motion.trans (ends m' same)⟩
  | @pop m limit fired timers m₁ notices r due after _ ih =>
    obtain ⟨sound', now, behind, -⟩ := Timer.Queue.popInv sound due
    obtain ⟨sound₁, later⟩ := motionSound after.motion sound'
    obtain ⟨ahead, order, timely, ends⟩ := ih sound₁
    have first : ∀ f ∈ pops notices, fired.time ≤ f.time := fun f mem => by
      rw [← now]
      exact Nat.le_trans later (ahead f mem)
    simp only [List.cons_append, popsPopped, deliveriesPopped, popsAppend, deliveriesAppend,
      popsHeard, deliveriesHeard, List.nil_append, List.mem_cons, List.mem_append,
      List.pairwise_cons]
    refine ⟨?_, ⟨first, order⟩, ?_, fun m' same => ?_⟩
    · rintro f (rfl | mem)
      · exact behind
      · exact Nat.le_trans behind (first f mem)
    · rintro d (mem | mem)
      · split at mem
        · cases List.mem_singleton.mp mem
          exact now
        · cases mem
      · exact timely d mem
    · exact (Relation.ReflTransGen.head (.pop due) after.motion).trans (ends m' same)

theorem Tale.paired {owner : DeviceId} (returned : ∀ a b, R a b → Returned owner a b)
    (tale : Tale R m notices r) (sound : m.timers.Sound) (free : m.busyAt owner = some false) :
    (deliveries notices).filter (fun d => d.1.owner = owner) =
      ((pops notices).filter fun f => f.owner = owner).map fun f => (f, f.time) := by
  induction tale with
  | stop | stuck => rfl
  | lull first _ ih =>
    exact ih (motionSound first.motion sound).1 ((returned _ _ first.kept).trans free)
  | @pop m limit fired timers m₁ notices r due after _ ih =>
    obtain ⟨sound', now, -⟩ := Timer.Queue.popInv sound due
    have free₁ : m₁.busyAt owner = some false := (returned _ _ after.kept).trans free
    have rest := ih (motionSound after.motion sound').1 free₁
    simp only [List.cons_append, popsPopped, deliveriesPopped, popsAppend, deliveriesAppend,
      popsHeard, deliveriesHeard, List.nil_append, List.filter_append, List.filter_cons, rest]
    by_cases own : fired.owner = owner
    · subst own
      rw [if_pos (show ({ m with timers } : Machine).busyAt fired.owner = some false from free)]
      simp [now]
    · split <;> simp [own]

theorem Tale.recurs {id : Timer.Id} {e : Entry} (touch : ∀ a b, R a b → Untouched e.owner id a b)
    (tale : Tale R m notices r) (sound : m.timers.Sound) (free : m.busyAt e.owner = some false)
    (known : m.timers.find? id = some e) (armed : e.armed.isSome = true)
    (recurring : e.period.isZero = false) :
    ∃ k, ((deliveries notices).filter fun d => d.1.id = id).map Prod.snd =
        (List.range k).map (fun j => e.time + e.period.scale j) ∧
      ∀ m', r = some m' → m'.timers.fireTime? id = some (e.time + e.period.scale k) := by
  -- A pop of the entry leaves another, a period later, so the induction is over all entries.
  induction tale generalizing e with
  | stop m =>
    refine ⟨0, rfl, fun m' same => ?_⟩
    cases same
    rw [Timer.Queue.fireEntry known, Entry.fireTime?, if_pos armed, Time.scaleZero]
  | stuck => exact ⟨0, rfl, fun m' same => by cases same⟩
  | @lull m m₁ notices r first _ ih =>
    obtain ⟨returned, same⟩ := touch _ _ first.kept
    have known₁ : m₁.timers.find? id = some e := by
      rw [Timer.Queue.find?, same]
      exact known
    exact ih touch (motionSound first.motion sound).1 (returned.trans free) known₁ armed recurring
  | @pop m limit fired timers m₁ notices r due after _ ih =>
    obtain ⟨sound', now, -⟩ := Timer.Queue.popInv sound due
    have sound₁ := (motionSound after.motion sound').1
    obtain ⟨returned, same⟩ := touch _ _ after.kept
    have free₁ : m₁.busyAt e.owner = some false := returned.trans free
    have entries : m₁.timers.find? id = timers.find? id := by
      rw [Timer.Queue.find?, same]
      rfl
    simp only [List.cons_append, deliveriesPopped, deliveriesAppend, deliveriesHeard,
      List.filter_append, List.map_append]
    rcases Timer.Queue.popRecurring sound due known recurring with
      ⟨own, owner, time, n, next⟩ | ⟨other, same⟩
    · obtain ⟨k, times, ends⟩ := ih (e := { e with time := e.time + e.period, armed := some n })
        touch sound₁ free₁ (entries.trans next) rfl recurring
      refine ⟨k + 1, ?_, fun m' last => ?_⟩
      · have open_ : ({ m with timers } : Machine).busyAt fired.owner = some false := owner ▸ free
        rw [if_pos open_, times, List.range_succ_eq_map]
        simp [own, now, time, Time.scaleZero, Time.scaleSucc, Function.comp_def]
      · rw [ends m' last, Time.scaleSucc]
    · obtain ⟨k, times, ends⟩ := ih touch sound₁ free₁ (entries.trans same) armed recurring
      refine ⟨k, ?_, ends⟩
      rw [times]
      split <;> simp [other]

theorem untilDrained {call : Callback} (calls : ∀ s m, Acts (call s) m) {target : Time}
    {fuel : Nat} {u : Unit} (sound : m.timers.Sound)
    (ran : runUntil call target fuel m = some (u, m')) {id : Timer.Id} {time : Time}
    (armed : m'.timers.fireTime? id = some time) : target < time :=
  abreastArmed (untilArrives calls sound ran).abreast armed

theorem buildMotion {call : Callback} (calls : ∀ s m, Acts (call s) m) {a : Assembly}
    (started : a.build call = some (none, m)) : Motion a.machine m := by
  unfold Assembly.build start at started
  rw [Run.getBind] at started
  obtain ⟨failed, m₁, hooks, started⟩ := Run.bindInv started
  have first := effectMotion (startDevicesActs calls _ _ _ m₁ hooks)
  cases failed with
  | some e => cases started
  | none =>
    dsimp only at started
    rw [Run.modifyBind] at started
    obtain ⟨u, m₂, done, started⟩ := Run.bindInv started
    cases started
    have frozen : Move m₁ { m₁ with spaces := m₁.spaces.map (·.freeze) } := .quiet (.same rfl rfl)
    exact (first.tail frozen).trans (motionDrives.carries.reset (callMotion calls) _ u m done).2

theorem sparingFollows [DecidableRel R] (call : Callback) (script : Script) (m : Machine) :
    Run.Follows R (sparing R call script) (call script) m :=
  fun _ _ h => sparingInv h

theorem sparingActs [DecidableRel R] {call : Callback} (calls : ∀ s m, Acts (call s) m)
    (script : Script) (m : Machine) : Acts (sparing R call script) m :=
  fun r m' h => calls script m r m' (sparingInv h).1

theorem sparingTale [DecidableRel R] {call : Callback} (calls : ∀ s m, Acts (call s) m)
    (drives : Drives R)
    (waits : ∀ (m : Machine) (limit : Time), R m { m with timers := m.timers.setNow limit })
    (course : Course (sparing R call) m notices r) (idle : m.frame = none) : Tale R m notices r :=
  courseTale (sparingActs calls) (fun s m => (sparingFollows call s m).keeps) drives waits course
    idle

/-- Timers are delivered exactly. In no state is anything armed behind the clock. Timers are
popped in the order of time, and whatever is delivered is delivered at its own fire time. An
owner that is not in use, and that callbacks and hosts give back, hears of each of its timers
once and in order. A recurring timer that, besides, nobody touches is heard at exactly the
multiples of its period. A run that ends leaves nothing armed up to its target. -/
theorem timerDelivery {depth : Nat} {a : Assembly} {origin : Machine} (assembled : Assembled a)
    (started : a.build (invoke depth) = some (none, origin)) :
    (∀ m, Motion a.machine m → ∀ id time, m.timers.fireTime? id = some time →
        m.timers.now ≤ time) ∧
      (∀ notices r, Course (invoke depth) origin notices r →
        (pops notices).Pairwise (fun f g => f.time ≤ g.time) ∧
          (∀ d ∈ deliveries notices, d.2 = d.1.time) ∧ ∀ m, r = some m → Motion a.machine m) ∧
      ∀ before m, Course (invoke depth) origin before (some m) →
        (∀ owner notices r, m.busyAt owner = some false →
          Course (sparing (Returned owner) (invoke depth)) m notices r →
            (deliveries notices).filter (fun d => d.1.owner = owner) =
                ((pops notices).filter fun f => f.owner = owner).map (fun f => (f, f.time)) ∧
              ∀ m', r = some m' → Course (invoke depth) m notices (some m')) ∧
          (∀ id s, m.timers.slot? id = some s → s.enabled = true → s.period.isZero = false →
            m.busyAt s.owner = some false → ∀ notices r,
              Course (sparing (Untouched s.owner id) (invoke depth)) m notices r →
                ∃ k, ((deliveries notices).filter fun d => d.1.id = id).map Prod.snd =
                    (List.range k).map (fun j => s.expire + s.period.scale j) ∧
                  ∀ m', r = some m' → Course (invoke depth) m notices (some m') ∧
                    m'.timers.fireTime? id = some (s.expire + s.period.scale k)) ∧
          ∀ target fuel m', runUntil (invoke depth) target fuel m = some ((), m') →
            ∀ id time, m'.timers.fireTime? id = some time → target < time := by
  have acts := invokeActs depth
  have fresh := assembledFresh assembled
  have built := buildMotion acts started
  have fair := builtFair acts ⟨a, assembled, started⟩
  have tale : ∀ {notices r}, Course (invoke depth) origin notices r →
      Tale (fun _ _ => True) origin notices r := fun course =>
    courseTale acts (fun _ _ _ _ _ => trivial)
      ⟨fun _ _ => trivial, fun _ => trivial, fun _ _ => trivial⟩ (fun _ _ => trivial) course
      fair.idle
  refine ⟨fun m motion id time armed => ?_, fun notices r course => ?_,
    fun before m course => ?_⟩
  · have sound := (motionSound motion fresh.sound).1
    obtain ⟨key, mem, rfl⟩ := Timer.Queue.armedKey sound.toFiled armed
    exact sound.ahead key mem
  · obtain ⟨-, order, timely, ends⟩ := (tale course).timely fair.sound
    exact ⟨order, timely, fun m same => built.trans (ends m same)⟩
  · have motion := ((tale course).timely fair.sound).2.2.2 m rfl
    have sound := (motionSound motion fair.sound).1
    have idle := (tale course).ends fair.idle
    refine ⟨fun owner notices r free course => ?_,
      fun id s valid enabled recurring free notices r course => ?_,
      fun target fuel m' ran id time armed => untilDrained acts sound ran armed⟩
    · have real : ∀ m', r = some m' → Course (invoke depth) m notices (some m') := by
        rintro m' rfl
        exact courseFollows (returnedDrives owner) (sparingFollows _) course
      have heard := sparingTale acts (returnedDrives owner) (fun _ _ => rfl) course idle
      exact ⟨heard.paired (fun _ _ kept => kept) sound free, real⟩
    · have slots : ∀ (m : Machine) (limit : Time), Untouched s.owner id m
          { m with timers := m.timers.setNow limit } := fun m limit => by
        refine ⟨rfl, ?_⟩
        unfold Timer.Queue.setNow
        split <;> rfl
      have known : m.timers.find? id = some s.entry := by rw [Timer.Queue.find?, valid]; rfl
      have armed : s.entry.armed.isSome = true := by rw [Timer.Queue.armedEntry, enabled]
      have heard := sparingTale acts (untouchedDrives s.owner id) slots course idle
      obtain ⟨k, times, next⟩ :=
        heard.recurs (fun _ _ kept => kept) sound free known armed recurring
      refine ⟨k, times, ?_⟩
      rintro m' rfl
      exact ⟨courseFollows (untouchedDrives s.owner id) (sparingFollows _) course, next m' rfl⟩

theorem Course.noted {call : Callback} {origin : Machine} {notices more : List Notice} {u : Unit}
    {target : Time} {fuel : Nat} (course : Course call origin notices (some m))
    (ran : noteUntil call target fuel m = (more, some (u, m'))) :
    Course call origin (notices ++ more) (some m') := by
  have step := course.run target fuel
  have same : (noteUntil call target fuel m).2 = runUntil call target fuel m :=
    congrFun (noteUntilResult call target fuel) m
  rw [← same, ran] at step
  exact step

def firstTimer : Timer.Id := ⟨0, 0⟩

def pairRecurs : Bool :=
  match pair.build (invoke 3) with
  | some (none, origin) =>
      match origin.timers.slot? firstTimer with
      | some s =>
          match noteUntil (sparing (Untouched s.owner firstTimer) (invoke 3)) (.ofMicros 12) 40
            origin with
          | (notices, some _) => decide (s.enabled = true ∧ s.period.isZero = false ∧
              origin.busyAt s.owner = some false ∧ (deliveries notices).length = 3)
          | _ => false
      | none => false
  | _ => false

theorem pairHeard : ∃ origin s notices m, pair.build (invoke 3) = some (none, origin) ∧
    origin.timers.slot? firstTimer = some s ∧
    Course (sparing (Untouched s.owner firstTimer) (invoke 3)) origin notices (some m) ∧
    (deliveries notices).length = 3 ∧
    ∃ k, ((deliveries notices).filter fun d => d.1.id = firstTimer).map Prod.snd =
        (List.range k).map (fun j => s.expire + s.period.scale j) ∧
      ∀ m', some m = some m' → Course (invoke 3) origin notices (some m') ∧
        m'.timers.fireTime? firstTimer = some (s.expire + s.period.scale k) := by
  have runs : pairRecurs = true := by decide +kernel
  unfold pairRecurs at runs
  split at runs
  · rename_i origin started
    split at runs
    · rename_i s valid
      split at runs
      · rename_i notices row ran
        obtain ⟨enabled, recurring, free, thrice⟩ := of_decide_eq_true runs
        have course := Course.start.noted ran
        exact ⟨origin, s, _, _, started, valid, course, thrice,
          ((timerDelivery pairAssembled started).2.2 [] origin .start).2.1 firstTimer s valid
            enabled recurring free _ _ course⟩
      · cases runs
    · cases runs
  · cases runs

def pairDrops : Bool :=
  match pair.build (invoke 3) with
  | some (none, origin) =>
      match invoke 3 (.perform (.hold ⟨0⟩)) origin with
      | some (_, m) =>
          match noteUntil (invoke 3) (.ofMicros 4) 40 m with
          | (notices, some _) => decide ((origin.busyAt ⟨0⟩).isSome ∧
              (∃ f ∈ pops notices, f.owner = ⟨0⟩) ∧ deliveries notices = [])
          | _ => false
      | none => false
  | _ => false

/-- A device that is held for good misses its timers: each is popped and dropped. -/
theorem heldUnheard : ∃ origin notices m, pair.build (invoke 3) = some (none, origin) ∧
    Course (invoke 3) origin notices (some m) ∧ (origin.busyAt ⟨0⟩).isSome ∧
      (∃ f ∈ pops notices, f.owner = ⟨0⟩) ∧ deliveries notices = [] := by
  have runs : pairDrops = true := by decide +kernel
  unfold pairDrops at runs
  split at runs
  · rename_i origin started
    split at runs
    · rename_i reply m held
      split at runs
      · rename_i notices row ran
        obtain ⟨present, popped, unheard⟩ := of_decide_eq_true runs
        have fresh : Course (invoke 3) origin [] (some origin) := .start
        have course := fresh.script (.perform (.hold ⟨0⟩))
        rw [held] at course
        exact ⟨origin, _, _, started, Course.noted course ran, present, popped, unheard⟩
      · cases runs
    · cases runs
  · cases runs

end Machine

end Lockstep
