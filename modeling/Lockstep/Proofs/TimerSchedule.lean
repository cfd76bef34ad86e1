import Lockstep.Proofs.TimerLoad
import Lockstep.Proofs.TimerMap

/-! What an advance fires when its callbacks leave the queue alone. An armed entry fires at its
fire time and then at each whole number of periods after it, up to the limit, and at no other
time; the firings of all entries come by time and then by arming. -/
namespace Lockstep.Timer

structure Shot where
  fired : Fired
  armed : Nat
  queue : Queue

def Shot.key (shot : Shot) : Key := ⟨shot.fired.time, shot.armed, shot.fired.id.slot⟩

namespace Entry

def fired (e : Entry) (id : Id) (k : Nat) : Fired :=
  ⟨id, e.owner, e.param, e.time + e.period.scale k⟩

def FiresBy (e : Entry) (limit : Time) (k : Nat) : Prop :=
  e.armed.isSome ∧ (e.period.isZero = true → k = 0) ∧
    e.time.attos + k * e.period.attos ≤ limit.attos

def due (e : Entry) (limit : Time) : Nat :=
  if e.armed.isSome then shotsLeft limit e.time e.period else 0

def shot (e : Entry) (number : Nat) : Option Entry :=
  if e.period.isZero then if e.persistent then some { e with armed := none } else none
  else some { e with time := e.time + e.period, armed := some number }

def Leaves (e : Entry) (n : Nat) (after : Option Entry) : Prop :=
  if n = 0 then after = some e
  else if e.period.isZero then
    after = if e.persistent then some { e with armed := none } else none
  else ∃ number, after =
    some { e with time := e.time + e.period.scale n, armed := some number }

variable {e : Entry} {limit : Time} {number n : Nat}

theorem dueIff {k : Nat} : k < e.due limit ↔ e.FiresBy limit k := by
  unfold due FiresBy
  split
  · rename_i armed
    rw [shotsIff]
    simp only [armed, true_and]
  · rename_i idle
    simp only [idle, Nat.not_lt_zero, Bool.false_eq_true, false_and]

theorem firedFirst {id : Id} : e.fired id 0 = ⟨id, e.owner, e.param, e.time⟩ := by
  have bounded := e.time.bounded
  have same : e.time + e.period.scale 0 = e.time := Time.ext (by simpa using bounded)
  rw [fired, same]

theorem addPeriods {time period : Time} (k : Nat) :
    time + period + period.scale k = time + period.scale (k + 1) := by
  apply Time.ext
  simp only [Time.attos_add, Time.attos_scale, Nat.mul_succ]
  omega

theorem onePeriod {time period : Time} : time + period.scale 1 = time + period := by
  apply Time.ext
  simp only [Time.attos_add, Time.attos_scale]
  omega

section
variable {e' : Entry} {k : Nat} {id : Id} {after : Option Entry}

theorem shotInv (left : e.shot number = some e') :
    e.period.isZero = true ∧ e.persistent = true ∧ e' = { e with armed := none } ∨
      ¬ e.period.isZero = true ∧
        e' = { e with time := e.time + e.period, armed := some number } := by
  unfold shot at left
  split at left
  · rename_i once
    split at left
    · rename_i kept
      exact .inl ⟨once, kept, (Option.some.inj left).symm⟩
    · cases left
  · rename_i recurring
    exact .inr ⟨recurring, (Option.some.inj left).symm⟩

theorem shotDue (number : Nat) (early : limit < .never) (armed : e.armed.isSome) (now : e.time ≤ limit) :
    e.due limit = (e.shot number).elim 0 (·.due limit) + 1 := by
  unfold due shot
  rw [if_pos armed]
  split
  · rename_i once
    rw [shotsOnce now once]
    split <;> rfl
  · rename_i recurring
    rw [shotsAgain early now recurring]
    rfl

theorem shotFired (left : e.shot number = some e') (more : k < e'.due limit) :
    e'.fired id k = e.fired id (k + 1) := by
  obtain ⟨-, -, rfl⟩ | ⟨-, rfl⟩ := shotInv left
  · cases more
  · simp only [fired, addPeriods]

theorem shotFreed (left : e.shot number = none) : e.Leaves (0 + 1) none := by
  unfold shot at left
  split at left
  · rename_i once
    split at left
    · cases left
    · rename_i transient
      simp [Leaves, once, transient]
  · cases left

theorem shotLeaves (left : e.shot number = some e') (leaves : e'.Leaves (e'.due limit) after) :
    e.Leaves (e'.due limit + 1) after := by
  obtain ⟨once, kept, rfl⟩ | ⟨recurring, rfl⟩ := shotInv left
  · have leaves : after = some { e with armed := none } := leaves
    simp [Leaves, once, kept, leaves]
  · unfold Leaves at leaves ⊢
    rw [if_neg (Nat.succ_ne_zero _), if_neg recurring]
    rw [if_neg recurring] at leaves
    split at leaves
    · rename_i last
      exact ⟨number, by rw [leaves, last, onePeriod]⟩
    · obtain ⟨number, rfl⟩ := leaves
      exact ⟨number, by simp only [addPeriods]⟩

end

end Entry

namespace Agenda
variable {a : Agenda} {id : Id} {e : Entry}

theorem fireFind : (a.fire id e).find? = Function.update a.find? id (e.shot a.armings) := by
  unfold fire Entry.shot
  split
  · split <;> rfl
  · rfl

end Agenda

def Taken : Queue → List Shot → Prop
  | _, [] => True
  | q, shot :: shots =>
      (∃ e, q.find? shot.fired.id = some e ∧ e.armed = some shot.armed ∧
        shot.fired = ⟨shot.fired.id, e.owner, e.param, e.time⟩ ∧
        shot.queue.agenda [] = (q.agenda []).fire shot.fired.id e) ∧
      Taken shot.queue shots

/-- The shots of an advance from one queue to another. -/
structure Scheduled (q : Queue) (limit : Time) (shots : List Shot) (p : Queue) : Prop where
  taken : Taken q shots
  order : (shots.map Shot.key).Pairwise Key.Before
  entries : ∀ id e, q.find? id = some e → ∃ n, (∀ k, k < n ↔ e.FiresBy limit k) ∧
    (shots.map Shot.fired).filter (·.id = id) = (List.range n).map (e.fired id) ∧
    e.Leaves n (p.find? id)
  others : ∀ id, q.find? id = none → (∀ shot ∈ shots, shot.fired.id ≠ id) ∧ p.find? id = none
  now : p.now = max q.now limit

inductive Drained (limit : Time) : Queue → List Shot → Queue → Prop where
  | idle {q} (none : q.popDue limit = none) : Drained limit q [] q
  | pop {q shot shots p} (due : q.popDue limit = some (shot.fired, shot.queue))
      (number : q.order.head?.map Key.seq = some shot.armed)
      (later : Drained limit shot.queue shots p) : Drained limit q (shot :: shots) p

def onlooker {σ : Type} (note : Fired → Queue → σ → σ) (fired : Fired) :
    Queue × σ → Option (Queue × σ)
  | (q, s) => some (q, note fired q s)

namespace Drained
open Queue
variable {limit : Time} {q p : Queue} {shots : List Shot} {id : Id} {e : Entry}

theorem ends (early : limit < .never) {n : Nat} (filed : q.Filed) (load : q.load limit = n) :
    ∃ shots p, Drained limit q shots p ∧ shots.length = n := by
  induction n generalizing q with
  | zero =>
    cases next : q.popDue limit with
    | none => exact ⟨[], q, .idle next, rfl⟩
    | some popped =>
      obtain ⟨key, rest, s, popped⟩ := popCases filed next
      have less := popLoad popped filed (Nat.le_refl _) early
      omega
  | succ n ih =>
    cases next : q.popDue limit with
    | none =>
      have late := popNone filed next
      have empty : q.load limit = 0 := List.sum_eq_zero fun left mem => by
        obtain ⟨key, listed, rfl⟩ := List.mem_map.mp mem
        exact shotsNone (late key listed)
      omega
    | some popped =>
      obtain ⟨fired, next'⟩ := popped
      obtain ⟨key, rest, s, popped⟩ := popCases filed next
      have less := popLoad popped filed (Nat.le_refl _) early
      obtain ⟨shots, p, later, length⟩ := ih (popped.filed filed) (by omega)
      exact ⟨⟨fired, key.seq, next'⟩ :: shots, p,
        .pop next (by rw [popped.order]; rfl) later, by rw [List.length_cons, length]⟩

theorem runs {σ : Type} (note : Fired → Queue → σ → σ) (drained : Drained limit q shots p)
    (fuel : Nat) (s : σ) :
    drain (onlooker note) limit fuel (q, s) = if shots.length < fuel then
      some (p, shots.foldl (fun s shot => note shot.fired shot.queue s) s) else none := by
  induction drained generalizing fuel s with
  | idle none =>
    cases fuel with
    | zero => rfl
    | succ fuel => simp only [drain, none, List.foldl_nil, List.length_nil, Nat.succ_pos, if_true]
  | pop due number later ih =>
    cases fuel with
    | zero => rfl
    | succ fuel =>
      simp only [drain, due, onlooker, bind, Option.bind, List.foldl_cons, List.length_cons,
        Nat.add_lt_add_iff_right]
      exact ih fuel _

theorem popEntry {shot : Shot} (filed : q.Filed)
    (due : q.popDue limit = some (shot.fired, shot.queue))
    (number : q.order.head?.map Key.seq = some shot.armed) :
    shot.queue.Filed ∧ shot.key ∈ q.order ∧ shot.fired.time ≤ limit ∧
      (∀ key ∈ shot.queue.order, shot.key.Before key) ∧
      ∃ e, q.find? shot.fired.id = some e ∧ e.armed = some shot.armed ∧
        shot.fired = ⟨shot.fired.id, e.owner, e.param, e.time⟩ ∧
        shot.queue.agenda [] = (q.agenda []).fire shot.fired.id e := by
  obtain ⟨key, rest, s, popped⟩ := popCases filed due
  rw [popped.order, List.head?_cons, Option.map_some, Option.some.injEq] at number
  have same : shot.key = key := by
    rw [Shot.key, popped.reported, ← number]
  have reported : shot.fired = ⟨shot.fired.id, s.owner, s.param, s.expire⟩ := by
    rw [popped.reported, popped.same]
  refine ⟨popped.filed filed, same ▸ popped.head, ?_, same ▸ popped.later filed, s.entry,
    (popFirst (h := []) filed popped).1.1, ?_, reported, popAgenda popped⟩
  · rw [popped.reported]
    exact popped.due
  · rw [← number, popped.same]
    simp [Slot.entry, popped.enabled]

theorem firedFind {shot : Shot} (fires : shot.queue.agenda [] = (q.agenda []).fire id e) :
    shot.queue.find? = Function.update q.find? id (e.shot q.nextSeq) :=
  (congrArg Agenda.find? fires).trans Agenda.fireFind

theorem taken (drained : Drained limit q shots p) (filed : q.Filed) : Taken q shots := by
  induction drained with
  | idle none => trivial
  | pop due number later ih =>
    obtain ⟨filed', -, -, -, entry⟩ := popEntry filed due number
    exact ⟨entry, ih filed'⟩

theorem after (drained : Drained limit q shots p) (filed : q.Filed) {last : Key}
    (first : ∀ key ∈ q.order, last.Before key) :
    (last :: shots.map Shot.key).Pairwise Key.Before := by
  induction drained generalizing last with
  | idle none => simp
  | pop due number later ih =>
    obtain ⟨filed', head, -, behind, -⟩ := popEntry filed due number
    have rest := ih filed' behind
    refine List.pairwise_cons.mpr ⟨fun key mem => ?_, rest⟩
    rcases List.mem_cons.mp mem with rfl | mem
    · exact first _ head
    · exact Key.beforeTrans (first _ head) ((List.pairwise_cons.mp rest).1 key mem)

theorem sorted (drained : Drained limit q shots p) (filed : q.Filed) :
    (shots.map Shot.key).Pairwise Key.Before := by
  cases drained with
  | idle none => exact .nil
  | pop due number later =>
    obtain ⟨filed', -, -, behind, -⟩ := popEntry filed due number
    exact later.after filed' behind

theorem clock (drained : Drained limit q shots p) (filed : q.Filed) :
    max p.now limit = max q.now limit := by
  induction drained with
  | idle none => rfl
  | @pop q shot shots p due number later ih =>
    obtain ⟨filed', -, bound, -, -⟩ := popEntry filed due number
    obtain ⟨key, rest, s, popped⟩ := popCases filed due
    have now := popped.now
    rw [show key.time = shot.fired.time by rw [popped.reported]] at now
    rw [ih filed', now]
    apply Time.ext
    rw [Time.le_def] at bound
    simp only [Time.attos_max]
    omega

theorem unknown (drained : Drained limit q shots p) (filed : q.Filed)
    (unknown : q.find? id = none) :
    (∀ shot ∈ shots, shot.fired.id ≠ id) ∧ p.find? id = none := by
  induction drained with
  | idle none => exact ⟨fun _ mem => absurd mem List.not_mem_nil, unknown⟩
  | @pop q shot shots p due number later ih =>
    obtain ⟨filed', -, -, -, e, known, -, -, fires⟩ := popEntry filed due number
    have other : shot.fired.id ≠ id := by
      rintro rfl
      cases known.symm.trans unknown
    have still : shot.queue.find? id = none := by
      rw [firedFind fires, Function.update_of_ne other.symm, unknown]
    obtain ⟨none, gone⟩ := ih filed' still
    exact ⟨List.forall_mem_cons.mpr ⟨other, none⟩, gone⟩

theorem entry (drained : Drained limit q shots p) (filed : q.Filed) (early : limit < .never)
    (known : q.find? id = some e) :
    (shots.map Shot.fired).filter (·.id = id) = (List.range (e.due limit)).map (e.fired id) ∧
      e.Leaves (e.due limit) (p.find? id) := by
  induction drained generalizing e with
  | @idle q none =>
    have nothing : e.due limit = 0 := by
      unfold Entry.due
      split
      · rename_i armed
        exact shotsNone (quietOf (h := []) filed none id e ⟨known, armed⟩)
      · rfl
    rw [nothing]
    exact ⟨rfl, known⟩
  | @pop q shot shots p due number later ih =>
    obtain ⟨filed', -, bound, -, e', known', armed, reported, fires⟩ := popEntry filed due number
    have find := firedFind fires
    by_cases own : shot.fired.id = id
    · subst own
      cases known.symm.trans known'
      have now : e.time ≤ limit := by
        rw [reported] at bound
        exact bound
      have first : shot.fired = e.fired shot.fired.id 0 := reported.trans Entry.firedFirst.symm
      have split := Entry.shotDue q.nextSeq early (by rw [armed]; rfl) now
      rw [List.map_cons, List.filter_cons_of_pos (by simp), split]
      cases left : e.shot q.nextSeq with
      | none =>
        have gone : shot.queue.find? shot.fired.id = none := by
          rw [find, Function.update_self, left]
        obtain ⟨none, freed⟩ := later.unknown filed' gone
        have nothing : (shots.map Shot.fired).filter (·.id = shot.fired.id) = [] := by
          simpa [List.filter_eq_nil_iff] using none
        rw [nothing, freed]
        exact ⟨congrArg (fun f => [f]) first, Entry.shotFreed left⟩
      | some e' =>
        obtain ⟨times, leaves⟩ := ih filed' (by rw [find, Function.update_self, left])
        rw [Option.elim_some, List.range_succ_eq_map, List.map_cons, List.map_map, times]
        refine ⟨List.cons_eq_cons.mpr ⟨first, ?_⟩, Entry.shotLeaves left leaves⟩
        exact List.map_congr_left fun k mem => Entry.shotFired left (List.mem_range.mp mem)
    · have still : shot.queue.find? id = some e := by
        rw [find, Function.update_of_ne (Ne.symm own), known]
      have rest := ih filed' still
      rw [List.map_cons, List.filter_cons_of_neg (by simpa using own)]
      exact rest

theorem findSetNow (q : Queue) (time : Time) : (q.setNow time).find? = q.find? := by
  unfold setNow
  split <;> rfl

theorem scheduled (drained : Drained limit q shots p) (filed : q.Filed) (early : limit < .never) :
    Scheduled q limit shots (p.setNow limit) where
  taken := drained.taken filed
  order := drained.sorted filed
  entries id e known := by
    obtain ⟨times, leaves⟩ := drained.entry filed early known
    exact ⟨e.due limit, fun k => Entry.dueIff, times, by rwa [findSetNow]⟩
  others id unknown := by
    rw [findSetNow]
    exact drained.unknown filed unknown
  now := (nowSetNow limit).trans (drained.clock filed)

end Drained

theorem Chain.filed {q p : Queue} {log : List Note} (chain : Chain q log p) (filed : q.Filed) :
    p.Filed := by
  induction chain with
  | nil => exact filed
  | cons took rest ih => exact ih (tookFiled filed took)

/-- An advance comes to an end and fires the schedule of the queue: each entry at its own times, all
of them by time and arming. One-shot entries that fired rest or are gone, recurring ones are armed
at their first time after the limit, and the others are as they were. -/
theorem advanceSchedule {σ : Type} (client : Client) {fuel : Nat} {q : Queue} {log : List Note}
    (ran : client.run fuel ({}, []) = some (q, log)) {limit : Time} (early : limit < .never)
    (note : Fired → Queue → σ → σ) (s : σ) :
    ∃ shots p, Scheduled q limit shots p ∧ ∀ more,
      Queue.advanceTo (onlooker note) limit more (q, s) = if shots.length < more then
        some (p, shots.foldl (fun s shot => note shot.fired shot.queue s) s) else none := by
  have filed := (Client.chain ran).filed Queue.filedEmpty
  obtain ⟨shots, p, drained, -⟩ := Drained.ends early filed rfl
  refine ⟨shots, p.setNow limit, drained.scheduled filed early, fun more => ?_⟩
  rw [Queue.advanceTo, drained.runs note]
  split <;> rfl

def clocks : Client :=
  .call (.schedule ⟨0⟩ (.ofMicros 4) (.ofMicros 4) 0) fun _ =>
  .call (.scheduleAt ⟨1⟩ (.ofMicros 6) (.ofMicros 6) 1) fun _ =>
  .call (.schedule ⟨2⟩ (.ofMicros 12) .zero 2) fun _ => .done

theorem clocksSchedule : ∃ q log shots p,
    clocks.run 1 ({}, []) = some (q, log) ∧ Time.ofMicros 13 < .never ∧
    Scheduled q (.ofMicros 13) shots p ∧
    shots.foldl (fun s shot => s ++ [(shot.fired.time.micros, shot.fired.param)]) [] =
      [(4, 0), (6, 1), (8, 0), (12, 2), (12, 1), (12, 0)] := by
  have runs : ((clocks.run 1 ({}, [])).bind fun row =>
      (Queue.advanceTo (onlooker fun fired _ s => s ++ [(fired.time.micros, fired.param)])
        (.ofMicros 13) 9 (row.1, [])).map (·.2)) =
      some [(4, 0), (6, 1), (8, 0), (12, 2), (12, 1), (12, 0)] := by decide +kernel
  obtain ⟨⟨q, log⟩, ran, told⟩ := Option.bind_eq_some_iff.mp runs
  have early : Time.ofMicros 13 < .never := by decide +kernel
  obtain ⟨shots, p, scheduled, runs⟩ := advanceSchedule clocks ran early
    (fun fired _ s => s ++ [(fired.time.micros, fired.param)]) []
  dsimp only at told
  rw [runs 9] at told
  split at told
  · exact ⟨q, log, shots, p, ran, early, scheduled, Option.some.inj told⟩
  · cases told

end Lockstep.Timer
