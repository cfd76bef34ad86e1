import Lockstep.Proofs.Clients

/-! The slots of a timer queue. In every state that calls can lead to, also those of a callback,
the order has a key for each armed slot and the free list the place of each dead one. So no
operation indexes past the slots, takes out a key that is not there or puts one in over another:
each does what it does without these checks. -/
namespace Lockstep.Timer.Queue

section
variable (q : Queue)

def change? (index : Nat) (f : Slot → Slot) : Option Queue :=
  if index < q.slots.size then some (q.modifySlot index f) else none

def enter? (key : Key) : Option Queue :=
  if q.order.any fun k => k.time == key.time && k.seq == key.seq then none
  else some { q with order := key.insert q.order }

def strike? (time : Time) (seq : Nat) : Option Queue :=
  if q.order.any fun k => k.time == time && k.seq == seq then
    some { q with order := q.order.filter fun k => !(k.time == time && k.seq == seq) }
  else none

def occupy? (owner : DeviceId) (param : Nat) (persistent : Bool) : Option (Queue × Id) :=
  match q.free with
  | index :: rest => do
      let s ← q.slots[index]?
      let q ← { q with free := rest }.change? index fun s =>
        { s with live := true, owner, param, expire := .zero, period := .zero,
                 enabled := false, persistent }
      some (q, ⟨index, s.generation⟩)
  | [] => some (q.occupy owner param persistent)

def arm? (id : Id) (time period : Time) : Option Queue :=
  let expire := max time q.now
  let seq := q.nextSeq
  let q := { q with nextSeq := seq + 1 }
  match q.slot? id with
  | none => some q
  | some _ => do
      let q ← q.change? id.slot fun s => { s with expire, period, enabled := true, seq }
      q.enter? ⟨expire, seq, id.slot⟩

def disarm? (id : Id) : Option (Queue × Bool) :=
  match q.slot? id with
  | some s =>
      if s.enabled then do
        let q ← q.change? id.slot fun s => { s with enabled := false }
        let q ← q.strike? s.expire s.seq
        some (q, true)
      else some (q, false)
  | none => some (q, false)

def release? (id : Id) : Option Queue := do
  let q ← q.change? id.slot fun s =>
    { s with live := false, enabled := false, generation := s.generation + 1 }
  some { q with free := id.slot :: q.free }

def scheduleAt? (owner : DeviceId) (time period : Time) (param : Nat) : Option (Queue × Id) := do
  let (q, id) ← q.occupy? owner param false
  let q ← q.arm? id time period
  some (q, id)

def adjustAt? (id : Id) (time period : Time) : Option (Queue × Bool) :=
  match q.slot? id with
  | none => some (q, false)
  | some _ => do
      let (q, _) ← q.disarm? id
      let q ← q.arm? id time period
      some (q, true)

def cancel? (id : Id) : Option (Queue × Bool) :=
  match q.slot? id with
  | none => some (q, false)
  | some s => do
      let (q, armed) ← q.disarm? id
      let q ← if s.persistent then some q else q.release? id
      some (q, armed)

def remove? (id : Id) : Option Queue :=
  match q.slot? id with
  | none => some q
  | some _ => do
      let (q, _) ← q.disarm? id
      q.release? id

def setEnabled? (id : Id) (on : Bool) : Option Queue :=
  match q.slot? id with
  | none => some q
  | some s =>
      if on && !s.enabled then q.arm? id s.expire s.period
      else if !on && s.enabled then (q.disarm? id).map (·.1)
      else some q

def popDue? (limit : Time) : Option (Option (Fired × Queue)) :=
  match q.order with
  | [] => some none
  | key :: _ =>
      if limit < key.time then some none else do
        let q ← q.strike? key.time key.seq
        let s ← q.slots[key.slot]?
        let fired : Fired := ⟨⟨key.slot, s.generation⟩, s.owner, s.param, key.time⟩
        let q := { q with now := max q.now key.time }
        let q ←
          if s.period.isZero then do
            let q ← q.change? key.slot fun s => { s with enabled := false }
            if s.persistent then some q else q.release? fired.id
          else do
            let expire := key.time + s.period
            let seq := q.nextSeq
            let q ← { q with nextSeq := seq + 1 }.change? key.slot fun s => { s with expire, seq }
            q.enter? ⟨expire, seq, key.slot⟩
        some (some (fired, q))

def entries? : Option (List Info) := do
  let armed ← q.order.mapM fun k => (q.slots[k.slot]?).map (info k.slot)
  some (armed ++
    (q.slots.toList.zipIdx.filter fun (s, _) => s.live && !s.enabled).map fun (s, i) => info i s)

def answer? : Request → Option (Queue × Answer)
  | .schedule owner delay period param =>
      (q.scheduleAt? owner (q.now + delay) period param).map (·.map id .made)
  | .scheduleAt owner time period param =>
      (q.scheduleAt? owner time period param).map (·.map id .made)
  | .allocate owner param => (q.occupy? owner param true).map (·.map id .made)
  | .adjust id delay period =>
      (q.adjustAt? id (q.now + delay) period).map (·.map (fun q => q) .flag)
  | .adjustAt id time period => (q.adjustAt? id time period).map (·.map (fun q => q) .flag)
  | .cancel id => (q.cancel? id).map (·.map (fun q => q) .flag)
  | .remove id => (q.remove? id).map (·, .done)
  | .setEnabled id on => (q.setEnabled? id on).map (·, .done)
  | .popDue limit => (q.popDue? limit).map fun
      | some (fired, q) => (q, .popped (some fired))
      | none => (q, .popped none)
  | .entries => q.entries?.map fun rows => (q, .rows rows)
  | request => some (q.answer request)

end

structure Spare (q : Queue) : Prop where
  rests : ∀ index s, q.slots[index]? = some s → s.live = false → index ∈ q.free ∧ s.enabled = false

/-- The states that calls lead to. An advance is pops, the calls of its callbacks between them,
and a move of the clock at its end. -/
inductive Reached : Queue → Prop where
  | new : Reached {}
  | call {q : Queue} (reached : Reached q) (request : Request) : Reached (q.answer request).1

section
variable {q p : Queue} {id : Id} {s : Slot} {index : Nat} {f : Slot → Slot} {key : Key}

theorem changeSome (found : q.slots[index]? = some s) :
    q.change? index f = some (q.modifySlot index f) :=
  if_pos (Array.getElem?_eq_some_iff.mp found).1

theorem enterSome (key : Key) (fresh : ∀ k ∈ q.order, k.seq < key.seq) :
    q.enter? key = some { q with order := key.insert q.order } := by
  refine if_neg fun taken => ?_
  obtain ⟨k, mem, same⟩ := List.any_eq_true.mp taken
  exact Nat.ne_of_lt (fresh k mem) (beq_iff_eq.mp (Bool.and_eq_true_iff.mp same).2)

theorem strikeSome (mem : key ∈ q.order) : q.strike? key.time key.seq =
    some { q with order := q.order.filter fun k => !(k.time == key.time && k.seq == key.seq) } :=
  if_pos (List.any_eq_true.mpr ⟨key, mem, by simp⟩)

theorem occupySome (filed : q.Filed) (owner : DeviceId) (param : Nat) (persistent : Bool) :
    q.occupy? owner param persistent = some (q.occupy owner param persistent) := by
  unfold occupy?
  split
  · rename_i index rest free
    obtain ⟨s, found, -⟩ := filed.unused index (by rw [free]; exact List.mem_cons_self ..)
    have change := changeSome (q := { q with free := rest }) (f := fun s : Slot =>
      { s with live := true, owner, param, expire := .zero, period := .zero,
               enabled := false, persistent }) found
    simp only [found, change, Option.bind_eq_bind, Option.bind_some, occupy, free,
      Option.elim_some]
    rfl
  · rfl

theorem armSome (filed : q.Filed) (time period : Time) :
    q.arm? id time period = some (q.arm id time period) := by
  cases valid : ({ q with nextSeq := q.nextSeq + 1 } : Queue).slot? id with
  | none => simp only [arm?, arm, valid]
  | some s =>
    have change := changeSome (f := fun s =>
      { s with expire := max time q.now, period, enabled := true, seq := q.nextSeq })
      (slotInv valid).1
    simp only [arm?, arm, valid, change, Option.bind_eq_bind, Option.bind_some]
    exact enterSome ⟨max time q.now, q.nextSeq, id.slot⟩ filed.young

theorem disarmSome (filed : q.Filed) : q.disarm? id = some (q.disarm id) := by
  cases valid : q.slot? id with
  | none => simp only [disarm?, disarm, valid]
  | some s =>
    obtain ⟨found, live, -⟩ := slotInv valid
    by_cases enabled : s.enabled = true
    · have armed := (filed.listed ⟨s.expire, s.seq, id.slot⟩).mpr (keyOf found live enabled)
      have strike := strikeSome (q := q.modifySlot id.slot fun s => { s with enabled := false })
        armed
      simp only [disarm?, disarm, valid, if_pos enabled, changeSome found, strike,
        Option.bind_eq_bind, Option.bind_some]
      rfl
    · simp only [disarm?, disarm, valid, if_neg enabled]

theorem releaseSome (found : q.slots[id.slot]? = some s) :
    q.release? id = some (q.release id) := by
  unfold release?
  rw [changeSome found]
  rfl

theorem scheduleAtSome (filed : q.Filed) (owner : DeviceId) (time period : Time) (param : Nat) :
    q.scheduleAt? owner time period param = some (q.scheduleAt owner time period param) := by
  have occupied := (occupyEdited q owner param false).filed filed
  simp only [scheduleAt?, occupySome filed, Option.bind_eq_bind, Option.bind_some,
    armSome occupied]
  rfl

theorem adjustAtSome (filed : q.Filed) (time period : Time) :
    q.adjustAt? id time period = some (q.adjustAt id time period) := by
  cases valid : q.slot? id with
  | none => simp only [adjustAt?, adjustAt, valid]
  | some s => simp only [adjustAt?, adjustAt, valid, disarmSome filed, Option.bind_eq_bind,
      Option.bind_some, armSome (disarmEdited.filed filed)]

theorem cancelSome (filed : q.Filed) : q.cancel? id = some (q.cancel id) := by
  cases valid : q.slot? id with
  | none => simp only [cancel?, cancel, valid]
  | some s =>
    have release := releaseSome (disarmSlot valid)
    simp only [cancel?, cancel, valid, disarmSome filed, Option.bind_eq_bind, Option.bind_some]
    by_cases persistent : s.persistent = true
    · simp only [if_pos persistent]
    · simp only [if_neg persistent, release, Option.bind_some]

theorem removeSome (filed : q.Filed) : q.remove? id = some (q.remove id) := by
  cases valid : q.slot? id with
  | none => simp only [remove?, remove, valid]
  | some s => simp only [remove?, remove, valid, disarmSome filed, Option.bind_eq_bind,
      Option.bind_some, releaseSome (disarmSlot valid)]

theorem setEnabledSome (filed : q.Filed) (on : Bool) :
    q.setEnabled? id on = some (q.setEnabled id on) := by
  cases valid : q.slot? id with
  | none => simp only [setEnabled?, setEnabled, valid]
  | some s =>
    simp only [setEnabled?, setEnabled, valid, armSome filed, disarmSome filed, Option.map_some]
    split
    · rfl
    · split <;> rfl

theorem strikeHead {rest : List Key} (filed : q.Filed) (order : q.order = key :: rest) :
    q.strike? key.time key.seq = some { q with order := rest } := by
  have sorted := filed.sorted
  rw [order] at sorted
  have others : rest.filter (fun k => !(k.time == key.time && k.seq == key.seq)) = rest := by
    refine List.filter_eq_self.mpr fun k mem => ?_
    have after := (List.pairwise_cons.mp sorted).1 k mem
    simp only [Bool.not_eq_true', Bool.and_eq_false_iff, beq_eq_false_iff_ne]
    rcases after with later | ⟨-, later⟩
    · exact .inl (Ne.symm fun same => Nat.lt_irrefl _ (Time.lt_def.mp (same ▸ later)))
    · exact .inr (Nat.ne_of_gt later)
  rw [strikeSome (by rw [order]; exact List.mem_cons_self ..)]
  simp only [order, List.filter_cons, beq_self_eq_true, Bool.and_self, Bool.not_true,
    Bool.false_eq_true, if_false, others]

theorem popDueSome (filed : q.Filed) (limit : Time) : q.popDue? limit = some (q.popDue limit) := by
  cases order : q.order with
  | nil => simp only [popDue?, popDue, order]
  | cons key rest =>
    by_cases late : limit < key.time
    · simp only [popDue?, popDue, order, if_pos late]
    · have armed : key ∈ q.order := by rw [order]; exact List.mem_cons_self ..
      obtain ⟨s, found, live, -, -⟩ := keyInv ((filed.listed key).mp armed)
      -- What is left was armed before, so a key with the next number is new to it.
      have young : ∀ k ∈ rest, k.seq < q.nextSeq := fun k mem =>
        filed.young k (by rw [order]; exact List.mem_cons_of_mem _ mem)
      simp only [popDue?, popDue, order, if_neg late, strikeHead filed order,
        Option.bind_eq_bind, Option.bind_some, found, Option.map_some]
      by_cases once : s.period.isZero = true
      · simp only [if_pos once]
        have change := changeSome (q := { q with order := rest, now := max q.now key.time })
          (f := fun s => { s with enabled := false }) found
        have release : (q.taken key rest).release? ⟨key.slot, s.generation⟩ =
            some ((q.taken key rest).release ⟨key.slot, s.generation⟩) :=
          releaseSome (slotChanged found)
        simp only [taken] at release
        simp only [change, Option.bind_some]
        by_cases persistent : s.persistent = true
        · simp only [if_pos persistent]
        · simp only [if_neg persistent, release, Option.bind_some]
      · simp only [if_neg once]
        have change := changeSome (q := { q with
            order := rest, now := max q.now key.time, nextSeq := q.nextSeq + 1 })
          (f := fun t => { t with expire := key.time + s.period, seq := q.nextSeq }) found
        simp only [change, Option.bind_some]
        rw [enterSome ⟨key.time + s.period, q.nextSeq, key.slot⟩ young]
        rfl

theorem entriesSome (filed : q.Filed) : q.entries? = some q.entries := by
  have listed : ∀ rows : List Key, (∀ k ∈ rows, k ∈ q.order) →
      rows.mapM (fun k => (q.slots[k.slot]?).map (info k.slot)) =
        some (rows.filterMap fun k => (q.slots[k.slot]?).map (info k.slot)) := by
    intro rows
    induction rows with
    | nil => intro _; rfl
    | cons k rest ih =>
      intro within
      obtain ⟨s, found, -⟩ := keyInv ((filed.listed k).mp (within k (List.mem_cons_self ..)))
      have tail := ih fun x mem => within x (List.mem_cons_of_mem _ mem)
      simp [List.mapM_cons, tail, found]
  simp only [entries?, entries, listed q.order fun _ mem => mem, Option.bind_eq_bind,
    Option.bind_some]

theorem answerSome (filed : q.Filed) (request : Request) :
    q.answer? request = some (q.answer request) := by
  cases request with
  | schedule | scheduleAt =>
    simp only [answer?, answer, scheduleAtSome filed, Option.map_some, schedule]
  | allocate => simp only [answer?, answer, occupySome filed, Option.map_some, allocate]
  | adjust | adjustAt => simp only [answer?, answer, adjustAtSome filed, Option.map_some, adjust]
  | cancel => simp only [answer?, answer, cancelSome filed, Option.map_some]
  | remove => simp only [answer?, answer, removeSome filed, Option.map_some]
  | setEnabled => simp only [answer?, answer, setEnabledSome filed, Option.map_some]
  | popDue limit =>
    cases popped : q.popDue limit <;>
      simp only [answer?, answer, popDueSome filed, popped, Option.map_some]
  | entries => simp only [answer?, answer, entriesSome filed, Option.map_some]
  | _ => rfl

theorem liveChanged (found : q.slots[index]? = some s) (live : (f s).live = true) :
    ∀ t, (q.slots.modify index f)[index]? = some t → t.live = true := by
  intro t row
  rw [slotChanged found] at row
  cases row
  exact live

theorem spareLive (spare : q.Spare)
    (elsewhere : ∀ other, other ≠ index → p.slots[other]? = q.slots[other]?)
    (lives : ∀ s, p.slots[index]? = some s → s.live = true)
    (free : ∀ other ∈ q.free, other ≠ index → other ∈ p.free) : p.Spare := by
  refine ⟨fun other s found dead => ?_⟩
  by_cases same : other = index
  · subst same
    rw [lives s found] at dead
    cases dead
  · rw [elsewhere other same] at found
    obtain ⟨mem, idle⟩ := spare.rests other s found dead
    exact ⟨free other mem same, idle⟩

theorem spareOccupy (spare : q.Spare) (owner : DeviceId) (param : Nat) (persistent : Bool) :
    (q.occupy owner param persistent).1.Spare := by
  unfold occupy
  split
  · rename_i index rest free
    refine spareLive spare (fun _ => slotElsewhere) (fun s found => ?_) fun other mem new => ?_
    · rw [Array.getElem?_modify, if_pos rfl] at found
      obtain ⟨old, -, rfl⟩ := Option.map_eq_some_iff.mp found
      rfl
    · rw [free] at mem
      exact (List.mem_cons.mp mem).resolve_left new
  · refine ⟨fun index s found dead => ?_⟩
    simp only [Array.getElem?_push] at found
    split at found
    · cases found
      cases dead
    · exact spare.rests index s found dead

theorem spareArm (spare : q.Spare) (time period : Time) : (q.arm id time period).Spare := by
  unfold arm
  dsimp only
  split
  · exact ⟨spare.rests⟩
  · rename_i s valid
    obtain ⟨found, live, -⟩ := slotInv (q := q) valid
    exact spareLive spare (fun _ => slotElsewhere) (liveChanged found live) fun _ mem _ => mem

theorem spareDisarm (spare : q.Spare) : (q.disarm id).1.Spare := by
  unfold disarm
  split
  · rename_i s valid
    obtain ⟨found, live, -⟩ := slotInv valid
    split
    · exact spareLive spare (fun _ => slotElsewhere) (liveChanged found live) fun _ mem _ => mem
    · exact spare
  · exact spare

theorem spareRelease (spare : q.Spare) : (q.release id).Spare := by
  refine ⟨fun index s found dead => ?_⟩
  by_cases same : index = id.slot
  · subst same
    simp only [release, Array.getElem?_modify, if_true] at found
    obtain ⟨old, -, rfl⟩ := Option.map_eq_some_iff.mp found
    exact ⟨List.mem_cons_self .., rfl⟩
  · simp only [release, slotElsewhere same] at found
    obtain ⟨mem, idle⟩ := spare.rests index s found dead
    exact ⟨List.mem_cons_of_mem _ mem, idle⟩

theorem spareAdjustAt (spare : q.Spare) (time period : Time) :
    (q.adjustAt id time period).1.Spare := by
  unfold adjustAt
  split
  · exact spare
  · exact spareArm (spareDisarm spare) ..

theorem spareCancel (spare : q.Spare) : (q.cancel id).1.Spare := by
  unfold cancel
  split
  · exact spare
  · dsimp only
    split
    · exact spareDisarm spare
    · exact spareRelease (spareDisarm spare)

theorem spareRemove (spare : q.Spare) : (q.remove id).Spare := by
  unfold remove
  split
  · exact spare
  · exact spareRelease (spareDisarm spare)

theorem spareSetEnabled (spare : q.Spare) (on : Bool) : (q.setEnabled id on).Spare := by
  unfold setEnabled
  split
  · exact spare
  · split
    · exact spareArm spare ..
    · split
      · exact spareDisarm spare
      · exact spare

theorem spareSetParam (spare : q.Spare) (param : Nat) : (q.setParam id param).Spare := by
  unfold setParam
  split
  · exact spare
  · rename_i s valid
    obtain ⟨found, live, -⟩ := slotInv valid
    exact spareLive spare (fun _ => slotElsewhere) (liveChanged found live) fun _ mem _ => mem

theorem spareSetNow (spare : q.Spare) (time : Time) : (q.setNow time).Spare := by
  unfold setNow
  split
  · exact ⟨spare.rests⟩
  · exact spare

theorem Popped.spare {limit : Time} {fired : Fired} {rest : List Key}
    (popped : Popped q limit fired p key rest s) (spare : q.Spare) : p.Spare := by
  have taken : (q.taken key rest).Spare := spareLive spare (fun _ => slotElsewhere)
    (liveChanged popped.found popped.live) fun _ mem _ => mem
  rw [popped.result]
  split
  · split
    · exact taken
    · exact spareRelease taken
  · exact spareLive spare (fun _ => slotElsewhere) (liveChanged popped.found popped.live)
      fun _ mem _ => mem

theorem spareAnswer (filed : q.Filed) (spare : q.Spare) (request : Request) :
    (q.answer request).1.Spare := by
  cases request with
  | schedule | scheduleAt => exact spareArm (spareOccupy spare ..) ..
  | allocate => exact spareOccupy spare ..
  | adjust | adjustAt => exact spareAdjustAt spare ..
  | cancel => exact spareCancel spare
  | remove => exact spareRemove spare
  | setEnabled => exact spareSetEnabled spare _
  | setParam => exact spareSetParam spare _
  | setNow => exact spareSetNow spare _
  | popDue limit =>
    simp only [answer]
    split
    · rename_i fired p popped
      obtain ⟨key, rest, s, popped⟩ := popCases filed popped
      exact popped.spare spare
    · exact spare
  | _ => exact spare

theorem Reached.kept (reached : q.Reached) : q.Filed ∧ q.Spare := by
  induction reached with
  | new => exact ⟨filedEmpty, ⟨fun index s found _ => by simp at found⟩⟩
  | @call q reached request ih =>
    obtain ⟨filed, spare⟩ := ih
    have took : Note.Took q ⟨.call request (q.answer request).2, (q.answer request).1⟩ := rfl
    exact ⟨tookFiled filed took, spareAnswer filed spare request⟩

theorem Reached.took {note : Note} (reached : q.Reached) (took : note.Took q) :
    note.after.Reached := by
  obtain ⟨deed, p⟩ := note
  cases deed with
  | call request answer =>
    have after := reached.call request
    rw [show q.answer request = (p, answer) from took] at after
    exact after
  | advance limit =>
    obtain ⟨-, rfl⟩ := took
    exact reached.call (.setNow limit)

theorem Reached.chain {log : List Note} (reached : q.Reached) (chain : Chain q log p) :
    p.Reached ∧ ∀ note ∈ log, note.after.Reached := by
  induction chain with
  | nil => exact ⟨reached, fun _ mem => absurd mem List.not_mem_nil⟩
  | cons took _ ih =>
    have after := reached.took took
    obtain ⟨last, each⟩ := ih after
    exact ⟨last, List.forall_mem_cons.mpr ⟨after, each⟩⟩

theorem Reached.client {client : Client} {fuel : Nat} {log : List Note}
    (ran : client.run fuel ({}, []) = some (q, log)) :
    q.Reached ∧ ∀ note ∈ log, note.after.Reached :=
  Reached.new.chain (Client.chain ran)

theorem listedSlot (filed : q.Filed) {time : Time} {seq : Nat} : ⟨time, seq, index⟩ ∈ q.order ↔
    ∃ s, q.slots[index]? = some s ∧ s.live = true ∧ s.enabled = true ∧ s.expire = time ∧
      s.seq = seq := by
  rw [filed.listed]
  constructor
  · intro listed
    obtain ⟨s, found, live, enabled, same⟩ := keyInv listed
    cases same
    exact ⟨s, found, live, enabled, rfl, rfl⟩
  · rintro ⟨s, found, live, enabled, rfl, rfl⟩
    exact keyOf found live enabled

theorem seqNodup (filed : q.Filed) : (q.order.map Key.seq).Nodup := by
  refine List.pairwise_map.mpr (filed.sorted.imp_of_mem fun {a b} left right before same => ?_)
  rw [filed.single a left b right same] at before
  exact Key.beforeIrrefl b before

end

/-- A client's calls lead to reached states, those of its callbacks included. In each the order
and the free list are what the slots say, and no call meets a failing check. -/
theorem slotsKept :
    (∀ (client : Client) (fuel : Nat) (q : Queue) (log : List Note),
      client.run fuel ({}, []) = some (q, log) → q.Reached ∧ ∀ note ∈ log, note.after.Reached) ∧
    ∀ q : Queue, q.Reached →
      (∀ time seq index, ⟨time, seq, index⟩ ∈ q.order ↔ ∃ s, q.slots[index]? = some s ∧
        s.live = true ∧ s.enabled = true ∧ s.expire = time ∧ s.seq = seq) ∧
      q.order.Pairwise Key.Before ∧
      (∀ key ∈ q.order, key.seq < q.nextSeq) ∧ (q.order.map Key.seq).Nodup ∧
      (∀ index, index ∈ q.free ↔ ∃ s, q.slots[index]? = some s ∧ s.live = false) ∧
      q.free.Nodup ∧
      (∀ (index : Nat) s, q.slots[index]? = some s → s.live = false → s.enabled = false) ∧
      ∀ request, q.answer? request = some (q.answer request) := by
  refine ⟨fun _ _ _ _ ran => Reached.client ran, fun q reached => ?_⟩
  obtain ⟨filed, spare⟩ := reached.kept
  refine ⟨fun _ _ _ => listedSlot filed, filed.sorted, filed.young, seqNodup filed,
    fun index => ⟨filed.unused index, ?_⟩, filed.freedOnce,
    fun index s found dead => (spare.rests index s found dead).2, answerSome filed⟩
  rintro ⟨s, found, dead⟩
  exact (spare.rests index s found dead).1

theorem rotaSlots : ∃ q log, rota.run 9 ({}, []) = some (q, log) ∧ log.length = 20 ∧
    ∀ note ∈ log, note.after.free.Nodup ∧
      ∀ request, note.after.answer? request = some (note.after.answer request) := by
  obtain ⟨q, log, ran, long⟩ := rotaRuns
  refine ⟨q, log, ran, long, fun note mem => ?_⟩
  have reached := (slotsKept.1 rota 9 q log ran).2 note mem
  obtain ⟨-, -, -, -, -, freedOnce, -, checked⟩ := slotsKept.2 note.after reached
  exact ⟨freedOnce, checked⟩

end Lockstep.Timer.Queue
