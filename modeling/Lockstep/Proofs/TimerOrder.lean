import Lockstep.Timer.Queue

/-! A queue is filed when its order lists exactly the armed slots, each once and by fire
time, and its free list the dead ones. Every operation keeps a queue filed, and all but a
pop are edits: the clock and the count of armings move on, and whatever is added to the
order comes behind both. -/
namespace Lockstep.Timer

namespace Key

theorem beforeTrans {a b c : Key} (first : a.Before b) (rest : b.Before c) : a.Before c := by
  simp only [Before, Time.lt_def] at *
  rcases first with ab | ⟨ab, ab'⟩
  · rcases rest with bc | ⟨bc, -⟩
    · left; omega
    · left; rw [← bc]; exact ab
  · rcases rest with bc | ⟨bc, bc'⟩
    · left; rw [ab]; exact bc
    · right; exact ⟨ab.trans bc, by omega⟩

theorem beforeOfNotBefore {a b : Key} (distinct : a.seq ≠ b.seq) (h : ¬ a.Before b) :
    b.Before a := by
  simp only [Before, Time.lt_def, not_or, not_and] at *
  by_cases same : a.time = b.time
  · have := h.2 same
    exact .inr ⟨same.symm, by omega⟩
  · have : a.time.attos ≠ b.time.attos := fun e => same (Time.ext e)
    exact .inl (by omega)

theorem beforeIrrefl (a : Key) : ¬ a.Before a := by
  simp only [Before, Time.lt_def]
  omega

theorem beforeTime {a b : Key} (h : a.Before b) : a.time ≤ b.time := by
  rcases h with h | ⟨h, -⟩
  · exact Nat.le_of_lt h
  · rw [h]; exact Nat.le_refl _

theorem mem_insert {k x : Key} {rows : List Key} : x ∈ k.insert rows ↔ x = k ∨ x ∈ rows := by
  induction rows with
  | nil => simp [insert]
  | cons head rest ih =>
    unfold insert
    split
    · simp
    · simp only [List.mem_cons, ih]
      exact or_left_comm

theorem sortedInsert {k : Key} {rows : List Key} (sorted : rows.Pairwise Before)
    (fresh : ∀ x ∈ rows, x.seq ≠ k.seq) : (k.insert rows).Pairwise Before := by
  induction rows with
  | nil => simp [insert]
  | cons head rest ih =>
    obtain ⟨first, sorted⟩ := List.pairwise_cons.mp sorted
    unfold insert
    split
    · rename_i before
      refine List.pairwise_cons.mpr ⟨fun x mem => ?_, List.pairwise_cons.mpr ⟨first, sorted⟩⟩
      rcases List.mem_cons.mp mem with rfl | mem
      · exact before
      · exact beforeTrans before (first x mem)
    · rename_i after
      have later := ih sorted fun x mem => fresh x (List.mem_cons_of_mem _ mem)
      refine List.pairwise_cons.mpr ⟨fun x mem => ?_, later⟩
      rcases mem_insert.mp mem with rfl | mem
      · exact beforeOfNotBefore (fresh head (List.mem_cons_self ..)).symm after
      · exact first x mem

end Key

namespace Queue
variable {q : Queue} {id : Id} {slots : Array Slot} {index other : Nat} {f : Slot → Slot} {s : Slot}

def keyAt? (slots : Array Slot) (index : Nat) : Option Key :=
  (slots[index]?).bind fun s =>
    if s.live && s.enabled then some ⟨s.expire, s.seq, index⟩ else none

structure Filed (q : Queue) : Prop where
  sorted : q.order.Pairwise Key.Before
  listed : ∀ key, key ∈ q.order ↔ keyAt? q.slots key.slot = some key
  young : ∀ key ∈ q.order, key.seq < q.nextSeq
  single : ∀ a ∈ q.order, ∀ b ∈ q.order, a.seq = b.seq → a = b
  unused : ∀ index ∈ q.free, ∃ s, q.slots[index]? = some s ∧ s.live = false
  freedOnce : q.free.Nodup

theorem filedEmpty : Filed {} := by
  refine ⟨.nil, fun key => ?_, ?_, ?_, ?_, .nil⟩ <;> simp [keyAt?]

theorem slotInv (h : q.slot? id = some s) : q.slots[id.slot]? = some s ∧ s.live = true ∧
    s.generation = id.generation := by
  obtain ⟨found, valid⟩ := Option.filter_eq_some_iff.mp h
  obtain ⟨live, current⟩ := Bool.and_eq_true_iff.mp valid
  exact ⟨found, live, beq_iff_eq.mp current⟩

theorem keyInv {key : Key} (h : keyAt? slots index = some key) :
    ∃ s, slots[index]? = some s ∧ s.live = true ∧ s.enabled = true ∧
      key = ⟨s.expire, s.seq, index⟩ := by
  obtain ⟨s, found, h⟩ := Option.bind_eq_some_iff.mp h
  split at h
  · rename_i armed
    obtain ⟨live, enabled⟩ := Bool.and_eq_true_iff.mp armed
    exact ⟨s, found, live, enabled, (Option.some.inj h).symm⟩
  · cases h

theorem keyOf (found : slots[index]? = some s) (live : s.live = true)
    (enabled : s.enabled = true) : keyAt? slots index = some ⟨s.expire, s.seq, index⟩ := by
  simp [keyAt?, found, live, enabled]

theorem keyNone (idle : ∀ s, slots[index]? = some s → s.live = false ∨ s.enabled = false) :
    keyAt? slots index = none := by
  cases found : slots[index]? with
  | none => simp [keyAt?, found]
  | some s =>
    rcases idle s found with h | h <;> simp [keyAt?, found, h]

theorem slotElsewhere (h : other ≠ index) : (slots.modify index f)[other]? = slots[other]? := by
  rw [Array.getElem?_modify, if_neg h.symm]

theorem slotChanged (found : slots[index]? = some s) :
    (slots.modify index f)[index]? = some (f s) := by
  rw [Array.getElem?_modify, if_pos rfl, found, Option.map_some]

theorem keyElsewhere (h : other ≠ index) :
    keyAt? (slots.modify index f) other = keyAt? slots other := by
  simp only [keyAt?, slotElsewhere h]

theorem keyQuiet (quiet : ∀ s, (f s).live = false ∨ (f s).enabled = false) :
    keyAt? (slots.modify index f) index = none := by
  refine keyNone fun s found => ?_
  rw [Array.getElem?_modify, if_pos rfl] at found
  obtain ⟨old, -, rfl⟩ := Option.map_eq_some_iff.mp found
  exact quiet old

theorem filedSameKeys {p : Queue} (filed : q.Filed) (order : p.order = q.order)
    (keys : ∀ index, keyAt? p.slots index = keyAt? q.slots index) (seq : q.nextSeq ≤ p.nextSeq)
    (unused : ∀ index ∈ p.free, ∃ s, p.slots[index]? = some s ∧ s.live = false)
    (freedOnce : p.free.Nodup) : p.Filed := by
  refine ⟨?_, fun key => ?_, fun key mem => ?_, ?_, unused, freedOnce⟩
  · rw [order]; exact filed.sorted
  · rw [order, keys]; exact filed.listed key
  · rw [order] at mem
    have := filed.young key mem
    omega
  · rw [order]; exact filed.single

theorem unusedModify (filed : q.Filed) (found : q.slots[index]? = some s) (live : s.live = true) :
    ∀ other ∈ q.free, ∃ t, (q.slots.modify index f)[other]? = some t ∧ t.live = false := by
  intro other mem
  obtain ⟨t, row, dead⟩ := filed.unused other mem
  have different : other ≠ index := by
    rintro rfl
    rw [found] at row
    cases row
    rw [live] at dead
    cases dead
  exact ⟨t, (slotElsewhere different).trans row, dead⟩

theorem filedWith {p : Queue} (key : Key) (filed : q.Filed)
    (vacant : keyAt? q.slots key.slot = none) (found : q.slots[key.slot]? = some s)
    (live : s.live = true) (last : key.seq = q.nextSeq)
    (order : p.order = key.insert q.order) (here : keyAt? p.slots key.slot = some key)
    (elsewhere : ∀ other, other ≠ key.slot → p.slots[other]? = q.slots[other]?)
    (seq : p.nextSeq = q.nextSeq + 1) (free : p.free = q.free) : p.Filed := by
  have fresh : ∀ x ∈ q.order, x.seq ≠ key.seq := fun x mem => by
    have := filed.young x mem
    omega
  refine ⟨?_, fun x => ?_, fun x mem => ?_, fun a left b right same => ?_,
    fun other mem => ?_, ?_⟩
  · rw [order]
    exact Key.sortedInsert filed.sorted fresh
  · rw [order, Key.mem_insert, filed.listed x]
    by_cases same : x.slot = key.slot
    · rw [same, vacant, here]
      simp only [reduceCtorEq, or_false, Option.some.injEq]
      exact eq_comm
    · have there : keyAt? p.slots x.slot = keyAt? q.slots x.slot := by
        simp only [keyAt?, elsewhere x.slot same]
      rw [there]
      exact or_iff_right fun h => same (by rw [h])
  · rw [order] at mem
    rcases Key.mem_insert.mp mem with rfl | mem
    · omega
    · have := filed.young x mem
      omega
  · rw [order] at left right
    rcases Key.mem_insert.mp left with new | old
    · rcases Key.mem_insert.mp right with new' | old'
      · rw [new, new']
      · exact absurd (by rw [← new, same]) (fresh b old')
    · rcases Key.mem_insert.mp right with new' | old'
      · exact absurd (by rw [same, new']) (fresh a old)
      · exact filed.single a old b old' same
  · rw [free] at mem
    obtain ⟨t, row, dead⟩ := filed.unused other mem
    have different : other ≠ key.slot := by
      rintro rfl
      rw [found] at row
      cases row
      rw [live] at dead
      cases dead
    exact ⟨t, (elsewhere other different).trans row, dead⟩
  · rw [free]
    exact filed.freedOnce

theorem filedWithout {p : Queue} {key : Key} (filed : q.Filed) (armed : key ∈ q.order)
    (order : ∀ x, x ∈ p.order ↔ x ∈ q.order ∧ x ≠ key) (sorted : p.order.Pairwise Key.Before)
    (slots : p.slots = q.slots.modify key.slot f) (quiet : ∀ s, (f s).enabled = false)
    (seq : p.nextSeq = q.nextSeq) (free : p.free = q.free) : p.Filed := by
  obtain ⟨s, found, live, -, -⟩ := keyInv ((filed.listed key).mp armed)
  refine ⟨sorted, fun x => ?_, fun x mem => ?_, fun a left b right => ?_, ?_, ?_⟩
  · rw [order, slots]
    by_cases same : x.slot = key.slot
    · rw [same, keyQuiet fun s => .inr (quiet s)]
      refine iff_of_false (fun both => ?_) fun h => by cases h
      obtain ⟨mem, different⟩ := both
      have listed := (filed.listed x).mp mem
      rw [same, (filed.listed key).mp armed] at listed
      exact different (Option.some.inj listed).symm
    · rw [keyElsewhere same, filed.listed x]
      exact and_iff_left fun h => same (by rw [h])
  · rw [seq]
    exact filed.young x ((order x).mp mem).1
  · exact filed.single a ((order a).mp left).1 b ((order b).mp right).1
  · rw [free, slots]
    exact unusedModify filed found live
  · rw [free]
    exact filed.freedOnce

structure Edited (q p : Queue) : Prop where
  filed : q.Filed → p.Filed
  clock : q.now ≤ p.now
  count : q.nextSeq ≤ p.nextSeq
  added : ∀ key ∈ p.order, key ∈ q.order ∨ q.now ≤ key.time ∧ q.nextSeq ≤ key.seq

namespace Edited
variable {p r : Queue}

theorem refl (q : Queue) : Edited q q :=
  ⟨fun filed => filed, Nat.le_refl _, Nat.le_refl _, fun _ mem => .inl mem⟩

theorem trans (first : Edited q p) (rest : Edited p r) : Edited q r := by
  refine ⟨fun filed => rest.filed (first.filed filed), Nat.le_trans first.clock rest.clock,
    Nat.le_trans first.count rest.count, fun key mem => ?_⟩
  rcases rest.added key mem with old | ⟨late, young⟩
  · exact first.added key old
  · exact .inr ⟨Nat.le_trans first.clock late, Nat.le_trans first.count young⟩

theorem sub (filed : q.Filed → p.Filed) (clock : q.now ≤ p.now) (count : p.nextSeq = q.nextSeq)
    (kept : ∀ key ∈ p.order, key ∈ q.order) : Edited q p :=
  ⟨filed, clock, Nat.le_of_eq count.symm, fun key mem => .inl (kept key mem)⟩

end Edited

theorem occupyEdited (q : Queue) (owner : DeviceId) (param : Nat) (persistent : Bool) :
    Edited q (q.occupy owner param persistent).1 := by
  unfold occupy
  split
  · rename_i index rest free
    refine .sub (fun filed => ?_) (Nat.le_refl _) rfl fun _ mem => mem
    have member : index ∈ q.free := by rw [free]; exact List.mem_cons_self ..
    obtain ⟨s, found, dead⟩ := filed.unused index member
    have vacant : keyAt? q.slots index = none := keyNone fun t row => by
      rw [found] at row
      cases row
      exact .inl dead
    have once := filed.freedOnce
    rw [free, List.nodup_cons] at once
    refine filedSameKeys filed rfl (fun other => ?_) (Nat.le_refl _) (fun other mem => ?_) once.2
    · by_cases same : other = index
      · rw [same, vacant]
        exact keyQuiet fun _ => .inr rfl
      · exact keyElsewhere same
    · have different : other ≠ index := fun same => once.1 (same ▸ mem)
      obtain ⟨t, row, dead⟩ := filed.unused other (by rw [free]; exact List.mem_cons_of_mem _ mem)
      exact ⟨t, (slotElsewhere different).trans row, dead⟩
  · rename_i free
    refine .sub (fun filed => ?_) (Nat.le_refl _) rfl fun _ mem => mem
    refine filedSameKeys filed rfl (fun other => ?_) (Nat.le_refl _) (fun other mem => ?_)
      filed.freedOnce
    · by_cases same : other = q.slots.size
      · subst same
        simp [keyAt?]
      · simp [keyAt?, Array.getElem?_push, same]
    · exact absurd mem (by simp [free])

theorem occupyIdle {owner : DeviceId} {param : Nat} {persistent : Bool} {s : Slot}
    (found : (q.occupy owner param persistent).1.slots[(q.occupy owner param persistent).2.slot]? =
      some s) : s.enabled = false := by
  unfold occupy at found
  split at found
  · simp only [Array.getElem?_modify, if_true, Option.map_eq_some_iff] at found
    obtain ⟨old, -, rfl⟩ := found
    rfl
  · simp at found
    rw [← found]

theorem nowOccupy (owner : DeviceId) (param : Nat) (persistent : Bool) :
    (q.occupy owner param persistent).1.now = q.now := by
  unfold occupy; split <;> rfl

theorem armEdited (time period : Time)
    (idle : ∀ s, q.slots[id.slot]? = some s → s.enabled = false) :
    Edited q (q.arm id time period) := by
  have vacant : keyAt? q.slots id.slot = none := keyNone fun s found => .inr (idle s found)
  unfold arm
  dsimp only
  split
  · exact ⟨fun filed => filedSameKeys filed rfl (fun _ => rfl) (Nat.le_succ _) filed.unused
      filed.freedOnce, Nat.le_refl _, Nat.le_succ _, fun _ => .inl⟩
  · rename_i s valid
    obtain ⟨found, live, -⟩ := slotInv (q := q) valid
    have ahead : q.now ≤ max time q.now := by
      rw [Time.le_def, Time.attos_max]
      exact Nat.le_max_right ..
    refine ⟨fun filed => ?_, Nat.le_refl _, Nat.le_succ _, fun key mem => ?_⟩
    · exact filedWith ⟨max time q.now, q.nextSeq, id.slot⟩ filed vacant found live rfl
        rfl (keyOf (slotChanged found) live rfl) (fun _ => slotElsewhere) rfl rfl
    · rcases Key.mem_insert.mp mem with rfl | old
      · exact .inr ⟨ahead, Nat.le_refl _⟩
      · exact .inl old

theorem nowArm (time period : Time) : (q.arm id time period).now = q.now := by
  unfold arm; dsimp only; split <;> rfl

theorem disarmEdited : Edited q (q.disarm id).1 := by
  unfold disarm
  split
  · rename_i s valid
    obtain ⟨found, live, -⟩ := slotInv valid
    split
    · rename_i enabled
      have listed := keyOf found live enabled
      refine .sub (fun filed => ?_) (Nat.le_refl _) rfl fun _ mem => (List.mem_filter.mp mem).1
      have armed := (filed.listed ⟨s.expire, s.seq, id.slot⟩).mpr listed
      refine filedWithout (f := fun s => { s with enabled := false }) filed armed (fun x => ?_)
        (filed.sorted.filter _) rfl (fun _ => rfl) rfl rfl
      rw [List.mem_filter]
      refine and_congr_right fun mem => ?_
      simp only [Bool.not_eq_true', Bool.and_eq_false_iff, beq_eq_false_iff_ne]
      constructor
      · rintro (h | h) rfl <;> exact h rfl
      · intro different
        exact .inr fun close => different (filed.single x mem _ armed close)
    · exact .refl q
  · exact .refl q

theorem disarmSlot (valid : q.slot? id = some s) :
    (q.disarm id).1.slots[id.slot]? = some { s with enabled := false } := by
  obtain ⟨found, -⟩ := slotInv valid
  simp only [disarm, valid]
  split
  · exact slotChanged found
  · rename_i idle
    obtain ⟨_, _, _, _, _, _, enabled, _, _⟩ := s
    simp only [Bool.not_eq_true] at idle
    subst idle
    exact found

theorem nowDisarm : (q.disarm id).1.now = q.now := by
  unfold disarm
  split
  · split <;> rfl
  · rfl

theorem releaseEdited (found : q.slots[id.slot]? = some s)
    (live : s.live = true) (idle : s.enabled = false) : Edited q (q.release id) := by
  refine .sub (fun filed => ?_) (Nat.le_refl _) rfl fun _ mem => mem
  have vacant : keyAt? q.slots id.slot = none := keyNone fun t row => by
    rw [found] at row
    cases row
    exact .inr idle
  refine filedSameKeys filed rfl (fun other => ?_) (Nat.le_refl _) (fun other mem => ?_) ?_
  · by_cases same : other = id.slot
    · rw [same, vacant]
      exact keyQuiet fun _ => .inl rfl
    · exact keyElsewhere same
  · by_cases same : other = id.slot
    · rw [same]
      exact ⟨_, slotChanged found, rfl⟩
    · rcases List.mem_cons.mp mem with h | mem
      · exact absurd h same
      · exact unusedModify filed found live other mem
  · refine List.nodup_cons.mpr ⟨fun mem => ?_, filed.freedOnce⟩
    obtain ⟨t, row, dead⟩ := filed.unused id.slot mem
    rw [found] at row
    cases row
    rw [live] at dead
    cases dead

theorem scheduleAtEdited (owner : DeviceId) (time period : Time) (param : Nat) :
    Edited q (q.scheduleAt owner time period param).1 :=
  (occupyEdited q owner param false).trans (armEdited time period fun _ => occupyIdle)

theorem adjustAtEdited (time period : Time) : Edited q (q.adjustAt id time period).1 := by
  unfold adjustAt
  split
  · exact .refl q
  · rename_i s valid
    refine disarmEdited.trans (armEdited time period fun t found => ?_)
    rw [disarmSlot valid] at found
    cases found
    rfl

theorem cancelEdited : Edited q (q.cancel id).1 := by
  unfold cancel
  split
  · exact .refl q
  · rename_i s valid
    dsimp only
    split
    · exact disarmEdited
    · exact disarmEdited.trans (releaseEdited (disarmSlot valid) (slotInv valid).2.1 rfl)

theorem removeEdited : Edited q (q.remove id) := by
  unfold remove
  split
  · exact .refl q
  · rename_i s valid
    exact disarmEdited.trans (releaseEdited (disarmSlot valid) (slotInv valid).2.1 rfl)

theorem setEnabledEdited (on : Bool) : Edited q (q.setEnabled id on) := by
  unfold setEnabled
  split
  · exact .refl q
  · rename_i s valid
    split
    · rename_i starts
      simp only [Bool.and_eq_true, Bool.not_eq_true'] at starts
      refine armEdited _ _ fun t found => ?_
      rw [(slotInv valid).1] at found
      cases found
      exact starts.2
    · split
      · exact disarmEdited
      · exact .refl q

theorem setParamEdited (param : Nat) : Edited q (q.setParam id param) := by
  unfold setParam
  split
  · exact .refl q
  · rename_i s valid
    obtain ⟨found, live, -⟩ := slotInv valid
    refine .sub (fun filed => ?_) (Nat.le_refl _) rfl fun _ mem => mem
    refine filedSameKeys filed rfl (fun other => ?_) (Nat.le_refl _)
      (unusedModify filed found live) filed.freedOnce
    by_cases same : other = id.slot
    · subst same
      simp only [keyAt?, modifySlot, slotChanged found, found, Option.bind_some]
    · exact keyElsewhere same

theorem nowScheduleAt (owner : DeviceId) (time period : Time) (param : Nat) :
    (q.scheduleAt owner time period param).1.now = q.now := by
  unfold scheduleAt
  rw [nowArm, nowOccupy]

theorem nowAdjustAt (time period : Time) : (q.adjustAt id time period).1.now = q.now := by
  unfold adjustAt
  split
  · rfl
  · rw [nowArm, nowDisarm]

theorem nowCancel : (q.cancel id).1.now = q.now := by
  unfold cancel
  split
  · rfl
  · dsimp only
    split
    · exact nowDisarm
    · exact nowDisarm

theorem nowRemove : (q.remove id).now = q.now := by
  unfold remove
  split
  · rfl
  · exact nowDisarm

theorem nowSetNow (limit : Time) : (q.setNow limit).now = max q.now limit := by
  apply Time.ext
  rw [Time.attos_max]
  unfold setNow
  split
  · rename_i h
    rw [Time.lt_def] at h
    dsimp only
    omega
  · rename_i h
    rw [Time.lt_def] at h
    omega

theorem orderSetNow (limit : Time) : (q.setNow limit).order = q.order := by
  unfold setNow; split <;> rfl

theorem setNowEdited (limit : Time) : Edited q (q.setNow limit) := by
  refine .sub (fun filed => ?_) ?_ ?_ ?_
  · unfold setNow
    split
    · exact ⟨filed.sorted, filed.listed, filed.young, filed.single, filed.unused, filed.freedOnce⟩
    · exact filed
  · rw [nowSetNow, Time.le_def, Time.attos_max]
    exact Nat.le_max_left ..
  · unfold setNow; split <;> rfl
  · rw [orderSetNow]
    exact fun _ mem => mem

theorem nextLeast {time : Time} (filed : q.Filed) (next : q.nextFireTime? = some time) :
    ∀ key ∈ q.order, time ≤ key.time := by
  obtain ⟨head, first, rfl⟩ := Option.map_eq_some_iff.mp next
  intro key mem
  have sorted := filed.sorted
  cases order : q.order with
  | nil => rw [order] at mem; cases mem
  | cons least rest =>
    rw [order] at first mem sorted
    cases first
    rcases List.mem_cons.mp mem with rfl | mem
    · exact Nat.le_refl _
    · exact Key.beforeTime ((List.pairwise_cons.mp sorted).1 key mem)

theorem armedKey {time : Time} (filed : q.Filed) (armed : q.fireTime? id = some time) :
    ∃ key ∈ q.order, key.time = time := by
  obtain ⟨s, valid, h⟩ := Option.bind_eq_some_iff.mp armed
  obtain ⟨found, live, -⟩ := slotInv valid
  split at h
  · rename_i enabled
    cases h
    exact ⟨_, (filed.listed ⟨s.expire, s.seq, id.slot⟩).mpr (keyOf found live enabled), rfl⟩
  · cases h

def taken (q : Queue) (key : Key) (rest : List Key) : Queue :=
  { q with order := rest, now := max q.now key.time }.modifySlot key.slot fun s =>
    { s with enabled := false }

def again (q : Queue) (key : Key) (rest : List Key) (period : Time) : Queue :=
  { q with
    now := max q.now key.time
    nextSeq := q.nextSeq + 1
    order := (Key.mk (key.time + period) q.nextSeq key.slot).insert rest
    slots := q.slots.modify key.slot fun s =>
      { s with expire := key.time + period, seq := q.nextSeq } }

theorem takenFiled {key : Key} {rest : List Key} (filed : q.Filed) (order : q.order = key :: rest) :
    (q.taken key rest).Filed := by
  have sorted := filed.sorted
  rw [order] at sorted
  obtain ⟨first, sorted⟩ := List.pairwise_cons.mp sorted
  have armed : key ∈ q.order := by rw [order]; exact List.mem_cons_self ..
  refine filedWithout (f := fun s => { s with enabled := false }) filed armed (fun x => ?_) sorted
    rfl (fun _ => rfl) rfl rfl
  change x ∈ rest ↔ _
  rw [order, List.mem_cons]
  constructor
  · intro mem
    refine ⟨.inr mem, ?_⟩
    rintro rfl
    exact Key.beforeIrrefl x (first x mem)
  · rintro ⟨h | mem, different⟩
    · exact absurd h different
    · exact mem

structure Popped (q : Queue) (limit : Time) (fired : Fired) (p : Queue) (key : Key)
    (rest : List Key) (s : Slot) : Prop where
  order : q.order = key :: rest
  found : q.slots[key.slot]? = some s
  live : s.live = true
  enabled : s.enabled = true
  same : key = ⟨s.expire, s.seq, key.slot⟩
  due : key.time ≤ limit
  reported : fired = ⟨⟨key.slot, s.generation⟩, s.owner, s.param, key.time⟩
  result : p = if s.period.isZero then
      if s.persistent then q.taken key rest else (q.taken key rest).release fired.id
    else q.again key rest s.period

theorem popCases {limit : Time} {fired : Fired} {p : Queue} (filed : q.Filed)
    (h : q.popDue limit = some (fired, p)) : ∃ key rest s, Popped q limit fired p key rest s := by
  unfold popDue at h
  split at h
  · cases h
  · rename_i key rest order
    have armed : key ∈ q.order := by rw [order]; exact List.mem_cons_self ..
    obtain ⟨s, found, live, enabled, same⟩ := keyInv ((filed.listed key).mp armed)
    split at h
    · cases h
    · rename_i due
      rw [found, Option.map_some, Option.some.injEq] at h
      have due := Nat.le_of_not_lt due
      split at h
      · rename_i once
        obtain ⟨rfl, rfl⟩ := Prod.mk.inj h
        exact ⟨key, rest, s, order, found, live, enabled, same, due, rfl, by rw [if_pos once]; rfl⟩
      · rename_i recurring
        obtain ⟨rfl, rfl⟩ := Prod.mk.inj h
        exact ⟨key, rest, s, order, found, live, enabled, same, due, rfl,
          by rw [if_neg recurring]; rfl⟩

namespace Popped
variable {limit : Time} {fired : Fired} {p : Queue} {key : Key} {rest : List Key}

theorem first (popped : Popped q limit fired p key rest s) (filed : q.Filed) :
    ∀ other ∈ rest, key.Before other := by
  have sorted := filed.sorted
  rw [popped.order] at sorted
  exact (List.pairwise_cons.mp sorted).1

theorem now (popped : Popped q limit fired p key rest s) : p.now = max q.now key.time := by
  rw [popped.result]
  split
  · split <;> rfl
  · rfl

theorem filed (popped : Popped q limit fired p key rest s) (filed : q.Filed) : p.Filed := by
  have taken := takenFiled filed popped.order
  rw [popped.result, popped.reported]
  split
  · split
    · exact taken
    · exact (releaseEdited (s := { s with enabled := false }) (slotChanged popped.found)
        popped.live rfl).filed taken
  · refine filedWith ⟨key.time + s.period, q.nextSeq, key.slot⟩ taken
      (keyQuiet fun _ => .inr rfl) (slotChanged popped.found) popped.live rfl rfl
      (keyOf (slotChanged popped.found) popped.live popped.enabled) (fun other different => ?_)
      rfl rfl
    exact (slotElsewhere different).trans (slotElsewhere different).symm

theorem head (popped : Popped q limit fired p key rest s) : key ∈ q.order := by
  rw [popped.order]
  exact List.mem_cons_self ..

theorem count (popped : Popped q limit fired p key rest s) : q.nextSeq ≤ p.nextSeq := by
  rw [popped.result]
  split
  · split <;> exact Nat.le_refl _
  · exact Nat.le_succ _

theorem added (popped : Popped q limit fired p key rest s) :
    ∀ other ∈ p.order, other ∈ q.order ∨ q.nextSeq ≤ other.seq := by
  have old : ∀ other ∈ rest, other ∈ q.order := fun other mem => by
    rw [popped.order]
    exact List.mem_cons_of_mem _ mem
  intro other mem
  rw [popped.result] at mem
  split at mem
  · split at mem <;> exact .inl (old other mem)
  · rcases Key.mem_insert.mp mem with rfl | mem
    · exact .inr (Nat.le_refl _)
    · exact .inl (old other mem)

theorem later (popped : Popped q limit fired p key rest s) (filed : q.Filed) :
    ∀ other ∈ p.order, key.Before other := by
  have first := popped.first filed
  rw [popped.result]
  split
  · split <;> exact first
  · intro other mem
    rcases Key.mem_insert.mp mem with rfl | old
    · have young := filed.young key popped.head
      have bounded := key.time.bounded
      have after : key.time ≤ key.time + s.period := by
        rw [Time.le_def, Time.attos_add]
        omega
      rcases Nat.lt_or_eq_of_le after with earlier | equal
      · exact .inl earlier
      · exact .inr ⟨Time.ext equal, young⟩
    · exact first other old

end Popped

theorem popNone {limit : Time} (filed : q.Filed) (h : q.popDue limit = none) :
    ∀ key ∈ q.order, limit < key.time := by
  unfold popDue at h
  split at h
  · rename_i empty
    rw [empty]
    exact fun key mem => absurd mem List.not_mem_nil
  · rename_i head rest order
    have armed : head ∈ q.order := by rw [order]; exact List.mem_cons_self ..
    obtain ⟨s, found, -, -, -⟩ := keyInv ((filed.listed head).mp armed)
    split at h
    · rename_i late
      intro key mem
      have next : q.nextFireTime? = some head.time := by
        rw [nextFireTime?, order, List.head?_cons, Option.map_some]
      have least := nextLeast filed next key mem
      exact Nat.lt_of_lt_of_le late least
    · rw [found] at h
      cases h

end Queue

end Lockstep.Timer
