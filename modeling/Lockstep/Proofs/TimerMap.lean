import Mathlib.Data.List.Nodup
import Mathlib.Data.List.Pairwise
import Lockstep.Proofs.Agenda

/-! A timer queue keeps the agenda of its clients: the slots that live are the entries, and the
order is that of their fire times and armings. A handle is new as long as no slot has been
freed so often that its generation comes round again. Slots and armings are counted without
a bound here. -/
namespace Lockstep.Timer

def Slot.entry (s : Slot) : Entry :=
  ⟨s.owner, s.param, s.expire, s.period, if s.enabled then some s.seq else none, s.persistent⟩

def Queue.find? (q : Queue) (id : Id) : Option Entry := (q.slot? id).map Slot.entry

def Queue.agenda (q : Queue) (issued : List Id) : Agenda := ⟨q.now, q.nextSeq, issued, q.find?⟩

def Answer.made? : Answer → Option Id
  | .made id => some id
  | _ => none

def Note.issued? : Note → Option Id
  | ⟨.call _ answer, _⟩ => answer.made?
  | _ => none

def issued (log : List Note) : List Id := log.filterMap Note.issued?

namespace Queue
variable {q p : Queue} {id : Id} {s : Slot} {e : Entry} {f : Slot → Slot} {h : List Id}

theorem slotOf (found : q.slots[id.slot]? = some s) (live : s.live = true)
    (current : s.generation = id.generation) : q.slot? id = some s := by
  simp [slot?, found, live, current]

theorem slotDead (found : q.slots[id.slot]? = some s)
    (stale : s.live = false ∨ s.generation ≠ id.generation) : q.slot? id = none := by
  rcases stale with dead | other
  · simp [slot?, found, dead]
  · simp [slot?, found, other]

theorem entryInv (known : q.find? id = some e) : ∃ s, q.slot? id = some s ∧ s.entry = e :=
  Option.map_eq_some_iff.mp known

theorem armedEntry (s : Slot) : s.entry.armed.isSome = s.enabled := by
  cases enabled : s.enabled <;> simp [Slot.entry, enabled]

theorem entryUpdated (found : q.slots[id.slot]? = some s)
    (slots : p.slots = q.slots.modify id.slot f)
    (alone : ∀ other : Id, other.slot = id.slot → other ≠ id → q.find? other = none)
    (current : (f s).live = true → (f s).generation = id.generation) :
    p.find? = Function.update q.find? id (if (f s).live then some (f s).entry else none) := by
  funext other
  have there : p.slots[id.slot]? = some (f s) := by rw [slots]; exact slotChanged found
  by_cases same : other = id
  · subst same
    rw [Function.update_self]
    split
    · rename_i live
      rw [find?, slotOf there live (current live), Option.map_some]
    · rename_i dead
      rw [find?, slotDead there (.inl (by simpa using dead)), Option.map_none]
  · rw [Function.update_of_ne same]
    by_cases slot : other.slot = id.slot
    · rw [alone other slot same, find?]
      by_cases live : (f s).live = true
      · have stale : (f s).generation ≠ other.generation := by
          rw [current live]
          intro equal
          obtain ⟨_, _⟩ := other
          obtain ⟨_, _⟩ := id
          simp_all
        rw [slotDead (by rw [slot]; exact there) (.inr stale), Option.map_none]
      · rw [slotDead (by rw [slot]; exact there) (.inl (by simpa using live)), Option.map_none]
    · simp only [find?, slot?, slots, slotElsewhere slot]

theorem aloneLive (valid : q.slot? id = some s) (other : Id) (slot : other.slot = id.slot)
    (different : other ≠ id) : q.find? other = none := by
  obtain ⟨found, -, current⟩ := slotInv valid
  have stale : s.generation ≠ other.generation := by
    intro equal
    obtain ⟨_, _⟩ := other
    obtain ⟨_, _⟩ := id
    simp_all
  rw [find?, slotDead (by rw [slot]; exact found) (.inr stale), Option.map_none]

theorem aloneDead (found : q.slots[id.slot]? = some s) (dead : s.live = false) (other : Id)
    (slot : other.slot = id.slot) : q.find? other = none := by
  rw [find?, slotDead (by rw [slot]; exact found) (.inl dead), Option.map_none]

theorem agendaPut {x : Option Entry} (now : p.now = q.now) (count : p.nextSeq = q.nextSeq)
    (entries : p.find? = Function.update q.find? id x) :
    p.agenda h = (q.agenda h).put id x := by
  simp only [agenda, Agenda.put, now, count, entries]

theorem occupyAgenda (filed : q.Filed) (owner : DeviceId) (param : Nat) (persistent : Bool) :
    (q.occupy owner param persistent).1.agenda (h ++ [(q.occupy owner param persistent).2]) =
      (q.agenda h).issue (q.occupy owner param persistent).2 (.blank owner param persistent) := by
  unfold occupy
  split
  · rename_i index rest free
    obtain ⟨s, found, dead⟩ := filed.unused index (by rw [free]; exact List.mem_cons_self ..)
    let id : Id := ⟨index, s.generation⟩
    have there : q.slots[id.slot]? = some s := found
    have entries := entryUpdated (p := (q.occupy owner param persistent).1) (f := fun s => { s with
        live := true, owner, param, expire := .zero, period := .zero, enabled := false, persistent })
      there (by simp only [occupy, free, id]) (fun other slot _ => aloneDead there dead other slot)
      fun _ => rfl
    simp only [occupy, free] at entries
    simp only [agenda, Agenda.issue, Agenda.put, found, Option.elim_some, entries]
    rfl
  · rename_i free
    have entries : (q.occupy owner param persistent).1.find? =
        Function.update q.find? ⟨q.slots.size, 0⟩ (some (.blank owner param persistent)) := by
      funext other
      by_cases same : other = ⟨q.slots.size, 0⟩
      · subst same
        simp [occupy, free, find?, slot?, Slot.entry, Entry.blank]
      · rw [Function.update_of_ne same]
        by_cases slot : other.slot = q.slots.size
        · have stale : (0 : UInt32) ≠ other.generation := by
            intro equal
            obtain ⟨_, _⟩ := other
            simp_all
          simp [occupy, free, find?, slot?, slot, stale]
        · simp [occupy, free, find?, slot?, Array.getElem?_push, slot]
    simp only [occupy, free] at entries
    simp only [agenda, Agenda.issue, Agenda.put, ← entries, free]

theorem armAgenda (known : q.find? id = some e) (time period : Time) :
    (q.arm id time period).agenda h = (q.agenda h).arm id e time period := by
  obtain ⟨s, valid, rfl⟩ := entryInv known
  obtain ⟨found, live, current⟩ := slotInv valid
  have valid' : Queue.slot? { q with nextSeq := q.nextSeq + 1 } id = some s := valid
  have entries := entryUpdated (p := q.arm id time period) (f := fun s =>
      { s with expire := max time q.now, period, enabled := true, seq := q.nextSeq })
    found (by simp only [arm, valid']) (aloneLive valid) fun _ => current
  simp only [arm, valid', live, if_true] at entries
  simp only [agenda, arm, valid', entries]
  rfl

theorem disarmAgenda (known : q.find? id = some e) :
    (q.disarm id).1.agenda h = (q.agenda h).disarm id e ∧
      (q.disarm id).2 = e.armed.isSome := by
  obtain ⟨s, valid, rfl⟩ := entryInv known
  obtain ⟨found, live, current⟩ := slotInv valid
  rw [armedEntry]
  by_cases enabled : s.enabled = true
  · have entries := entryUpdated (p := (q.disarm id).1) (f := fun s => { s with enabled := false })
      found (by simp only [disarm, valid, if_pos enabled]) (aloneLive valid) fun _ => current
    simp only [disarm, valid, if_pos enabled, live, if_true] at entries ⊢
    exact ⟨agendaPut rfl rfl entries, enabled.symm⟩
  · have same : Function.update q.find? id (some { s.entry with armed := none }) = q.find? := by
      rw [Function.update_eq_self_iff, known]
      simp [Slot.entry, enabled]
    simp only [disarm, valid, if_neg enabled]
    exact ⟨agendaPut rfl rfl same.symm, by simpa using enabled⟩

theorem releaseAgenda (known : q.find? id = some e) :
    (q.release id).agenda h = (q.agenda h).put id none := by
  obtain ⟨s, valid, rfl⟩ := entryInv known
  have entries := entryUpdated (p := q.release id) (f := fun s =>
      { s with live := false, enabled := false, generation := s.generation + 1 })
    (slotInv valid).1 rfl (aloneLive valid) nofun
  simp only [Bool.false_eq_true, if_false] at entries
  exact agendaPut rfl rfl entries

def handle? (slots : Array Slot) (key : Key) : Option Id :=
  (slots[key.slot]?).map fun s => ⟨key.slot, s.generation⟩

def waiting (q : Queue) : List Id := q.order.filterMap (handle? q.slots)

def resting (q : Queue) : List Id :=
  (q.slots.toList.zipIdx.filter fun (s, _) => s.live && !s.enabled).map fun (s, i) =>
    ⟨i, s.generation⟩

theorem handleInv (filed : q.Filed) {key : Key} (mem : key ∈ q.order) :
    ∃ s : Slot, handle? q.slots key = some ⟨key.slot, s.generation⟩ ∧
      (q.agenda h).find? ⟨key.slot, s.generation⟩ = some s.entry ∧
      s.entry.armed = some key.seq ∧ s.entry.time = key.time := by
  obtain ⟨s, found, live, enabled, same⟩ := keyInv ((filed.listed key).mp mem)
  have valid : q.slot? ⟨key.slot, s.generation⟩ = some s := slotOf found live rfl
  rw [same]
  refine ⟨s, by rw [handle?, found, Option.map_some], by simp [agenda, find?, valid], ?_, rfl⟩
  simp [Slot.entry, enabled]

theorem armedListed (filed : q.Filed) (armed : (q.agenda h).Armed id e) :
    ∃ key ∈ q.order, handle? q.slots key = some id ∧ e.armed = some key.seq ∧ e.time = key.time := by
  obtain ⟨s, valid, rfl⟩ := entryInv armed.1
  obtain ⟨found, live, current⟩ := slotInv valid
  have enabled : s.enabled = true := by rw [← armedEntry]; exact armed.2
  refine ⟨⟨s.expire, s.seq, id.slot⟩, (filed.listed _).mpr (keyOf found live enabled), ?_, ?_, rfl⟩
  · rw [handle?, found, Option.map_some, current]
  · simp [Slot.entry, enabled]

theorem waitingMem (filed : q.Filed) :
    id ∈ q.waiting ↔ ∃ e, (q.agenda h).Armed id e := by
  rw [waiting, List.mem_filterMap]
  constructor
  · rintro ⟨key, mem, own⟩
    obtain ⟨s, handle, known, armed, -⟩ := handleInv (h := h) filed mem
    rw [own] at handle
    cases handle
    exact ⟨s.entry, known, by rw [armed]; rfl⟩
  · rintro ⟨e, armed⟩
    obtain ⟨key, mem, own, -⟩ := armedListed filed armed
    exact ⟨key, mem, own⟩

theorem waitingSooner (filed : q.Filed) : q.waiting.Pairwise (q.agenda h).Sooner := by
  refine List.pairwise_filterMap.mpr (filed.sorted.imp_of_mem ?_)
  intro a b left right before x own y other
  obtain ⟨s, handle, known, armed, time⟩ := handleInv (h := h) filed left
  obtain ⟨t, handle', known', armed', time'⟩ := handleInv (h := h) filed right
  cases own.symm.trans handle
  cases other.symm.trans handle'
  exact ⟨s.entry, a.seq, t.entry, b.seq, known, armed, known', armed', by rw [time, time']; exact before⟩

theorem restingMem : id ∈ q.resting ↔ ∃ e, (q.agenda h).find? id = some e ∧ e.armed = none := by
  simp only [resting, List.mem_map, List.mem_filter, Bool.and_eq_true, Bool.not_eq_true',
    List.mem_zipIdx_iff_getElem?, Array.getElem?_toList, Prod.exists]
  constructor
  · rintro ⟨s, index, ⟨found, live, idle⟩, rfl⟩
    have valid : q.slot? ⟨index, s.generation⟩ = some s := slotOf found live rfl
    exact ⟨s.entry, by simp [agenda, find?, valid], by simp [Slot.entry, idle]⟩
  · rintro ⟨e, known, idle⟩
    obtain ⟨s, valid, rfl⟩ := entryInv known
    obtain ⟨found, live, current⟩ := slotInv valid
    refine ⟨s, id.slot, ⟨found, live, ?_⟩, by rw [current]⟩
    rw [← armedEntry, idle, Option.isSome_none]

theorem restingSlots : q.resting.Pairwise fun x y => x.slot < y.slot := by
  have indices : (q.slots.toList.zipIdx.map Prod.snd).Pairwise (· < ·) := by
    rw [List.zipIdx_map_snd]
    exact List.pairwise_lt_range'
  exact List.pairwise_map.mpr ((List.pairwise_map.mp indices).filter _)

theorem agendaLists (filed : q.Filed) : (q.agenda h).Lists q.waiting q.resting := by
  have sooner := waitingSooner (h := h) filed
  refine ⟨List.nodup_append.mpr ⟨sooner.imp ?_, restingSlots.imp ?_, ?_⟩,
    fun _ => waitingMem filed, fun _ => restingMem, sooner, restingSlots⟩
  · rintro x _ ⟨e, m, f, n, known, armed, known', armed', before⟩ rfl
    cases known.symm.trans known'
    cases armed.symm.trans armed'
    simp [Time.lt_def] at before
  · rintro x _ before rfl
    exact Nat.lt_irrefl _ before
  · rintro id waits _ rests rfl
    obtain ⟨e, known, armed⟩ := (waitingMem (h := h) filed).mp waits
    obtain ⟨f, known', idle⟩ := (restingMem (h := h)).mp rests
    cases known.symm.trans known'
    simp [idle] at armed

theorem waitingLength (filed : q.Filed) : q.waiting.length = q.order.length := by
  have all : ∀ rows : List Key, (∀ key ∈ rows, key ∈ q.order) →
      (rows.filterMap (handle? q.slots)).length = rows.length := by
    intro rows
    induction rows with
    | nil => simp
    | cons key rows ih =>
      intro listed
      obtain ⟨s, handle, -⟩ := handleInv (h := []) filed (listed key (List.mem_cons_self ..))
      simp [handle, ih fun other mem => listed other (List.mem_cons_of_mem _ mem)]
  exact all q.order fun _ mem => mem

theorem nextWaiting (filed : q.Filed) :
    q.nextFireTime? = (q.waiting.head?.bind (q.agenda h).find?).map Entry.time := by
  unfold nextFireTime? waiting
  cases order : q.order with
  | nil => rfl
  | cons key rest =>
    have mem : key ∈ q.order := by rw [order]; exact List.mem_cons_self ..
    obtain ⟨s, handle, known, -, time⟩ := handleInv (h := h) filed mem
    simp [handle, known, time]

theorem entriesListed (filed : q.Filed) : q.entries =
    (q.waiting ++ q.resting).filterMap fun id =>
      ((q.agenda h).find? id).map (Entry.info id) := by
  rw [List.filterMap_append, entries, waiting, resting, List.filterMap_filterMap, List.filterMap_map]
  congr 1
  · refine List.filterMap_congr fun key mem => ?_
    obtain ⟨s, found, live, enabled, -⟩ := keyInv ((filed.listed key).mp mem)
    have valid : q.slot? ⟨key.slot, s.generation⟩ = some s := slotOf found live rfl
    simp [handle?, found, agenda, find?, valid, info, Entry.info, Slot.entry, enabled]
  · rw [← List.filterMap_eq_map]
    refine List.filterMap_congr fun row mem => ?_
    obtain ⟨s, index⟩ := row
    simp only [List.mem_filter, Bool.and_eq_true, Bool.not_eq_true', List.mem_zipIdx_iff_getElem?,
      Array.getElem?_toList] at mem
    obtain ⟨found, live, idle⟩ := mem
    have valid : q.slot? ⟨index, s.generation⟩ = some s := slotOf found live rfl
    simp [agenda, find?, valid, info, Entry.info, Slot.entry, idle]

section
variable {limit : Time} {fired : Fired} {key : Key} {rest : List Key}

theorem takenAgenda (popped : Popped q limit fired p key rest s) :
    (q.taken key rest).agenda h =
      ((q.agenda h).pass key.time).disarm ⟨key.slot, s.generation⟩ s.entry := by
  have valid : q.slot? ⟨key.slot, s.generation⟩ = some s := slotOf popped.found popped.live rfl
  have entries := entryUpdated (p := q.taken key rest) (f := fun s => { s with enabled := false })
    popped.found rfl (aloneLive valid) fun _ => rfl
  rw [if_pos popped.live] at entries
  simp only [agenda, entries]
  rfl

theorem againAgenda (popped : Popped q limit fired p key rest s) (period : Time) :
    (q.again key rest period).agenda h =
      { ((q.agenda h).pass key.time).put ⟨key.slot, s.generation⟩
          (some { s.entry with time := key.time + period, armed := some q.nextSeq }) with
        armings := q.nextSeq + 1 } := by
  have valid : q.slot? ⟨key.slot, s.generation⟩ = some s := slotOf popped.found popped.live rfl
  have entries := entryUpdated (p := q.again key rest period)
    (f := fun s => { s with expire := key.time + period, seq := q.nextSeq })
    popped.found rfl (aloneLive valid) fun _ => rfl
  rw [if_pos popped.live] at entries
  have entry : Slot.entry { s with expire := key.time + period, seq := q.nextSeq } =
      { s.entry with time := key.time + period, armed := some q.nextSeq } := by
    simp [Slot.entry, popped.enabled]
  rw [entry] at entries
  simp only [agenda, entries]
  rfl

theorem popAgenda (popped : Popped q limit fired p key rest s) :
    p.agenda h = (q.agenda h).fire fired.id s.entry := by
  have time : s.entry.time = key.time := by rw [popped.same]; rfl
  have valid : q.slot? ⟨key.slot, s.generation⟩ = some s := slotOf popped.found popped.live rfl
  rw [popped.result, popped.reported, Agenda.fire, time]
  by_cases once : s.period.isZero = true
  · have once' : s.entry.period.isZero = true := once
    rw [if_pos once, if_pos once']
    by_cases kept : s.persistent = true
    · have kept' : s.entry.persistent = true := kept
      rw [if_pos kept, if_pos kept']
      exact takenAgenda popped
    · have kept' : ¬ s.entry.persistent = true := kept
      rw [if_neg kept, if_neg kept']
      have taken := takenAgenda (h := h) popped
      have known : (q.taken key rest).find? ⟨key.slot, s.generation⟩ =
          some { s.entry with armed := none } :=
        (congrFun (congrArg Agenda.find? taken) _).trans (Function.update_self ..)
      rw [releaseAgenda known, taken]
      simp [Agenda.disarm, Agenda.put]
  · have once' : ¬ s.entry.period.isZero = true := once
    rw [if_neg once, if_neg once']
    exact againAgenda popped s.period

theorem popFirst (filed : q.Filed) (popped : Popped q limit fired p key rest s) :
    (q.agenda h).Armed fired.id s.entry ∧
      ∀ other f, (q.agenda h).Armed other f → other ≠ fired.id →
        (q.agenda h).Sooner fired.id other := by
  have valid : q.slot? ⟨key.slot, s.generation⟩ = some s := slotOf popped.found popped.live rfl
  have known : (q.agenda h).find? fired.id = some s.entry := by
    rw [popped.reported]
    simp [agenda, find?, valid]
  have number : s.entry.armed = some key.seq := by
    rw [popped.same]
    simp [Slot.entry, popped.enabled]
  refine ⟨⟨known, by rw [number]; rfl⟩, fun other f armed different => ?_⟩
  obtain ⟨key', mem, handle, number', time'⟩ := armedListed filed armed
  have later : key' ∈ rest := by
    rw [popped.order] at mem
    rcases List.mem_cons.mp mem with rfl | mem
    · rw [handle?, popped.found, Option.map_some] at handle
      refine absurd (Option.some.inj handle).symm ?_
      rw [popped.reported] at different
      exact different
    · exact mem
  have before := popped.first filed key' later
  have time : s.entry.time = key.time := by rw [popped.same]; rfl
  exact ⟨s.entry, key.seq, f, key'.seq, known, number, armed.1, number',
    by rw [time, time']; exact before⟩

end

theorem occupied (owner : DeviceId) (param : Nat) (persistent : Bool) (filed : q.Filed) :
    (q.occupy owner param persistent).1.find? (q.occupy owner param persistent).2 =
      some (.blank owner param persistent) := by
  have agenda := occupyAgenda (h := []) filed owner param persistent
  exact (congrFun (congrArg Agenda.find? agenda) _).trans Agenda.issueSelf

theorem scheduleAtAgenda (filed : q.Filed) (owner : DeviceId) (time period : Time) (param : Nat) :
    (q.scheduleAt owner time period param).1.agenda
        (h ++ [(q.scheduleAt owner time period param).2]) =
      ((q.agenda h).issue (q.scheduleAt owner time period param).2
        (.blank owner param false)).arm (q.scheduleAt owner time period param).2
          (.blank owner param false) time period := by
  simp only [scheduleAt, armAgenda (occupied owner param false filed), occupyAgenda filed]

theorem adjustAtAgenda (known : q.find? id = some e) (time period : Time) :
    (q.adjustAt id time period).1.agenda h = (q.agenda h).arm id e time period ∧
      (q.adjustAt id time period).2 = true := by
  obtain ⟨s, valid, -⟩ := entryInv known
  have disarmed := (disarmAgenda (h := h) known).1
  have known' : (q.disarm id).1.find? id = some { e with armed := none } :=
    (congrFun (congrArg Agenda.find? disarmed) _).trans (Function.update_self ..)
  simp only [adjustAt, valid, armAgenda known', disarmed, and_true]
  simp [Agenda.arm, Agenda.disarm, Agenda.put]

theorem disarmPut (known : q.find? id = some e) :
    ((q.disarm id).1.release id).agenda h = (q.agenda h).put id none := by
  have disarmed := (disarmAgenda (h := h) known).1
  have known' : (q.disarm id).1.find? id = some { e with armed := none } :=
    (congrFun (congrArg Agenda.find? disarmed) _).trans (Function.update_self ..)
  rw [releaseAgenda known', disarmed]
  simp [Agenda.disarm, Agenda.put]

theorem cancelStep (known : q.find? id = some e) :
    (q.agenda h).Step (.cancel id) (.flag (q.cancel id).2) ((q.cancel id).1.agenda h) := by
  obtain ⟨s, valid, rfl⟩ := entryInv known
  obtain ⟨disarmed, armed⟩ := disarmAgenda (h := h) known
  simp only [cancel, valid, armed]
  split
  · rename_i kept
    rw [disarmed]
    exact .cancelKept known kept
  · rename_i freed
    rw [disarmPut known]
    exact .cancelFreed known (by simpa [Slot.entry] using freed)

theorem setEnabledStep (known : q.find? id = some e) (on : Bool) :
    (q.agenda h).Step (.setEnabled id on) .done ((q.setEnabled id on).agenda h) := by
  obtain ⟨s, valid, rfl⟩ := entryInv known
  have state := armedEntry s
  cases on with
  | true =>
    cases enabled : s.enabled with
    | true =>
      simp only [setEnabled, valid, enabled, Bool.not_true, Bool.and_false, Bool.false_and,
        Bool.false_eq_true, if_false]
      exact .enabled known (state.trans enabled)
    | false =>
      simp only [setEnabled, valid, enabled, Bool.not_false, Bool.and_true, if_true]
      rw [armAgenda known]
      exact .enable known (by simp [Slot.entry, enabled])
  | false =>
    have disarmed := (disarmAgenda (h := h) known).1
    cases enabled : s.enabled with
    | true =>
      simp only [setEnabled, valid, enabled, Bool.false_and, Bool.not_false, Bool.and_true, if_true,
        Bool.false_eq_true, if_false]
      rw [disarmed]
      exact .disable known
    | false =>
      simp only [disarm, valid, enabled, Bool.false_eq_true, if_false] at disarmed
      simp only [setEnabled, valid, enabled, Bool.false_and, Bool.and_false, Bool.false_eq_true,
        if_false]
      have step := Agenda.Step.disable (a := q.agenda h) known
      rwa [← disarmed] at step

theorem setParamAgenda (known : q.find? id = some e) (param : Nat) :
    (q.setParam id param).agenda h = (q.agenda h).put id (some { e with param }) := by
  obtain ⟨s, valid, rfl⟩ := entryInv known
  obtain ⟨found, live, current⟩ := slotInv valid
  have entries := entryUpdated (p := q.setParam id param) (f := fun s => { s with param })
    found (by simp only [setParam, valid, modifySlot]) (aloneLive valid) fun _ => current
  simp only [setParam, valid, modifySlot, live, if_true] at entries ⊢
  exact agendaPut rfl rfl entries

theorem fireTimeEntry (known : q.find? id = some e) :
    q.fireTime? id = e.fireTime? ∧ q.isEnabled id = e.armed.isSome := by
  obtain ⟨s, valid, rfl⟩ := entryInv known
  simp only [fireTime?, isEnabled, valid, Entry.fireTime?, armedEntry, Option.bind_some,
    Option.elim_some]
  exact ⟨rfl, trivial⟩

theorem refused {request : Request} (target : request.target? = some id)
    (unknown : q.slot? id = none) : q.answer request = (q, request.refusal) := by
  cases request <;> cases target <;>
    simp [answer, adjustAt, cancel, remove, setEnabled, setParam, isEnabled, fireTime?, remaining?,
      unknown, Request.refusal]

theorem setNowAgenda (time : Time) :
    (q.setNow time).agenda h = (q.agenda h).pass time := by
  have entries : (q.setNow time).find? = q.find? := by unfold setNow; split <;> rfl
  have count : (q.setNow time).nextSeq = q.nextSeq := by unfold setNow; split <;> rfl
  simp only [agenda, Agenda.pass, nowSetNow, entries, count]

theorem quietOf {limit : Time} (filed : q.Filed) (none : q.popDue limit = none) :
    (q.agenda h).Quiet limit := by
  intro id e armed
  obtain ⟨key, mem, -, -, time⟩ := armedListed filed armed
  rw [time]
  exact popNone filed none key mem

theorem scheduleAtStep (filed : q.Filed) (owner : DeviceId) (time period : Time) (param : Nat)
    (fresh : (q.scheduleAt owner time period param).2 ∉ h) :
    (q.agenda h).Step (.scheduleAt owner time period param)
      (.made (q.scheduleAt owner time period param).2)
      ((q.scheduleAt owner time period param).1.agenda
        (h ++ [(q.scheduleAt owner time period param).2])) := by
  rw [scheduleAtAgenda filed]
  exact .scheduleAt fresh

theorem allocateStep (filed : q.Filed) (owner : DeviceId) (param : Nat)
    (fresh : (q.allocate owner param).2 ∉ h) :
    (q.agenda h).Step (.allocate owner param) (.made (q.allocate owner param).2)
      ((q.allocate owner param).1.agenda (h ++ [(q.allocate owner param).2])) := by
  rw [allocate, occupyAgenda filed]
  exact .allocate fresh

theorem adjustAtStep (id : Id) (time period : Time) :
    (q.agenda h).Step (.adjustAt id time period) (.flag (q.adjustAt id time period).2)
      ((q.adjustAt id time period).1.agenda h) := by
  cases known : q.find? id with
  | none =>
    have unknown : q.slot? id = none := by simpa [find?] using known
    simp only [adjustAt, unknown]
    exact .stale rfl known
  | some e =>
    obtain ⟨agenda, done⟩ := adjustAtAgenda (h := h) known time period
    rw [agenda, done]
    exact .adjustAt known

theorem removeStep (known : q.find? id = some e) :
    (q.agenda h).Step (.remove id) .done ((q.remove id).agenda h) := by
  obtain ⟨s, valid, -⟩ := entryInv known
  simp only [remove, valid]
  rw [disarmPut known]
  exact .remove known

theorem popDueStep (filed : q.Filed) (limit : Time) :
    (q.agenda h).Step (.popDue limit) (q.answer (.popDue limit)).2
      ((q.answer (.popDue limit)).1.agenda h) := by
  simp only [answer]
  split
  · rename_i fired p due
    obtain ⟨key, rest, s, popped⟩ := popCases filed due
    obtain ⟨armed, first⟩ := popFirst (h := h) filed popped
    have time : s.entry.time = key.time := by rw [popped.same]; rfl
    have reported : fired = ⟨fired.id, s.entry.owner, s.entry.param, s.entry.time⟩ := by
      rw [popped.reported, time]
      rfl
    rw [popAgenda popped]
    have step := Agenda.Step.pop armed (time ▸ popped.due) first
    rwa [← reported] at step
  · rename_i none
    exact .popNone (quietOf filed none)

theorem targetStep {request : Request} {answer : Answer} (took : q.answer request = (p, answer))
    (target : request.target? = some id) :
    (q.agenda h).Step request answer (p.agenda h) := by
  cases known : q.find? id with
  | none =>
    rw [refused target (by simpa [find?] using known)] at took
    cases took
    exact .stale target known
  | some e =>
    obtain ⟨fires, enabled⟩ := fireTimeEntry known
    cases request with
    | adjustAt => cases target; cases took; exact adjustAtStep ..
    | cancel => cases target; cases took; exact cancelStep known
    | remove => cases target; cases took; exact removeStep known
    | setEnabled _ on => cases target; cases took; exact setEnabledStep known on
    | setParam => cases target; cases took; rw [setParamAgenda known]; exact .setParam known
    | isEnabled => cases target; cases took; rw [enabled]; exact .isEnabled known
    | fireTime => cases target; cases took; rw [fires]; exact .fireTime known
    | remaining => cases target; cases took; rw [remaining?, fires]; exact .remaining known
    | _ => cases target

theorem queueStep (filed : q.Filed) {request : Request} {answer : Answer}
    (took : q.answer request = (p, answer)) (target : request.target? = none)
    (made : answer.made? = none) : (q.agenda h).Step request answer (p.agenda h) := by
  have lists := agendaLists (h := h) filed
  cases request with
  | schedule | scheduleAt | allocate => cases took; cases made
  | adjust => cases took; exact .adjust (adjustAtStep ..)
  | popDue limit =>
    have step := popDueStep (h := h) filed limit
    rwa [took] at step
  | setNow => cases took; rw [setNowAgenda]; exact .setNow
  | now => cases took; exact .now
  | size => cases took; rw [size, ← waitingLength filed]; exact .size lists
  | isEmpty =>
    cases took
    have empty : q.isEmpty = q.waiting.isEmpty := by
      rw [isEmpty, Bool.eq_iff_iff, List.isEmpty_iff_length_eq_zero,
        List.isEmpty_iff_length_eq_zero, waitingLength filed]
    rw [empty]
    exact .isEmpty lists
  | nextFireTime =>
    cases took
    rw [nextWaiting (h := h) filed]
    exact .nextFireTime lists
  | untilNext =>
    cases took
    rw [untilNext?, nextWaiting (h := h) filed, Option.map_map]
    exact .untilNext lists
  | entries =>
    cases took
    rw [entriesListed (h := h) filed]
    exact .entries lists
  | _ => cases target

theorem answerStep (filed : q.Filed) {request : Request} {answer : Answer}
    (took : q.answer request = (p, answer)) (fresh : ∀ id ∈ answer.made?, id ∉ h) :
    (q.agenda h).Step request answer (p.agenda (h ++ answer.made?.toList)) := by
  have steady (made : answer.made? = none)
      (step : (q.agenda h).Step request answer (p.agenda h)) :
      (q.agenda h).Step request answer (p.agenda (h ++ answer.made?.toList)) := by
    rwa [made, Option.toList_none, List.append_nil]
  cases request with
  | scheduleAt => cases took; exact scheduleAtStep filed _ _ _ _ (fresh _ rfl)
  | schedule => cases took; exact .schedule (scheduleAtStep filed _ _ _ _ (fresh _ rfl))
  | allocate => cases took; exact allocateStep filed _ _ (fresh _ rfl)
  | popDue limit =>
    have made : answer.made? = none := by
      simp only [Queue.answer] at took
      split at took <;> cases took <;> rfl
    exact steady made (queueStep filed took rfl made)
  | adjustAt | cancel | remove | setEnabled | setParam | isEnabled | fireTime | remaining =>
    have made : answer.made? = none := by cases took; rfl
    exact steady made (targetStep took rfl)
  | adjust | setNow | now | size | isEmpty | nextFireTime | untilNext | entries =>
    have made : answer.made? = none := by cases took; rfl
    exact steady made (queueStep filed took rfl made)

end Queue

end Lockstep.Timer
