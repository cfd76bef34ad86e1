import Lockstep.Proofs.OnTime
import Lockstep.Proofs.TimerSchedule

/-! The last time means never. A pop takes nothing that fires after its limit, so what is armed
at the last time stays armed as long as every limit lies before it. At that limit it fires like
anything else: an advance to the last time fires what is armed there, and does not end while an
armed entry recurs. -/
namespace Lockstep

namespace Timer

namespace Queue
variable {q p : Queue} {limit : Time} {fired : Fired} {id : Id} {e : Entry}

theorem popWithin (popped : q.popDue limit = some (fired, p)) : fired.time ≤ limit := by
  unfold popDue at popped
  split at popped
  · cases popped
  · split at popped
    · cases popped
    · rename_i due
      obtain ⟨s, -, same⟩ := Option.map_eq_some_iff.mp popped
      split at same <;> cases same <;> exact Nat.le_of_not_lt due

theorem popFind (filed : q.Filed) (popped : q.popDue limit = some (fired, p)) :
    ∃ e, q.find? fired.id = some e ∧ e.time = fired.time ∧
      p.find? = Function.update q.find? fired.id (e.shot q.nextSeq) := by
  obtain ⟨key, rest, s, cases⟩ := popCases filed popped
  refine ⟨s.entry, (popFirst (h := []) filed cases).1.1, ?_,
    (congrArg Agenda.find? (popAgenda (h := []) cases)).trans Agenda.fireFind⟩
  rw [cases.reported, cases.same]
  rfl

theorem popOther (filed : q.Filed) (popped : q.popDue limit = some (fired, p))
    (known : q.find? id = some e) (other : fired.time ≠ e.time) :
    fired.id ≠ id ∧ p.find? id = some e := by
  obtain ⟨e', known', time, find⟩ := popFind filed popped
  have apart : fired.id ≠ id := by
    rintro rfl
    cases known.symm.trans known'
    exact other time.symm
  refine ⟨apart, ?_⟩
  rw [find, Function.update_of_ne apart.symm, known]

def Recurs (q : Queue) : Prop :=
  ∃ id e, q.find? id = some e ∧ e.armed.isSome = true ∧ ¬ e.period.isZero = true

theorem popRecurs (filed : q.Filed) (popped : q.popDue limit = some (fired, p)) :
    q.Recurs ↔ p.Recurs := by
  obtain ⟨e, known, -, find⟩ := popFind filed popped
  have first : e.armed.isSome = true := by
    obtain ⟨key, rest, s, cases⟩ := popCases filed popped
    have armed := (popFirst (h := []) filed cases).1
    cases known.symm.trans armed.1
    exact armed.2
  -- The entry that fires goes on being armed exactly if it recurs; the others stay as they are.
  constructor
  · rintro ⟨id, e', known', armed, recurring⟩
    by_cases own : id = fired.id
    · subst own
      cases known.symm.trans known'
      refine ⟨fired.id, { e with time := e.time + e.period, armed := some q.nextSeq }, ?_, rfl,
        recurring⟩
      rw [find, Function.update_self, Entry.shot, if_neg recurring]
    · refine ⟨id, e', ?_, armed, recurring⟩
      rw [find, Function.update_of_ne own, known']
  · rintro ⟨id, e', known', armed, recurring⟩
    rw [find] at known'
    by_cases own : id = fired.id
    · subst own
      rw [Function.update_self] at known'
      refine ⟨fired.id, e, known, first, ?_⟩
      obtain ⟨-, -, rfl⟩ | ⟨recurring, -⟩ := Entry.shotInv known'
      · cases armed
      · exact recurring
    · rw [Function.update_of_ne own] at known'
      exact ⟨id, e', known', armed, recurring⟩

end Queue

namespace Drained
open Queue
variable {q : Queue} {limit : Time}

theorem endsOnce {n : Nat} (filed : q.Filed) (once : ¬ q.Recurs) (count : q.order.length = n) :
    ∃ shots p, Drained limit q shots p := by
  induction n generalizing q with
  | zero =>
    cases next : q.popDue limit with
    | none => exact ⟨[], q, .idle next⟩
    | some popped =>
      obtain ⟨key, rest, s, popped⟩ := popCases filed next
      rw [popped.order] at count
      cases count
  | succ n ih =>
    cases next : q.popDue limit with
    | none => exact ⟨[], q, .idle next⟩
    | some row =>
      obtain ⟨fired, p⟩ := row
      obtain ⟨key, rest, s, popped⟩ := popCases filed next
      have single : s.period.isZero = true := Classical.byContradiction fun recurring =>
        once ⟨fired.id, s.entry, (popFirst (h := []) filed popped).1.1,
          (popFirst (h := []) filed popped).1.2, recurring⟩
      have shorter : p.order.length = n := by
        rw [popped.order, List.length_cons] at count
        rw [popped.result, if_pos single]
        split <;> exact Nat.succ.inj count
      obtain ⟨shots, p', later⟩ :=
        ih (popped.filed filed) (fun recurs => once ((popRecurs filed next).mpr recurs)) shorter
      exact ⟨⟨fired, key.seq, p⟩ :: shots, p', .pop next (by rw [popped.order]; rfl) later⟩

end Drained

section
variable {q : Queue} {σ : Type} (note : Fired → Queue → σ → σ)

theorem drainRecurs (filed : q.Filed) (recurs : q.Recurs) (fuel : Nat) (s : σ) :
    Queue.drain (onlooker note) .never fuel (q, s) = none := by
  induction fuel generalizing q s with
  | zero => rfl
  | succ fuel ih =>
    cases next : q.popDue .never with
    | none =>
      obtain ⟨id, e, known, armed, -⟩ := recurs
      have late := Queue.quietOf (h := []) filed next id e ⟨known, armed⟩
      have bounded := e.time.bounded
      rw [Time.lt_def, Time.attos_never] at late
      omega
    | some row =>
      obtain ⟨fired, p⟩ := row
      obtain ⟨key, rest, t, popped⟩ := Queue.popCases filed next
      simp only [Queue.drain, next, onlooker, bind, Option.bind]
      exact ih (popped.filed filed) ((Queue.popRecurs filed next).mp recurs) _

theorem advanceEnds (filed : q.Filed) (limit : Time) (s : σ) :
    (∃ fuel r, Queue.advanceTo (onlooker note) limit fuel (q, s) = some r) ↔
      (limit = .never → ¬ q.Recurs) := by
  constructor
  · rintro ⟨fuel, r, ran⟩ rfl recurs
    rw [Queue.advanceTo, drainRecurs note filed recurs] at ran
    cases ran
  · intro once
    obtain ⟨shots, p, drained⟩ : ∃ shots p, Drained limit q shots p := by
      by_cases last : limit = .never
      · exact Drained.endsOnce filed (once last) rfl
      · have early : limit < .never := by
          have bounded := limit.bounded
          have apart : limit.attos ≠ Time.last := fun same => last (Time.ext same)
          rw [Time.lt_def, Time.attos_never]
          omega
        obtain ⟨shots, p, drained, -⟩ := Drained.ends early filed rfl
        exact ⟨shots, p, drained⟩
    have enough := drained.runs note (shots.length + 1) s
    rw [if_pos (Nat.lt_succ_self _)] at enough
    exact ⟨shots.length + 1, (p.setNow limit, _), by rw [Queue.advanceTo, enough]; rfl⟩

theorem advanceWaits (filed : q.Filed) {p : Queue} {fired : List Fired} {limit : Time}
    (early : limit < .never) {id : Id} {e : Entry} (known : q.find? id = some e)
    (late : limit < e.time) {fuel : Nat}
    (ran : Queue.advanceTo (onlooker fun fired _ s => fired :: s) limit fuel (q, []) =
      some (p, fired)) : (∀ f ∈ fired, f.id ≠ id) ∧ p.find? id = some e := by
  obtain ⟨shots, p', drained, -⟩ := Drained.ends early filed rfl
  have scheduled := drained.scheduled filed early
  rw [Queue.advanceTo, drained.runs] at ran
  split at ran
  · cases ran
    obtain ⟨n, due, times, leaves⟩ := scheduled.entries id e known
    have none : n = 0 := Nat.eq_zero_of_not_pos fun some => by
      have fires := ((due 0).mp some).2.2
      rw [Time.lt_def] at late
      omega
    subst none
    refine ⟨fun f mem => ?_, leaves⟩
    rw [List.foldl_flip_cons_eq_append, List.append_nil, List.mem_reverse] at mem
    intro own
    have listed : f ∈ (shots.map Shot.fired).filter (·.id = id) :=
      List.mem_filter.mpr ⟨mem, decide_eq_true own⟩
    rw [times] at listed
    cases listed
  · cases ran

end

theorem Chain.popsWithin {q p : Queue} {log : List Note} (chain : Chain q log p) {note : Note}
    (mem : note ∈ log) {limit : Time} {fired : Fired}
    (popped : note.deed = .call (.popDue limit) (.popped (some fired))) : fired.time ≤ limit := by
  induction chain with
  | nil => cases mem
  | @cons q head log p took rest ih =>
    rcases List.mem_cons.mp mem with rfl | mem
    · obtain ⟨deed, after⟩ := note
      cases popped
      simp only [Note.Took, Queue.answer] at took
      split at took
      · rename_i row due
        cases took
        exact Queue.popWithin due
      · cases took
    · exact ih mem

end Timer

def Notice.fired : Notice → Timer.Fired
  | .popped fired => fired
  | .delivered fired _ => fired

namespace Machine
open Timer (Entry)
variable {R : Machine → Machine → Prop} {call : Callback} {m m' origin : Machine}
  {notices : List Notice} {r : Option Machine} {id : Timer.Id}

theorem dispatchTells (call : Callback) (fired : Timer.Fired) (m : Machine) :
    (noteDispatch call fired).Ensures m fun notices _ => ∀ n ∈ notices, n.fired = fired := by
  change ∀ n ∈ ((Diary.notices call).dispatch fired m).1, n.fired = fired
  rw [Diary.dispatchNotes (fun _ _ => rfl) fired rfl]
  split
  · intro n mem
    cases List.mem_singleton.mp mem
    rfl
  · exact fun n mem => absurd mem List.not_mem_nil

theorem announcedWithin {call : Callback} {target : Time} {m : Machine} {notices : List Notice}
    {r : Option (Unit × Machine)} (announced : Announced call target m notices r) :
    ∀ n ∈ notices, n.fired.time ≤ target := by
  have told : ∀ {m : Machine} {fired timers notices r},
      m.timers.popDue (m.horizon target) = some (fired, timers) →
        noteDispatch call fired { m with timers } = (notices, r) →
          ∀ n ∈ Notice.popped fired :: notices, n.fired.time ≤ target := by
    intro m fired timers notices r due ran
    have within := Nat.le_trans (Timer.Queue.popWithin due) (horizonTarget m target)
    refine List.forall_mem_cons.mpr ⟨within, fun n mem => ?_⟩
    rw [Watch.ensuresRan ran (dispatchTells call fired _) n mem]
    exact within
  induction announced with
  | stuck | rests => exact fun _ mem => absurd mem List.not_mem_nil
  | lost due ran => exact told due ran
  | fires due ran _ ih => exact List.forall_mem_append.mpr ⟨told due ran, ih⟩
  | slices _ _ _ ih => exact ih

/-- A course whose runs have targets before the last time. -/
inductive Early (call : Callback) (origin : Machine) : List Notice → Option Machine → Prop where
  | start : Early call origin [] (some origin)
  | script {told p} (script : Script) : Early call origin told (some p) →
      Early call origin told ((call script p).map Prod.snd)
  | sink {told p} (name : Option String) : Early call origin told (some p) →
      Early call origin told (some (p.setSink name).1)
  | reset {told p} : Early call origin told (some p) →
      Early call origin told ((reset call p).map Prod.snd)
  | run {told p target} (early : target < .never) (fuel : Nat) :
      Early call origin told (some p) →
      Early call origin (told ++ (noteUntil call target fuel p).1)
        ((runUntil call target fuel p).map Prod.snd)

namespace Early

theorem course (early : Early call origin notices r) : Course call origin notices r := by
  induction early with
  | start => exact .start
  | script script _ ih => exact .script script ih
  | sink name _ ih => exact .sink name ih
  | reset _ ih => exact .reset ih
  | run _ fuel _ ih => exact .run _ fuel ih

theorem before (early : Early call origin notices r) : ∀ n ∈ notices, n.fired.time < .never := by
  induction early with
  | start => exact fun _ mem => absurd mem List.not_mem_nil
  | script _ _ ih | sink _ _ ih | reset _ ih => exact ih
  | @run notices m target early fuel _ ih =>
    intro n mem
    rcases List.mem_append.mp mem with mem | mem
    · exact ih n mem
    · exact Nat.lt_of_le_of_lt (announcedWithin (untilAnnounced call target fuel m) n mem) early

theorem unstopped (early : Early call origin notices r)
    (timely : ∀ d ∈ deliveries notices, d.2 = d.1.time) {time period : Time} {k : Nat}
    (times : ((deliveries notices).filter fun d => d.1.id = id).map Prod.snd =
      (List.range k).map fun j => time + period.scale j) {j : Nat} (less : j < k) :
    time.attos + period.attos * j < Time.never.attos := by
  have mem : time + period.scale j ∈ ((deliveries notices).filter fun d => d.1.id = id).map
      Prod.snd := by
    rw [times]
    exact List.mem_map_of_mem (List.mem_range.mpr less)
  obtain ⟨d, heard, same⟩ := List.mem_map.mp mem
  have heard := (List.mem_filter.mp heard).1
  obtain ⟨n, noted, told⟩ := List.mem_filterMap.mp heard
  have fired : n.fired = d.1 := by
    cases n with
    | popped => cases told
    | delivered => cases told; rfl
  have before := early.before n noted
  rw [fired, ← timely d heard, same, Time.lt_def] at before
  simp only [Time.attos_add, Time.attos_scale, Time.attos_never] at before ⊢
  omega

end Early

def Unstirred (id : Timer.Id) (a b : Machine) : Prop := b.timers.slot? id = a.timers.slot? id

instance (id : Timer.Id) : DecidableRel (Unstirred id) := fun _ _ => by
  unfold Unstirred; infer_instance

theorem unstirredDrives (id : Timer.Id) : Drives (Unstirred id) where
  trans first rest := rest.trans first
  quiet h := by unfold Unstirred; rw [h.timers]
  lent _ inner := inner

theorem unstirredWait (id : Timer.Id) (m : Machine) (limit : Time) :
    Unstirred id m { m with timers := m.timers.setNow limit } := by
  unfold Unstirred Timer.Queue.setNow
  split <;> rfl

theorem Tale.waits {e : Entry} (touch : ∀ a b, R a b → Unstirred id a b)
    (tale : Tale R m notices r) (sound : m.timers.Sound) (known : m.timers.find? id = some e)
    (late : ∀ n ∈ notices, n.fired.time < e.time) :
    (∀ n ∈ notices, n.fired.id ≠ id) ∧ ∀ m', r = some m' → m'.timers.find? id = some e := by
  have same : ∀ {a b : Machine}, R a b → b.timers.find? id = a.timers.find? id := fun kept =>
    congrArg (Option.map Timer.Slot.entry) (touch _ _ kept)
  induction tale with
  | stop m =>
    refine ⟨fun _ mem => absurd mem List.not_mem_nil, fun m' last => ?_⟩
    cases last
    exact known
  | stuck => exact ⟨fun _ mem => absurd mem List.not_mem_nil, fun m' last => by cases last⟩
  | lull first _ ih =>
    exact ih (motionSound first.motion sound).1 ((same first.kept).trans known) late
  | @pop m limit fired timers m₁ notices r due after _ ih =>
    have sound' := (Timer.Queue.popInv sound due).1
    obtain ⟨now, later⟩ := List.forall_mem_cons.mp late
    have apart : fired.time ≠ e.time := fun equal => Nat.lt_irrefl _ (equal ▸ now)
    obtain ⟨other, still⟩ := Timer.Queue.popOther sound.toFiled due known apart
    obtain ⟨rest, ends⟩ := ih (motionSound after.motion sound').1 ((same after.kept).trans still)
      fun n mem => later n (List.mem_append_right _ mem)
    refine ⟨List.forall_mem_cons.mpr ⟨other, fun n mem => ?_⟩, ends⟩
    rcases List.mem_append.mp mem with mem | mem
    · unfold heard at mem
      split at mem
      · cases List.mem_singleton.mp mem
        exact other
      · cases mem
    · exact rest n mem

theorem spanNever {clock : ClockRate} (stopped : clock.isZero = true) (cycles : Nat) :
    clock.span cycles = .never := by
  have none : clock.hz = 0 := by simpa [ClockRate.isZero] using stopped
  simp only [ClockRate.span, ClockRate.period?, Time.ofHz?, none, if_true]

theorem cutTimers (m : Machine) (time : Time) : (m.cutBefore time).timers = m.timers := by
  unfold cutBefore requestYield
  split
  · split
    · split <;> rfl
    · rfl
  · rfl

theorem cyclesNever {owner : DeviceId} (sound : m.timers.Sound)
    (stopped : ∀ node, m.tree.get? owner = some node → node.clock.isZero = true)
    (cycles param : Nat) :
    (m.scheduleCycles owner cycles param).1.timers.fireTime?
      (m.scheduleCycles owner cycles param).2 = some .never := by
  have span : ((m.tree.get? owner).elim ⟨0⟩ (·.clock) : ClockRate).span cycles = .never := by
    cases found : m.tree.get? owner with
    | none => exact spanNever rfl cycles
    | some node => exact spanNever (stopped node found) cycles
  have late : m.now + .never = .never := by
    apply Time.ext
    rw [Time.attos_add, Time.attos_never]
    omega
  have armed := congrArg Timer.Agenda.find?
    (Timer.Queue.scheduleAtAgenda (h := []) sound.toFiled owner .never .zero param)
  have last : max .never m.timers.now = Time.never := by
    have bounded := m.timers.now.bounded
    apply Time.ext
    rw [Time.attos_max, Time.attos_never]
    omega
  dsimp only [scheduleCycles, schedule]
  have fires := Timer.Queue.fireEntry ((congrFun armed _).trans (Function.update_self ..))
  rw [span, late, cutTimers, fires]
  exact congrArg some last

theorem fireInv {q : Timer.Queue} {time : Time} (armed : q.fireTime? id = some time) :
    ∃ e, q.find? id = some e ∧ e.armed.isSome = true ∧ e.time = time := by
  obtain ⟨s, valid, fires⟩ := Option.bind_eq_some_iff.mp armed
  split at fires
  · rename_i enabled
    refine ⟨s.entry, congrArg (Option.map Timer.Slot.entry) valid, ?_, Option.some.inj fires⟩
    rw [Timer.Queue.armedEntry, enabled]
  · cases fires

/-- Never does not come before the last time. A pop whose limit lies before it takes nothing
that fires at it, in any run of any client; an advance ends, unless it goes to the last time
while something armed recurs. No run whose target lies before it delivers such a timer: not one
that an owner without a clock set in cycles, whatever number of them, and not a recurring one
whose next time stops there. -/
theorem firesBeforeNever (client : Timer.Client) (a : Assembly) :
    (∀ (fuel : Nat) (q : Timer.Queue) (log : List Timer.Note),
      client.run fuel ({}, []) = some (q, log) →
        (∀ note ∈ log, ∀ limit fired, note.deed = .call (.popDue limit) (.popped (some fired)) →
          limit < .never → fired.time < .never) ∧
        (∀ (σ : Type) (note : Timer.Fired → Timer.Queue → σ → σ) (limit : Time) (s : σ),
          (∃ more r, Timer.Queue.advanceTo (Timer.onlooker note) limit more (q, s) = some r) ↔
            (limit = .never → ¬ q.Recurs)) ∧
        ∀ id e, q.find? id = some e → e.time = .never → ∀ limit < Time.never, ∀ more p fired,
          Timer.Queue.advanceTo (Timer.onlooker fun fired _ s => fired :: s) limit more (q, []) =
              some (p, fired) →
            (∀ f ∈ fired, f.id ≠ id) ∧ p.find? id = some e) ∧
    ∀ (depth : Nat) (origin : Machine), Assembled a →
      a.build (invoke depth) = some (none, origin) →
        (∀ m, Motion a.machine m → ∀ owner cycles param,
          (∀ node, m.tree.get? owner = some node → node.clock.isZero = true) →
            (m.scheduleCycles owner cycles param).1.timers.fireTime?
              (m.scheduleCycles owner cycles param).2 = some .never) ∧
        ∀ before m, Course (invoke depth) origin before (some m) →
          (∀ notices r, Early (invoke depth) m notices r →
            ∀ n ∈ notices, n.fired.time < .never) ∧
          (∀ id, m.timers.fireTime? id = some .never → ∀ notices r,
            Early (sparing (Unstirred id) (invoke depth)) m notices r →
              (∀ n ∈ notices, n.fired.id ≠ id) ∧ ∀ m', r = some m' →
                Course (invoke depth) m notices (some m') ∧
                  m'.timers.fireTime? id = some .never) ∧
          ∀ id s, m.timers.slot? id = some s → s.enabled = true → s.period.isZero = false →
            m.busyAt s.owner = some false → ∀ notices r,
              Early (sparing (Untouched s.owner id) (invoke depth)) m notices r →
                ∃ k, ((deliveries notices).filter fun d => d.1.id = id).map Prod.snd =
                    (List.range k).map (fun j => s.expire + s.period.scale j) ∧
                  ∀ j < k, s.expire.attos + s.period.attos * j < Time.never.attos := by
  refine ⟨fun fuel q log ran => ?_, fun depth origin assembled started => ?_⟩
  · have chain := Timer.Client.chain ran
    have filed := chain.filed Timer.Queue.filedEmpty
    refine ⟨fun note mem limit fired popped early =>
      Nat.lt_of_le_of_lt (chain.popsWithin mem popped) early, fun σ note limit s =>
      Timer.advanceEnds note filed limit s, fun id e known last limit early more p fired ran' => ?_⟩
    exact Timer.advanceWaits filed early known (last ▸ early) ran'
  · have acts := invokeActs depth
    have built := buildMotion acts started
    have fair := builtFair acts ⟨a, assembled, started⟩
    refine ⟨fun m motion owner cycles param stopped => cyclesNever
      (motionSound motion (assembledFresh assembled).sound).1 stopped cycles param,
      fun before m course => ?_⟩
    have tale : Tale (fun _ _ => True) origin before (some m) :=
      courseTale acts (fun _ _ _ _ _ => trivial)
        ⟨fun _ _ => trivial, fun _ => trivial, fun _ _ => trivial⟩ (fun _ _ => trivial) course
        fair.idle
    have sound := (motionSound ((tale.timely fair.sound).2.2.2 m rfl) fair.sound).1
    have idle := tale.ends fair.idle
    refine ⟨fun notices r early => early.before, fun id armed notices r early => ?_,
      fun id s valid enabled recurring free notices r early => ?_⟩
    · obtain ⟨e, known, armed, never⟩ := fireInv armed
      have told := sparingTale acts (unstirredDrives id) (unstirredWait id) early.course idle
      obtain ⟨none, ends⟩ := told.waits (fun _ _ kept => kept) sound known
        fun n mem => never ▸ early.before n mem
      refine ⟨none, fun m' last => ⟨?_, ?_⟩⟩
      · subst last
        exact courseFollows (unstirredDrives id) (sparingFollows _) early.course
      · rw [Timer.Queue.fireEntry (ends m' last), Entry.fireTime?, if_pos armed, never]
    · have known : m.timers.find? id = some s.entry := by rw [Timer.Queue.find?, valid]; rfl
      have armed : s.entry.armed.isSome = true := by rw [Timer.Queue.armedEntry, enabled]
      have told := sparingTale acts (untouchedDrives s.owner id)
        (fun m limit => ⟨rfl, unstirredWait id m limit⟩) early.course idle
      obtain ⟨k, times, -⟩ := told.recurs (fun _ _ kept => kept) sound free known armed recurring
      refine ⟨k, times, fun j less => ?_⟩
      exact early.unstopped (told.timely sound).2.2.1 times less

def sleeper : Assembly :=
  (Assembly.new {} .builtin).extend "sleeper" ⟨0⟩ (.peripheral
    { name := "sleeper", start := fun id => .perform (.scheduleCycles id 5 3) })

def riser : Assembly :=
  sleeper.extend "riser" ⟨0⟩ (.peripheral
    { name := "riser", start := fun id =>
        .perform (.schedule id (.ofMicros 3) (.ofAttos (2 ^ 127)) 4) })

theorem sleeperAssembled : Assembled sleeper := (Assembled.new _ _).extend _ _ _

theorem riserAssembled : Assembled riser := sleeperAssembled.extend _ _ _

def sleeping : Timer.Id := ⟨0, 0⟩
def rising : Timer.Id := ⟨1, 0⟩

def lastButOne : Time := .ofAttos (Time.last - 1)

def sleeperWakes : Bool :=
  match sleeper.build (invoke 3) with
  | some (none, origin) =>
      match noteUntil (invoke 3) .never 5 origin with
      | (notices, some _) => decide (origin.timers.fireTime? sleeping = some .never ∧
          (deliveries notices).map (fun d => (d.1.id, d.2)) = [(sleeping, .never)])
      | _ => false
  | _ => false

/-- At the last time the timer is delivered that was never to fire. -/
theorem deliveredAtNever : ∃ origin notices m, sleeper.build (invoke 3) = some (none, origin) ∧
    origin.timers.fireTime? sleeping = some .never ∧
    noteUntil (invoke 3) .never 5 origin = (notices, some ((), m)) ∧
    (deliveries notices).map (fun d => (d.1.id, d.2)) = [(sleeping, .never)] := by
  have runs : sleeperWakes = true := by decide +kernel
  unfold sleeperWakes at runs
  split at runs
  · rename_i origin started
    split at runs
    · rename_i notices row ran
      obtain ⟨armed, woken⟩ := of_decide_eq_true runs
      exact ⟨origin, notices, row.2, started, armed, ran, woken⟩
    · cases runs
  · cases runs

def riserRuns : Bool :=
  match riser.build (invoke 3) with
  | some (none, origin) =>
      match origin.timers.slot? rising with
      | some s => decide (origin.timers.fireTime? sleeping = some .never ∧ s.enabled = true ∧
          s.period.isZero = false ∧ origin.busyAt s.owner = some false ∧
          lastButOne < .never ∧
          (deliveries (noteUntil (sparing (Unstirred sleeping) (invoke 3)) lastButOne 9 origin).1
            ).length = 2 ∧
          (deliveries (noteUntil (sparing (Untouched s.owner rising) (invoke 3)) lastButOne 9
            origin).1).length = 2)
      | none => false
  | _ => false

theorem riserStops :
    (∃ q log, Timer.rota.run 9 ({}, []) = some (q, log) ∧ log.length = 20 ∧ ∀ note ∈ log,
      ∀ limit fired, note.deed = .call (.popDue limit) (.popped (some fired)) →
        limit < .never → fired.time < .never) ∧
    ∃ origin s notices r heard r', riser.build (invoke 3) = some (none, origin) ∧
    origin.timers.fireTime? sleeping = some .never ∧ origin.timers.slot? rising = some s ∧
    Early (sparing (Unstirred sleeping) (invoke 3)) origin notices r ∧
    (deliveries notices).length = 2 ∧ (∀ n ∈ notices, n.fired.id ≠ sleeping) ∧
    Early (sparing (Untouched s.owner rising) (invoke 3)) origin heard r' ∧
    (deliveries heard).length = 2 ∧
    ∃ k, ((deliveries heard).filter fun d => d.1.id = rising).map Prod.snd =
        (List.range k).map (fun j => s.expire + s.period.scale j) ∧
      ∀ j < k, s.expire.attos + s.period.attos * j < Time.never.attos := by
  have runs : riserRuns = true := by decide +kernel
  obtain ⟨q, log, ran, long⟩ := Timer.rotaRuns
  have holds := firesBeforeNever Timer.rota riser
  refine ⟨⟨q, log, ran, long, (holds.1 9 q log ran).1⟩, ?_⟩
  unfold riserRuns at runs
  split at runs
  · rename_i origin started
    split at runs
    · rename_i s valid
      obtain ⟨armed, enabled, recurring, free, early, twice, twice'⟩ := of_decide_eq_true runs
      obtain ⟨-, waits, recurs⟩ := (holds.2 3 origin riserAssembled started).2 [] origin .start
      have begun : ∀ call, Early call origin [] (some origin) := fun _ => .start
      have waited := (begun (sparing (Unstirred sleeping) (invoke 3))).run early 9
      have heard := (begun (sparing (Untouched s.owner rising) (invoke 3))).run early 9
      exact ⟨origin, s, _, _, _, _, started, armed, valid, waited, twice,
        (waits sleeping armed _ _ waited).1, heard, twice',
        recurs rising s valid enabled recurring free _ _ heard⟩
    · cases runs
  · cases runs

end Machine

end Lockstep
