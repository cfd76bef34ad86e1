import Lockstep.Proofs.History
import Lockstep.Proofs.Machinery

/-! What a scheduler does with the timers of a machine: what it pops, what it delivers and when.
Seen from the timers, what hosts, callbacks and processors do between two pops is a lull: it pops
nothing, and the clock and whatever it is asked to spare stay as they are. -/
namespace Lockstep

inductive Notice where
  | popped (fired : Timer.Fired)
  | delivered (fired : Timer.Fired) (time : Time)
  deriving DecidableEq

def Notice.popped? : Notice → Option Timer.Fired
  | .popped fired => some fired
  | .delivered .. => none

def Notice.delivered? : Notice → Option (Timer.Fired × Time)
  | .popped _ => none
  | .delivered fired time => some (fired, time)

def pops (notices : List Notice) : List Timer.Fired := notices.filterMap Notice.popped?

def deliveries (notices : List Notice) : List (Timer.Fired × Time) :=
  notices.filterMap Notice.delivered?

def Occasion.notice : Occasion → List Notice
  | .rest _ => []
  | .fired timer _ => [.popped timer]
  | .delivered timer m => [.delivered timer m.now]

def Diary.notices (call : Callback) : Diary Notice where
  pen := Occasion.notice
  call s := .of (call s)
  slice unit target := .of (Machine.runSlice call unit target)

theorem Diary.noticesFollow (call : Callback) : (notices call).Follows call :=
  ⟨fun _ => rfl, fun _ _ => rfl⟩

namespace Machine
open Watch (of)

def noteDispatch (call : Callback) (fired : Timer.Fired) : Watch Notice Unit :=
  (Diary.notices call).dispatch fired

def noteUntil (call : Callback) (target : Time) (fuel : Nat) : Watch Notice Unit :=
  (Diary.notices call).run target fuel

theorem noteDispatchResult (call : Callback) (fired : Timer.Fired) :
    (noteDispatch call fired).result = dispatch call fired :=
  Diary.dispatchResult (Diary.noticesFollow call) fired

theorem noteUntilResult (call : Callback) (target : Time) (fuel : Nat) :
    (noteUntil call target fuel).result = runUntil call target fuel :=
  Diary.runResult (Diary.noticesFollow call) target fuel

inductive Announced (call : Callback) (target : Time) :
    Machine → List Notice → Option (Unit × Machine) → Prop where
  | stuck {m : Machine} : Announced call target m [] none
  | lost {m : Machine} {fired timers notices}
      (due : m.timers.popDue (m.horizon target) = some (fired, timers))
      (ran : noteDispatch call fired { m with timers } = (notices, none)) :
      Announced call target m (.popped fired :: notices) none
  | fires {m : Machine} {fired timers notices u m₁ more r}
      (due : m.timers.popDue (m.horizon target) = some (fired, timers))
      (ran : noteDispatch call fired { m with timers } = (notices, some (u, m₁)))
      (rest : Announced call target m₁ more r) :
      Announced call target m (.popped fired :: (notices ++ more)) r
  | rests {m : Machine} (quiet : m.timers.popDue target = none) :
      Announced call target m [] (some ((), { m with timers := m.timers.setNow target }))
  | slices {m : Machine} {unit p u m₁ notices r} (next : Next target m unit p)
      (ran : runSlice call unit target next.grant.machine = some (u, m₁))
      (rest : Announced call target m₁ notices r) : Announced call target m notices r

theorem noteEnsures (call : Callback) (target : Time) (fuel : Nat) (m : Machine) :
    (noteUntil call target fuel).Ensures m (Announced call target m) := by
  induction fuel generalizing m with
  | zero => exact .stuck
  | succ fuel ih =>
    refine Watch.ensuresThen ((Diary.notices call).passEnsures target m) (fun notes passes => ?_)
      fun notes on m₁ passes => ?_
    · cases passes with
      | lost due lost => exact .lost due lost
      | breaks next lost =>
        obtain ⟨rfl, -⟩ := Prod.mk.inj lost
        exact .stuck
    · cases passes with
      | fires due ran => exact Watch.ensuresMono (ih m₁) fun _ _ more => .fires due ran more
      | rests quiet => exact .rests quiet
      | slices next ran =>
        obtain ⟨rfl, sliced⟩ := Watch.ofInv ran
        exact Watch.ensuresMono (ih m₁) fun _ _ more => .slices next sliced more

theorem untilAnnounced (call : Callback) (target : Time) (fuel : Nat) (m : Machine) :
    Announced call target m (noteUntil call target fuel m).1 (runUntil call target fuel m) := by
  rw [← noteUntilResult call target fuel]
  exact noteEnsures call target fuel m

inductive Move : Machine → Machine → Prop where
  | act {m m'} (h : Act m m') : Move m m'
  | quiet {m m'} (h : Quiet m m') : Move m m'
  | pop {m limit fired timers} (h : m.timers.popDue limit = some (fired, timers)) :
      Move m { m with timers }
  | wait {m limit} (h : m.timers.popDue limit = none) :
      Move m { m with timers := m.timers.setNow limit }

def Motion : Machine → Machine → Prop := Relation.ReflTransGen Move

def sparing (R : Machine → Machine → Prop) [DecidableRel R] (call : Callback) : Callback :=
  fun script m => (call script m).filter fun r => decide (R m r.2)

def Returned (owner : DeviceId) (a b : Machine) : Prop := b.busyAt owner = a.busyAt owner

instance (owner : DeviceId) : DecidableRel (Returned owner) := fun _ _ => by
  unfold Returned; infer_instance

def Untouched (owner : DeviceId) (id : Timer.Id) (a b : Machine) : Prop :=
  Returned owner a b ∧ b.timers.slot? id = a.timers.slot? id

instance (owner : DeviceId) (id : Timer.Id) : DecidableRel (Untouched owner id) := fun _ _ => by
  unfold Untouched; infer_instance

/-- What a host has a machine do, with all notices, and where that ends if it has a result. -/
inductive Course (call : Callback) (origin : Machine) : List Notice → Option Machine → Prop where
  | start : Course call origin [] (some origin)
  | script {notices m} (script : Script) : Course call origin notices (some m) →
      Course call origin notices ((call script m).map Prod.snd)
  | sink {notices m} (name : Option String) : Course call origin notices (some m) →
      Course call origin notices (some (m.setSink name).1)
  | reset {notices m} : Course call origin notices (some m) →
      Course call origin notices ((reset call m).map Prod.snd)
  | run {notices m} (target : Time) (fuel : Nat) : Course call origin notices (some m) →
      Course call origin (notices ++ (noteUntil call target fuel m).1)
        ((runUntil call target fuel m).map Prod.snd)

theorem Course.keeps {call : Callback} {origin m : Machine} {notices : List Notice}
    {P : Machine → Prop} (course : Course call origin notices (some m)) (start : P origin)
    (script : ∀ {a b} script reply, P a → call script a = some (reply, b) → P b)
    (sink : ∀ {a} (name : Option String), P a → P (a.setSink name).1)
    (resets : ∀ {a b}, P a → Machine.reset call a = some ((), b) → P b)
    (runs : ∀ {a b} target fuel, P a → runUntil call target fuel a = some ((), b) → P b) : P m := by
  generalize same : some m = r at course
  induction course generalizing m with
  | start =>
    cases same
    exact start
  | script s _ ih =>
    obtain ⟨⟨reply, b⟩, ran, rfl⟩ := Option.map_eq_some_iff.mp same.symm
    exact script s reply (ih rfl) ran
  | sink name _ ih =>
    cases same
    exact sink name (ih rfl)
  | reset _ ih =>
    obtain ⟨⟨u, b⟩, ran, rfl⟩ := Option.map_eq_some_iff.mp same.symm
    exact resets (ih rfl) ran
  | run target fuel _ ih =>
    obtain ⟨⟨u, b⟩, ran, rfl⟩ := Option.map_eq_some_iff.mp same.symm
    exact runs target fuel (ih rfl) ran

section
variable {a b c m m' : Machine} {R : Machine → Machine → Prop}

theorem moveSound (move : Move a b) (sound : a.timers.Sound) :
    b.timers.Sound ∧ a.timers.now ≤ b.timers.now := by
  cases move with
  | act h =>
    have kept := actKept h
    exact ⟨kept.sound sound, Nat.le_of_eq (congrArg Time.attos kept.clock.symm)⟩
  | quiet h =>
    rw [h.timers]
    exact ⟨sound, Nat.le_refl _⟩
  | pop h =>
    obtain ⟨sound', now, ahead, -⟩ := Timer.Queue.popInv sound h
    exact ⟨sound', now ▸ ahead⟩
  | wait h =>
    have armed := Timer.Queue.popNone sound.toFiled h
    exact ⟨Timer.Queue.soundSetNow sound armed, (Timer.Queue.setNowEdited _).clock⟩

theorem motionSound (motion : Motion a b) (sound : a.timers.Sound) :
    b.timers.Sound ∧ a.timers.now ≤ b.timers.now := by
  induction motion with
  | refl => exact ⟨sound, Nat.le_refl _⟩
  | tail _ last ih =>
    obtain ⟨sound', later⟩ := moveSound last ih.1
    exact ⟨sound', Nat.le_trans ih.2 later⟩

theorem effectMotion (h : Effect a b) : Motion a b :=
  h.lift (fun _ => .refl) Relation.ReflTransGen.trans fun act => .single (.act act)

theorem motionDrives : Drives Motion where
  trans := Relation.ReflTransGen.trans
  quiet h := .single (.quiet h)
  lent {_ _ id _} idle inner := (inner.head (.act (.hold idle))).tail (.act (.giveBack id))

theorem returnedDrives (owner : DeviceId) : Drives (Returned owner) where
  trans first rest := rest.trans first
  quiet h := h.busy owner
  lent {a b id d} idle inner := by
    unfold Returned at *
    rw [busySet] at inner ⊢
    by_cases here : id = owner
    · subst here
      rw [if_pos rfl] at inner ⊢
      rw [busyIdle idle] at inner ⊢
      rw [inner]
      rfl
    · rw [if_neg here] at inner ⊢
      exact inner

theorem untouchedDrives (owner : DeviceId) (id : Timer.Id) : Drives (Untouched owner id) where
  trans first rest := ⟨rest.1.trans first.1, rest.2.trans first.2⟩
  quiet h := ⟨h.busy owner, by rw [h.timers]⟩
  lent idle inner := ⟨(returnedDrives owner).lent idle inner.1, inner.2⟩

theorem sparingInv [DecidableRel R] {call : Callback} {script : Script} {reply : Reply}
    (h : sparing R call script m = some (reply, m')) :
    call script m = some (reply, m') ∧ R m m' := by
  obtain ⟨ran, kept⟩ := Option.filter_eq_some_iff.mp h
  exact ⟨ran, of_decide_eq_true kept⟩

structure Lull (R : Machine → Machine → Prop) (a b : Machine) : Prop where
  motion : Motion a b
  idle : a.frame = none → b.frame = none
  kept : R a b

def heard (m : Machine) (fired : Timer.Fired) : List Notice :=
  if m.busyAt fired.owner = some false then [.delivered fired m.timers.now] else []

inductive Tale (R : Machine → Machine → Prop) : Machine → List Notice → Option Machine → Prop where
  | stop (m : Machine) : Tale R m [] (some m)
  | stuck (m : Machine) : Tale R m [] none
  | lull {m m₁ notices r} (first : Lull R m m₁) (rest : Tale R m₁ notices r) : Tale R m notices r
  | pop {m limit fired timers m₁ notices r} (due : m.timers.popDue limit = some (fired, timers))
      (after : Lull R { m with timers } m₁) (rest : Tale R m₁ notices r) :
      Tale R m (.popped fired :: heard { m with timers } fired ++ notices) r

namespace Tale
variable {notices more : List Notice} {r : Option Machine}

theorem ends (tale : Tale R m notices (some m')) (idle : m.frame = none) : m'.frame = none := by
  generalize same : some m' = r at tale
  induction tale with
  | stop m =>
    cases same
    exact idle
  | stuck => cases same
  | lull first _ ih => exact ih (first.idle idle) same
  | pop _ after _ ih => exact ih (after.idle idle) same

theorem append (tale : Tale R m notices (some m')) (rest : Tale R m' more r) :
    Tale R m (notices ++ more) r := by
  generalize same : some m' = s at tale
  induction tale with
  | stop m =>
    cases same
    exact rest
  | stuck => cases same
  | lull first _ ih => exact .lull first (ih same)
  | pop due after _ ih =>
    rw [List.append_assoc]
    exact .pop due after (ih same)

end Tale

theorem heardDispatch (call : Callback) (fired : Timer.Fired) (idle : m.frame = none) :
    (noteDispatch call fired m).1 = heard m fired := by
  unfold noteDispatch
  generalize counted : (m.count (·.timer)).trace (.timerFired fired.owner fired.param fired.time) = m₁
  rw [Diary.dispatchNotes (fun _ _ => rfl) fired counted.symm]
  obtain ⟨timers, tree, frame⟩ :=
    traceSame (m.count (·.timer)) (.timerFired fired.owner fired.param fired.time)
  rw [counted] at timers tree frame
  have busy : m₁.busyAt fired.owner = m.busyAt fired.owner := by rw [busyAt, tree]; rfl
  unfold heard
  rw [← busy]
  cases free : m₁.idle fired.owner with
  | error e =>
    rw [if_neg]
    intro free'
    obtain ⟨d, idle⟩ := idleOf free'
    rw [free] at idle
    cases idle
  | ok device =>
    have now : m₁.now = m.timers.now := by
      unfold Machine.now
      rw [show m₁.frame = none from frame.trans idle]
      exact congrArg Timer.Queue.now timers
    rw [if_pos (busyIdle free), ← now]
    rfl

theorem sliceIdle {call : Callback} {unit : Nat} {target : Time} {u : Unit}
    (h : runSlice call unit target m = some (u, m')) (idle : m.frame = none) : m'.frame = none := by
  cases found : m.units[unit]? with
  | none =>
    unfold runSlice at h
    rw [Run.getBind] at h
    simp only [found] at h
    obtain ⟨-, rfl⟩ := Run.pureInv h
    exact idle
  | some p =>
    obtain ⟨outcome, m₁, -, rfl⟩ := sliceInv (g := ⟨m, unit, target, p, found⟩) h
    cases outcome with
    | none => rfl
    | some row => exact (settleSame ..).2.2

section
variable {call : Callback} (acts : ∀ s m, Acts (call s) m)
include acts

theorem callMotion (script : Script) (m : Machine) :
    Run.Follows Motion (call script) (call script) m :=
  Run.followsSame fun r m' h => effectMotion (acts script m r m' h)

variable (keeps : ∀ s m, Run.Keeps R (call s) m)
include keeps

theorem lullScript {script : Script} {reply : Reply} (h : call script m = some (reply, m')) :
    Lull R m m' := by
  have kept := effectKept (acts script m reply m' h)
  exact ⟨(callMotion acts script m reply m' h).2, fun idle => kept.frame.trans idle,
    keeps script m reply m' h⟩

variable (drives : Drives R)
include drives

theorem lullDispatch {fired : Timer.Fired} {u : Unit} (h : dispatch call fired m = some (u, m')) :
    Lull R m m' := by
  have kept := effectKept (dispatchActs acts fired m u m' h)
  have same := fun s m => Run.followsSame (keeps s m)
  exact ⟨(motionDrives.carries.dispatch (callMotion acts) fired m u m' h).2,
    fun idle => kept.frame.trans idle, (drives.carries.dispatch same fired m u m' h).2⟩

theorem lullReset {u : Unit} (h : reset call m = some (u, m')) : Lull R m m' := by
  have same := fun s m => Run.followsSame (keeps s m)
  exact ⟨(motionDrives.carries.reset (callMotion acts) m u m' h).2,
    fun idle => (resetKept acts h).frame.trans idle, (drives.carries.reset same m u m' h).2⟩

theorem lullSlice {unit : Nat} {target : Time} {u : Unit}
    (h : runSlice call unit target m = some (u, m')) : Lull R m m' := by
  have same := fun s m => Run.followsSame (keeps s m)
  exact ⟨(motionDrives.carries.runSlice (callMotion acts) unit target m u m' h).2, sliceIdle h,
    (drives.carries.runSlice same unit target m u m' h).2⟩

variable (waits : ∀ (m : Machine) (limit : Time), R m { m with timers := m.timers.setNow limit })
include waits

theorem announcedTale {target : Time} {notices : List Notice} {r : Option (Unit × Machine)}
    (announced : Announced call target m notices r) (idle : m.frame = none) :
    Tale R m notices (r.map Prod.snd) := by
  have waited : ∀ {m : Machine} {limit : Time}, m.timers.popDue limit = none →
      Lull R m { m with timers := m.timers.setNow limit } := fun quiet =>
    ⟨.single (.wait quiet), fun h => h, waits _ _⟩
  -- An entry whose call has no result is popped and heard all the same.
  have told : ∀ {m : Machine} {fired timers notices r}, m.frame = none →
      noteDispatch call fired { m with timers } = (notices, r) →
        notices = heard { m with timers } fired ∧ dispatch call fired { m with timers } = r := by
    intro m fired timers notices r idle ran
    have first := heardDispatch (m := { m with timers }) call fired idle
    have result := congrFun (noteDispatchResult call fired) { m with timers }
    rw [ran] at first
    rw [Watch.result, ran] at result
    exact ⟨first, result.symm⟩
  induction announced with
  | stuck => exact .stuck _
  | lost due ran =>
    obtain ⟨rfl, -⟩ := told idle ran
    rw [← List.append_nil (heard ..), ← List.cons_append]
    exact .pop due ⟨.refl, fun h => h, drives.quiet (.refl _)⟩ (.stuck _)
  | fires due ran _ ih =>
    obtain ⟨rfl, result⟩ := told idle ran
    have after := lullDispatch acts keeps drives result
    exact .pop due after (ih (after.idle idle))
  | rests quiet => exact .lull (waited quiet) (.stop _)
  | slices next ran _ ih =>
    have sliced := lullSlice acts keeps drives ran
    exact .lull (waited next.quiet) (.lull sliced (ih (sliced.idle idle)))

theorem courseTale {notices : List Notice} {r : Option Machine}
    (course : Course call m notices r) (idle : m.frame = none) : Tale R m notices r := by
  have step : ∀ {notices : List Notice} {a : Machine} {α : Type} {x : Run α},
      Tale R m notices (some a) → (∀ u b, x a = some (u, b) → Lull R a b) →
        Tale R m notices ((x a).map Prod.snd) := by
    intro notices a α x tale lull
    rw [← List.append_nil notices]
    cases ran : x a with
    | none => exact tale.append (.stuck a)
    | some row => exact tale.append (.lull (lull row.1 row.2 ran) (.stop _))
  induction course with
  | start => exact .stop m
  | script script _ ih => exact step ih fun _ _ ran => lullScript acts keeps ran
  | @sink notices a name _ ih =>
    have lull : Lull R a (a.setSink name).1 :=
      ⟨.single (.act (.sink name)), fun h => h, drives.quiet (.same rfl rfl)⟩
    rw [← List.append_nil notices]
    exact ih.append (.lull lull (.stop _))
  | reset _ ih => exact step ih fun _ _ ran => lullReset acts keeps drives ran
  | @run notices a target fuel _ ih =>
    exact ih.append (announcedTale acts keeps drives waits (untilAnnounced call target fuel a) (ih.ends idle))

end

def Alike {ω α : Type} (v w : Watch ω α) (m : Machine) : Prop :=
  ∀ r, (v m).2 = some r → w m = v m

theorem alikeSame {ω α : Type} (v : Watch ω α) (m : Machine) : Alike v v m := fun _ _ => rfl

theorem alikeOf {α : Type} {x y : Run α} (h : ∀ a m', x m = some (a, m') → y m = some (a, m')) :
    Alike (of x : Watch Notice α) (of y) m := by
  intro r ran
  have same : x m = some r := ran
  change ([], y m) = ([], x m)
  rw [same, h r.1 r.2 same]

theorem alikeBind {α β : Type} {v w : Watch Notice α} {f g : α → Watch Notice β}
    (first : Alike v w m) (rest : ∀ a m', Alike (f a) (g a) m') : Alike (v >>= f) (w >>= g) m := by
  intro r ran
  change (Watch.next v f m).2 = some r at ran
  change Watch.next w g m = Watch.next v f m
  unfold Watch.next at *
  rcases row : v m with ⟨notices, _ | ⟨a, m'⟩⟩
  · rw [row] at ran
    cases ran
  · rw [row] at ran
    rw [first (a, m') (by rw [row]), row]
    dsimp only
    rw [rest a m' r ran]

section
variable {call other : Callback} (carries : Carries R)
  (calls : ∀ s m, Run.Follows R (call s) (other s) m)
include calls

theorem dispatchAlike (fired : Timer.Fired) (m : Machine) :
    Alike (noteDispatch call fired) (noteDispatch other fired) m := by
  refine alikeBind (alikeSame _ m) fun _ m => alikeBind (alikeSame _ m) fun found m => ?_
  cases found.idle fired.owner with
  | error e => exact alikeSame _ m
  | ok device =>
    refine alikeBind (alikeSame _ m) fun _ m => alikeBind (alikeSame _ m) fun _ m => ?_
    cases device with
    | peripheral p =>
      refine alikeBind (alikeBind (alikeOf fun a m' ran => ?_) fun _ m => alikeSame _ m)
        fun _ m => alikeSame _ m
      exact (calls _ m a m' ran).1
    | acc8 | sequencer => exact alikeSame _ m

include carries

theorem passAlike (target : Time) (m : Machine) :
    Alike ((Diary.notices call).pass target) ((Diary.notices other).pass target) m := by
  refine alikeBind (alikeSame _ m) fun _ m => alikeBind (alikeSame _ m) fun found m => ?_
  dsimp only
  generalize found.leastAdvanced?.elim target (fun row => min row.2 target) = limit
  cases found.timers.popDue limit with
  | some row =>
    obtain ⟨fired, timers⟩ := row
    refine alikeBind (alikeSame _ m) fun _ m => alikeBind (alikeSame _ m) fun _ m => ?_
    exact alikeBind (dispatchAlike calls fired m) fun _ m => alikeSame _ m
  | none =>
    refine alikeBind (alikeSame _ m) fun _ m => ?_
    cases found.leastAdvanced? with
    | none => exact alikeSame _ m
    | some row =>
      dsimp only
      split
      · exact alikeSame _ m
      · refine alikeBind (alikeOf fun a m' ran => ?_) fun _ m => alikeSame _ m
        exact (carries.runSlice calls row.1 target m a m' ran).1

theorem untilAlike (target : Time) (fuel : Nat) (m : Machine) :
    Alike (noteUntil call target fuel) (noteUntil other target fuel) m := by
  induction fuel generalizing m with
  | zero => exact alikeSame _ m
  | succ fuel ih =>
    unfold noteUntil Diary.run
    refine alikeBind (passAlike carries calls target m) fun on m => ?_
    cases on with
    | true =>
      rw [if_pos rfl, if_pos rfl]
      exact ih m
    | false =>
      rw [if_neg Bool.false_ne_true, if_neg Bool.false_ne_true]
      exact alikeSame _ m

theorem courseAlike {notices : List Notice} (course : Course call m notices (some m')) :
    Course other m notices (some m') := by
  generalize same : some m' = r at course
  induction course generalizing m' with
  | start => exact .start
  | @script notices a script _ ih =>
    obtain ⟨⟨reply, b⟩, ran, rfl⟩ := Option.map_eq_some_iff.mp same.symm
    have step := Course.script script (ih rfl)
    rw [(calls script a reply b ran).1] at step
    rw [ran]
    exact step
  | sink name _ ih => exact .sink name (ih rfl)
  | @reset notices a _ ih =>
    obtain ⟨⟨u, b⟩, ran, rfl⟩ := Option.map_eq_some_iff.mp same.symm
    have step := Course.reset (ih rfl)
    rw [(carries.reset calls a u b ran).1] at step
    rw [ran]
    exact step
  | @run notices a target fuel _ ih =>
    obtain ⟨⟨u, b⟩, ran, rfl⟩ := Option.map_eq_some_iff.mp same.symm
    have first : (noteUntil call target fuel a).2 = runUntil call target fuel a :=
      congrFun (noteUntilResult call target fuel) a
    have second : (noteUntil other target fuel a).2 = runUntil other target fuel a :=
      congrFun (noteUntilResult other target fuel) a
    have alike := untilAlike carries calls target fuel a (u, b) (first.trans ran)
    have step := Course.run target fuel (ih rfl)
    rw [← second, alike, first] at step
    exact step

end

theorem courseFollows {call other : Callback} (drives : Drives R)
    (calls : ∀ s m, Run.Follows R (call s) (other s) m) {notices : List Notice}
    (course : Course call m notices (some m')) : Course other m notices (some m') :=
  courseAlike drives.carries calls course

end

end Machine

end Lockstep
