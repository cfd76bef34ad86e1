import Lockstep.Proofs.Recorder

/-! A run pass by pass. Each pass calls the owner of a timer that is due, or runs the processor
that is least advanced, or finds that nothing is left to do up to the target. As with slices, a pass
with notes is written once, and a diary says what is noted of it. -/
namespace Lockstep

namespace Machine
variable {m : Machine} {target : Time}

theorem earliestNone {rows : List (Nat × Time)} (h : earliest? rows = none) : rows = [] := by
  cases rows with
  | nil => rfl
  | cons row rest =>
    unfold earliest? at h
    split at h
    · split at h <;> cases h
    · cases h

theorem earliestLeast {rows : List (Nat × Time)} {best : Nat × Time}
    (h : earliest? rows = some best) : best ∈ rows ∧ ∀ row ∈ rows, best.2 ≤ row.2 := by
  induction rows generalizing best with
  | nil => cases h
  | cons head rest ih =>
    unfold earliest? at h
    cases tail : earliest? rest with
    | none =>
      rw [tail] at h
      cases h
      obtain rfl := earliestNone tail
      refine ⟨List.mem_singleton_self _, fun row mem => ?_⟩
      cases List.mem_singleton.mp mem
      exact Nat.le_refl _
    | some other =>
      rw [tail] at h
      obtain ⟨mem, least⟩ := ih tail
      dsimp only at h
      split at h
      · rename_i sooner
        cases h
        refine ⟨List.mem_cons_of_mem _ mem, fun row mem => ?_⟩
        rcases List.mem_cons.mp mem with rfl | mem
        · exact Nat.le_of_lt sooner
        · exact least row mem
      · rename_i later
        cases h
        refine ⟨List.mem_cons_self .., fun row mem => ?_⟩
        rcases List.mem_cons.mp mem with rfl | mem
        · exact Nat.le_refl _
        · exact Nat.le_trans (Nat.le_of_not_lt later) (least row mem)

theorem memLive {i : Nat} {time : Time} :
    (i, time) ∈ m.liveUnits ↔ ∃ p, m.units[i]? = some p ∧ p.isLive = true ∧ p.localTime = time := by
  unfold liveUnits
  simp only [List.mem_filterMap, Prod.exists, List.mem_zipIdx_iff_getElem?, Array.getElem?_toList,
    Option.ite_none_right_eq_some, Option.some.injEq, Prod.mk.injEq]
  constructor
  · rintro ⟨p, j, found, live, rfl, time⟩
    exact ⟨p, found, live, time⟩
  · rintro ⟨p, found, live, time⟩
    exact ⟨p, i, found, live, rfl, time⟩

theorem leastInv {i : Nat} {time : Time} (h : m.leastAdvanced? = some (i, time)) :
    (∃ p, m.units[i]? = some p ∧ p.isLive = true ∧ p.localTime = time) ∧
      ∀ {j : Nat} {q : Processor}, m.units[j]? = some q → q.isLive = true → time ≤ q.localTime := by
  obtain ⟨mem, least⟩ := earliestLeast h
  exact ⟨memLive.mp mem, fun {j q} found live => least _ (memLive.mpr ⟨q, found, live, rfl⟩)⟩

theorem leastNone (h : m.leastAdvanced? = none) {i : Nat} {p : Processor}
    (found : m.units[i]? = some p) : p.isLive ≠ true := by
  intro live
  have mem : (i, p.localTime) ∈ m.liveUnits := memLive.mpr ⟨p, found, live, rfl⟩
  rw [earliestNone h] at mem
  cases mem

def horizon (m : Machine) (target : Time) : Time :=
  m.leastAdvanced?.elim target fun row => min row.2 target

theorem horizonTarget (m : Machine) (target : Time) : m.horizon target ≤ target := by
  unfold horizon
  cases m.leastAdvanced? with
  | none => exact Nat.le_refl _
  | some row =>
    rw [Option.elim_some, Time.le_def, Time.attos_min]
    exact Nat.min_le_right ..

theorem horizonLive (target : Time) {i : Nat} {p : Processor} (found : m.units[i]? = some p)
    (live : p.isLive = true) : m.horizon target ≤ p.localTime := by
  unfold horizon
  cases least : m.leastAdvanced? with
  | none => exact absurd live (leastNone least found)
  | some row =>
    have early := (leastInv least).2 found live
    simp only [Option.elim, Time.le_def, Time.attos_min] at *
    omega

theorem horizonLevel (level : ∀ {i : Nat} {p : Processor}, m.units[i]? = some p →
    p.isLive = true → target ≤ p.localTime) : m.horizon target = target := by
  unfold horizon
  cases least : m.leastAdvanced? with
  | none => rfl
  | some row =>
    obtain ⟨⟨p, found, live, here⟩, -⟩ := leastInv least
    have level := level found live
    rw [here] at level
    apply Time.ext
    simp only [Time.le_def, Option.elim, Time.attos_min] at *
    omega

theorem horizonLeast {unit : Nat} {time : Time} (least : m.leastAdvanced? = some (unit, time))
    (before : time < target) : m.horizon target = time := by
  unfold horizon
  rw [least]
  apply Time.ext
  simp only [Time.lt_def, Option.elim, Time.attos_min] at *
  omega

def pass (call : Callback) (target : Time) : Run Bool := do
  let m ← get
  let pick := m.leastAdvanced?
  let limit := pick.elim target fun (_, localTime) => min localTime target
  match m.timers.popDue limit with
  | some (fired, timers) =>
      set { m with timers }
      dispatch call fired
      return true
  | none =>
      set { m with timers := m.timers.setNow limit }
      match pick with
      | none => return false
      | some (unit, localTime) =>
          if target ≤ localTime then return false
          runSlice call unit target
          return true

theorem untilPass (call : Callback) (target : Time) (fuel : Nat) :
    runUntil call target (fuel + 1) = do
      if ← pass call target then runUntil call target fuel else return := by
  rw [runUntil, pass]
  simp only [bind_assoc]
  refine bind_congr fun m => ?_
  cases m.timers.popDue (m.leastAdvanced?.elim target fun row => min row.2 target) with
  | some row => simp only [bind_assoc, pure_bind, if_true]
  | none =>
    simp only [bind_assoc]
    refine bind_congr fun _ => ?_
    cases m.leastAdvanced? with
    | none => rfl
    | some row =>
      dsimp only
      split
      · rfl
      · simp only [bind_assoc, pure_bind, if_true]

/-- The processor that a pass runs: the least advanced one, before the target, with no timer
due before it. -/
structure Next (target : Time) (m : Machine) (unit : Nat) (p : Processor) : Prop where
  found : m.units[unit]? = some p
  least : m.leastAdvanced? = some (unit, p.localTime)
  before : p.localTime < target
  quiet : m.timers.popDue p.localTime = none

namespace Next
variable {unit : Nat} {p : Processor} (next : Next target m unit p)
include next

theorem live : p.isLive = true := by
  obtain ⟨⟨q, found, live, -⟩, -⟩ := leastInv next.least
  rw [next.found] at found
  cases found
  exact live

theorem behind {i : Nat} {q : Processor} (found : m.units[i]? = some q) (live : q.isLive = true) :
    p.localTime ≤ q.localTime :=
  (leastInv next.least).2 found live

theorem horizon : m.horizon target = p.localTime := horizonLeast next.least next.before

end Next

theorem nextOf {unit : Nat} {time : Time} (least : m.leastAdvanced? = some (unit, time))
    (before : time < target) (quiet : m.timers.popDue (m.horizon target) = none) :
    ∃ p, p.localTime = time ∧ Next target m unit p := by
  obtain ⟨⟨p, found, -, rfl⟩, -⟩ := leastInv least
  rw [horizonLeast least before] at quiet
  exact ⟨p, rfl, found, least, before, quiet⟩

def Next.grant {unit : Nat} {p : Processor} (next : Next target m unit p) : Grant :=
  ⟨{ m with timers := m.timers.setNow p.localTime }, unit, target, p, next.found⟩

inductive Pass (call : Callback) (target : Time) (m : Machine) : Bool → Machine → Prop where
  | fires {fired timers m'} (due : m.timers.popDue (m.horizon target) = some (fired, timers))
      (ran : dispatch call fired { m with timers } = some ((), m')) : Pass call target m true m'
  | rests (quiet : m.timers.popDue target = none)
      (level : ∀ {i : Nat} {p : Processor}, m.units[i]? = some p → p.isLive = true →
        target ≤ p.localTime) :
      Pass call target m false { m with timers := m.timers.setNow target }
  | slices {unit p m'} (next : Next target m unit p)
      (ran : runSlice call unit target next.grant.machine = some ((), m')) :
      Pass call target m true m'

end Machine

/-- A point between slices, a timer that is taken off the queue and a timer whose owner is called. -/
inductive Occasion where
  | rest (machine : Machine)
  | fired (timer : Timer.Fired) (machine : Machine)
  | delivered (timer : Timer.Fired) (machine : Machine)

/-- Who notes what around slices, and what carries out callbacks and slices meanwhile. -/
structure Diary (ω : Type) where
  pen : Occasion → List ω
  call : Script → Watch ω Reply
  slice : (unit : Nat) → (target : Time) → Watch ω Unit

namespace Diary
open Machine
open Watch (of jot)
variable {ω : Type}

section
variable (d : Diary ω)

def mark (occasion : Machine → Occasion) : Watch ω PUnit := jot fun m => d.pen (occasion m)

def dispatch (fired : Timer.Fired) : Watch ω Unit := do
  of (modify fun m => (m.count (·.timer)).trace (.timerFired fired.owner fired.param fired.time))
  let m ← of get
  match m.idle fired.owner with
  | .error _ => return
  | .ok device =>
      d.mark (.delivered fired)
      of (modify (·.setBusy fired.owner true))
      match device with
      | .peripheral p => discard (d.call (p.timer fired (m.position? fired.id)))
      | _ => pure ()
      of (modify (·.setBusy fired.owner false))

def pass (target : Time) : Watch ω Bool := do
  d.mark .rest
  let m ← of get
  let pick := m.leastAdvanced?
  let limit := pick.elim target fun (_, localTime) => min localTime target
  match m.timers.popDue limit with
  | some (fired, timers) =>
      of (set { m with timers })
      d.mark (.fired fired)
      d.dispatch fired
      return true
  | none =>
      of (set { m with timers := m.timers.setNow limit })
      match pick with
      | none => return false
      | some (unit, localTime) =>
          if target ≤ localTime then return false
          d.slice unit target
          return true

def run (target : Time) : (fuel : Nat) → Watch ω Unit
  | 0 => of fun _ => none
  | fuel + 1 => do
      if ← d.pass target then run target fuel else d.mark .rest

end

structure Follows (d : Diary ω) (call : Callback) : Prop where
  calls : ∀ s, (d.call s).result = call s
  slice : ∀ unit target, (d.slice unit target).result = runSlice call unit target

section
open Watch (resultCongr resultGet resultDiscard resultJotted)
variable {d : Diary ω} {call : Callback} (follows : d.Follows call)
include follows

theorem dispatchResult (fired : Timer.Fired) : (d.dispatch fired).result = Machine.dispatch call fired := by
  refine resultCongr rfl fun _ => resultGet fun m => ?_
  cases m.idle fired.owner with
  | error e => rfl
  | ok device =>
    refine resultJotted (resultCongr rfl fun _ => ?_)
    cases device with
    | peripheral p => exact resultCongr (resultDiscard (follows.calls _)) fun _ => rfl
    | acc8 | sequencer => rfl

theorem passResult (target : Time) : (d.pass target).result = Machine.pass call target := by
  refine resultJotted (resultGet fun m => ?_)
  dsimp only
  cases m.timers.popDue (m.leastAdvanced?.elim target fun row => min row.2 target) with
  | some row =>
    refine resultCongr rfl fun _ => resultJotted ?_
    exact resultCongr (dispatchResult follows _) fun _ => rfl
  | none =>
    refine resultCongr rfl fun _ => ?_
    cases m.leastAdvanced? with
    | none => rfl
    | some row =>
      dsimp only
      split
      · rfl
      · exact resultCongr (follows.slice ..) fun _ => rfl

theorem runResult (target : Time) (fuel : Nat) :
    (d.run target fuel).result = runUntil call target fuel := by
  induction fuel with
  | zero => rfl
  | succ fuel ih =>
    rw [untilPass]
    refine resultCongr (passResult follows target) fun on => ?_
    cases on with
    | true => exact ih
    | false => rfl

end

/-! What a dispatch and a pass note, and where a pass ends. -/

theorem dispatchNotes {d : Diary ω} (quiet : ∀ s m, (d.call s m).1 = []) (fired : Timer.Fired)
    {m m₁ : Machine} (counted : m₁ = (m.count (·.timer)).trace
      (.timerFired fired.owner fired.param fired.time)) : (d.dispatch fired m).1 =
        match m₁.idle fired.owner with
        | .ok _ => d.pen (.delivered fired m₁)
        | .error _ => [] := by
  subst counted
  unfold dispatch
  rw [Watch.modifyBind, Watch.getBind]
  cases Machine.idle _ fired.owner with
  | error e => rfl
  | ok device =>
    refine Watch.bindQuiet fun _ m => ?_
    rw [Watch.modifyBind]
    cases device with
    | peripheral p => exact (Watch.bindQuiet fun _ _ => rfl).trans ((Watch.bindQuiet fun _ _ => rfl).trans
        (quiet ..))
    | acc8 | sequencer => rfl

inductive Passes (d : Diary ω) (target : Time) (m : Machine) : List ω → Option (Bool × Machine) → Prop where
  | lost {fired timers notes} (due : m.timers.popDue (m.horizon target) = some (fired, timers))
      (lost : d.dispatch fired { m with timers } = (notes, none)) :
      Passes d target m (d.pen (.rest m) ++ (d.pen (.fired fired { m with timers }) ++ notes)) none
  | fires {fired timers notes u m'} (due : m.timers.popDue (m.horizon target) = some (fired, timers))
      (ran : d.dispatch fired { m with timers } = (notes, some (u, m'))) :
      Passes d target m (d.pen (.rest m) ++ (d.pen (.fired fired { m with timers }) ++ notes))
        (some (true, m'))
  | rests (quiet : m.timers.popDue target = none)
      (level : ∀ {i : Nat} {p : Processor}, m.units[i]? = some p → p.isLive = true →
        target ≤ p.localTime) :
      Passes d target m (d.pen (.rest m)) (some (false, { m with timers := m.timers.setNow target }))
  | breaks {unit p notes} (next : Next target m unit p)
      (lost : d.slice unit target next.grant.machine = (notes, none)) :
      Passes d target m (d.pen (.rest m) ++ notes) none
  | slices {unit p notes u m'} (next : Next target m unit p)
      (ran : d.slice unit target next.grant.machine = (notes, some (u, m'))) :
      Passes d target m (d.pen (.rest m) ++ notes) (some (true, m'))

theorem passEnsures (d : Diary ω) (target : Time) (m : Machine) :
    (d.pass target).Ensures m (d.Passes target m) := by
  have goesOn : ∀ {w : Watch ω Unit} {m : Machine} {post : List ω → Option (Bool × Machine) → Prop},
      (∀ notes, w m = (notes, none) → post notes none) →
      (∀ notes u m', w m = (notes, some (u, m')) → post notes (some (true, m'))) →
      (w >>= fun _ => pure true).Ensures m post := by
    intro w m post lost ran
    refine Watch.ensuresBind (fun none => lost _ (Prod.ext rfl none)) fun u m' done => ?_
    change post ((w m).1 ++ []) _
    rw [List.append_nil]
    exact ran _ u m' (Prod.ext rfl done)
  refine Watch.ensuresJot (Watch.ensuresGet ?_)
  dsimp only
  rw [show (m.leastAdvanced?.elim target fun row => min row.2 target) = m.horizon target from rfl]
  cases popped : m.timers.popDue (m.horizon target) with
  | some row =>
    obtain ⟨fired, timers⟩ := row
    refine Watch.ensuresOf (fun h => by cases h) fun _ m₁ moved => ?_
    cases moved
    exact Watch.ensuresJot (goesOn (fun _ => .lost popped) fun _ _ _ => .fires popped)
  | none =>
    refine Watch.ensuresOf (fun h => by cases h) fun _ m₁ moved => ?_
    cases moved
    have rested : (∀ {i : Nat} {p : Processor}, m.units[i]? = some p → p.isLive = true →
        target ≤ p.localTime) → d.Passes target m (d.pen (.rest m) ++ [])
          (some (false, { m with timers := m.timers.setNow (m.horizon target) })) := by
      intro level
      have here := horizonLevel level
      rw [here] at popped ⊢
      rw [List.append_nil]
      exact .rests popped level
    cases least : m.leastAdvanced? with
    | none => exact rested fun found live => absurd live (leastNone least found)
    | some row =>
      obtain ⟨unit, time⟩ := row
      dsimp only
      split
      · rename_i reached
        exact rested fun found live => Nat.le_trans reached ((leastInv least).2 found live)
      · rename_i early
        obtain ⟨p, rfl, next⟩ := nextOf least (Nat.lt_of_not_le early) popped
        rw [next.horizon]
        exact goesOn (fun _ => .breaks next) fun _ _ _ => .slices next

def silent (call : Callback) : Diary Empty where
  pen _ := []
  call s := of (call s)
  slice unit target := of (runSlice call unit target)

theorem silentFollows (call : Callback) : (silent call).Follows call := ⟨fun _ => rfl, fun _ _ => rfl⟩

end Diary

namespace Machine
variable {m : Machine} {target : Time}

theorem passInv {call : Callback} {on : Bool} {m' : Machine}
    (ran : pass call target m = some (on, m')) : Pass call target m on m' := by
  have follows := Diary.silentFollows call
  have passes := (Diary.silent call).passEnsures target m
  unfold Watch.Ensures at passes
  rw [show ((Diary.silent call).pass target m).2 = some (on, m') from
    (congrFun (Diary.passResult follows target) m).trans ran] at passes
  generalize ((Diary.silent call).pass target m).1 = notes at passes
  cases passes with
  | fires due ran =>
    exact .fires due ((congrFun (Diary.dispatchResult follows _) _).symm.trans (congrArg Prod.snd ran))
  | rests quiet level => exact .rests quiet level
  | slices next ran => exact .slices next (congrArg Prod.snd ran)

theorem untilPasses {call : Callback} {P : Machine → Machine → Prop}
    (last : ∀ {m m'}, Pass call target m false m' → P m m')
    (onward : ∀ {m m₁ m'}, Pass call target m true m₁ → P m₁ m' → P m m') {fuel : Nat} {u : Unit}
    {m' : Machine} (ran : runUntil call target fuel m = some (u, m')) : P m m' := by
  induction fuel generalizing m with
  | zero => cases ran
  | succ fuel ih =>
    rw [untilPass] at ran
    obtain ⟨on, m₁, first, rest⟩ := Run.bindInv ran
    cases on with
    | true => exact onward (passInv first) (ih rest)
    | false =>
      cases rest
      exact last (passInv first)

end Machine

/-- What happens around slices: a point between them, a timer about to be dispatched, a
slice with what starts in it. -/
inductive Event where
  | rest (machine : Machine)
  | fired (timer : Timer.Fired) (machine : Machine)
  | slice (grant : Grant) (starts : List Start)

def Event.machine : Event → Machine
  | .rest machine => machine
  | .fired _ machine => machine
  | .slice grant _ => grant.machine

def Occasion.event : Occasion → List Event
  | .rest m => [.rest m]
  | .fired timer m => [.fired timer m]
  | .delivered .. => []

def Diary.events (call : Callback) : Diary Event where
  pen := Occasion.event
  call s := .of (call s)
  slice := Recorder.sliceWith fun g => (Machine.watchGranted call g).gather (.slice g)

theorem Diary.eventsFollow (call : Callback) : (Diary.events call).Follows call :=
  ⟨fun _ => rfl, Recorder.sliceResult (Recorder.startsFollow call) fun _ => rfl⟩

namespace Machine
variable {m : Machine} {target : Time}

def watchUntil (call : Callback) (target : Time) (fuel : Nat) : Watch Event Unit :=
  (Diary.events call).run target fuel

theorem watchUntilResult (call : Callback) (target : Time) (fuel : Nat) :
    (watchUntil call target fuel).result = runUntil call target fuel :=
  Diary.runResult (Diary.eventsFollow call) target fuel

inductive Watched (call : Callback) (target : Time) :
    Machine → List Event → Option (Unit × Machine) → Prop where
  | stuck {m : Machine} : Watched call target m [] none
  | lost {m : Machine} {fired timers} (due : m.timers.popDue (m.horizon target) = some (fired, timers))
      (lost : dispatch call fired { m with timers } = none) :
      Watched call target m [.rest m, .fired fired { m with timers }] none
  | fires {m : Machine} {fired timers u m₁ events r}
      (due : m.timers.popDue (m.horizon target) = some (fired, timers))
      (ran : dispatch call fired { m with timers } = some (u, m₁))
      (more : Watched call target m₁ events r) :
      Watched call target m (.rest m :: .fired fired { m with timers } :: events) r
  | rests {m : Machine} (quiet : m.timers.popDue target = none)
      (level : ∀ {i : Nat} {p : Processor}, m.units[i]? = some p → p.isLive = true →
        target ≤ p.localTime) :
      Watched call target m [.rest m, .rest { m with timers := m.timers.setNow target }]
        (some ((), { m with timers := m.timers.setNow target }))
  | breaks {m : Machine} {unit p starts} (next : Next target m unit p)
      (ran : watchGranted call next.grant next.grant.machine = (starts, none)) :
      Watched call target m [.rest m, .slice next.grant starts] none
  | slices {m : Machine} {unit p starts u m₁ events r} (next : Next target m unit p)
      (ran : watchGranted call next.grant next.grant.machine = (starts, some (u, m₁)))
      (more : Watched call target m₁ events r) :
      Watched call target m (.rest m :: .slice next.grant starts :: events) r

theorem eventsDispatch (call : Callback) (fired : Timer.Fired) :
    (Diary.events call).dispatch fired = .of (dispatch call fired) := by
  have unmarked : (Diary.events call).mark (.delivered fired) = pure ⟨⟩ := rfl
  unfold Diary.dispatch dispatch
  rw [unmarked, Watch.ofBind]
  refine bind_congr fun _ => ?_
  rw [Watch.ofBind]
  refine bind_congr fun m => ?_
  cases m.idle fired.owner with
  | error e => rfl
  | ok device => cases device <;> simp only [pure_bind, Watch.ofBind, Watch.ofDiscard] <;> rfl

theorem eventsSlice {call : Callback} {unit : Nat} {target : Time} {m : Machine} {p : Processor}
    {events : List Event} {r : Option (Unit × Machine)} (next : Next target m unit p)
    (ran : (Diary.events call).slice unit target next.grant.machine = (events, r)) :
    ∃ starts, events = [.slice next.grant starts] ∧
      watchGranted call next.grant next.grant.machine = (starts, r) := by
  have found := Recorder.sliceFound (fun g => (watchGranted call g).gather (Event.slice g)) target
    next.grant.found
  obtain ⟨rfl, done⟩ := Prod.mk.inj (found.symm.trans ran)
  exact ⟨_, rfl, Prod.ext rfl done⟩

theorem untilEnsures (call : Callback) (target : Time) (fuel : Nat) (m : Machine) :
    (watchUntil call target fuel).Ensures m (Watched call target m) := by
  induction fuel generalizing m with
  | zero => exact .stuck
  | succ fuel ih =>
    refine Watch.ensuresThen ((Diary.events call).passEnsures target m) (fun notes passes => ?_)
      fun notes on m₁ passes => ?_
    · cases passes with
      | lost due lost =>
        rw [eventsDispatch] at lost
        obtain ⟨rfl, none⟩ := Prod.mk.inj lost
        exact .lost due none
      | breaks next lost =>
        obtain ⟨starts, rfl, broken⟩ := eventsSlice next lost
        exact .breaks next broken
    · cases passes with
      | fires due ran =>
        rw [eventsDispatch] at ran
        obtain ⟨rfl, done⟩ := Watch.ofInv ran
        exact Watch.ensuresMono (ih m₁) fun _ _ more => .fires due done more
      | rests quiet level => exact .rests quiet level
      | slices next ran =>
        obtain ⟨starts, rfl, done⟩ := eventsSlice next ran
        exact Watch.ensuresMono (ih m₁) fun _ _ more => .slices next done more

theorem untilWatched (call : Callback) (target : Time) (fuel : Nat) (m : Machine) :
    Watched call target m (watchUntil call target fuel m).1 (runUntil call target fuel m) := by
  rw [← watchUntilResult call target fuel]
  exact untilEnsures call target fuel m

end Machine

end Lockstep
