import Lockstep.Proofs.Completion
import Lockstep.Proofs.Conservation

/-! The steps of a history between its events: each event is where the machine has come by pops,
waits, slices, acts and resets, and a step that has no result is the last. What follows a slice or
a timer in the events is read off by inversion. -/
namespace Lockstep.Machine

inductive Strand (call : Callback) : Machine → List Event → Option Machine → Prop where
  | stuck (m : Machine) : Strand call m [] none
  | stop (m : Machine) : Strand call m [] (some m)
  | rest {m events r} (more : Strand call m events r) : Strand call m (.rest m :: events) r
  | fired {m limit timer timers m' events r} (due : m.timers.popDue limit = some (timer, timers))
      (ran : dispatch call timer { m with timers } = some ((), m'))
      (more : Strand call m' events r) : Strand call m (.fired timer { m with timers } :: events) r
  | lost {m limit timer timers} (due : m.timers.popDue limit = some (timer, timers)) :
      Strand call m [.fired timer { m with timers }] none
  | waited {m limit events r} (none : m.timers.popDue limit = none)
      (more : Strand call { m with timers := m.timers.setNow limit } events r) :
      Strand call m events r
  | slice {g : Grant} {starts m' events r}
      (ran : watchGranted call g g.machine = (starts, some ((), m')))
      (more : Strand call m' events r) : Strand call g.machine (.slice g starts :: events) r
  | broken {g : Grant} {starts} (ran : watchGranted call g g.machine = (starts, none)) :
      Strand call g.machine [.slice g starts] none
  | effect {m m' events r} (acts : Effect m m') (more : Strand call m' events r) :
      Strand call m events r
  | reset {m m' events r} (done : Machine.reset call m = some ((), m'))
      (more : Strand call m' events r) : Strand call m events r

namespace Strand
variable {call : Callback} {m m' : Machine} {events rest before after : List Event}
  {r r' : Option Machine} {e : Event}

theorem append (first : Strand call m events (some m')) (more : Strand call m' rest r) :
    Strand call m (events ++ rest) r := by
  generalize same : some m' = r' at first
  induction first with
  | stuck | lost | broken => cases same
  | stop =>
    cases same
    exact more
  | rest _ ih => exact .rest (ih same)
  | fired due ran _ ih => exact .fired due ran (ih same)
  | waited none _ ih => exact .waited none (ih same)
  | slice ran _ ih => exact .slice ran (ih same)
  | effect acts _ ih => exact .effect acts (ih same)
  | reset done _ ih => exact .reset done (ih same)

theorem from_ (h : Strand call m (before ++ e :: after) r) :
    ∃ m', Strand call m' (e :: after) r := by
  generalize same : before ++ e :: after = events at h
  induction h generalizing before with
  | stuck | stop => simp at same
  | waited _ _ ih | effect _ _ ih | reset _ _ ih => exact ih same
  | rest more ih =>
    cases before with
    | nil =>
      cases same
      exact ⟨_, .rest more⟩
    | cons x before => exact ih (List.cons.inj same).2
  | fired due ran more ih =>
    cases before with
    | nil =>
      cases same
      exact ⟨_, .fired due ran more⟩
    | cons x before => exact ih (List.cons.inj same).2
  | slice ran more ih =>
    cases before with
    | nil =>
      cases same
      exact ⟨_, .slice ran more⟩
    | cons x before => exact ih (List.cons.inj same).2
  | lost due =>
    cases before with
    | nil =>
      cases same
      exact ⟨_, .lost due⟩
    | cons x before => simp at same
  | broken ran =>
    cases before with
    | nil =>
      cases same
      exact ⟨_, .broken ran⟩
    | cons x before => simp at same

theorem sliceInv {g : Grant} {starts : List Start}
    (h : Strand call m (.slice g starts :: after) r) :
    starts = (watchGranted call g g.machine).1 ∧ (after ≠ [] →
      ∃ m', (watchGranted call g).result g.machine = some ((), m') ∧ Strand call m' after r) := by
  generalize same : .slice g starts :: after = events at h
  induction h with
  | stuck | stop | rest | fired | lost => cases same
  | waited _ _ ih | effect _ _ ih | reset _ _ ih => exact ih same
  | slice ran more =>
    cases same
    refine ⟨congrArg Prod.fst ran.symm, fun _ => ⟨_, congrArg Prod.snd ran, more⟩⟩
  | broken ran =>
    cases same
    exact ⟨congrArg Prod.fst ran.symm, fun more => absurd rfl more⟩

end Strand

section
variable {call : Callback} {m : Machine} {events : List Event}

theorem watchedStrand {target : Time} {r : Option (Unit × Machine)}
    (watched : Watched call target m events r) : Strand call m events (r.map Prod.snd) := by
  induction watched with
  | stuck => exact .stuck _
  | lost due _ => exact .rest (.lost due)
  | fires due ran _ ih => exact .rest (.fired due ran ih)
  | rests quiet _ => exact .rest (.waited quiet (.rest (.stop _)))
  | breaks next ran => exact .rest (.waited next.quiet (.broken (g := next.grant) ran))
  | slices next ran _ ih => exact .rest (.waited next.quiet (.slice (g := next.grant) ran ih))

theorem historyStrand {r : Option Machine} (h : History call m events r) :
    Strand call m events r := by
  induction h with
  | start => exact .rest (.stop m)
  | effect _ acts ih => exact ih.append (.effect acts (.rest (.stop _)))
  | reset _ done ih => exact ih.append (.reset done (.rest (.stop _)))
  | @run events a target fuel _ ih =>
    exact ih.append (watchedStrand (untilWatched call target fuel a))

end

section
variable {call : Callback} (calls : ∀ s m, Acts (call s) m) {m : Machine} {events : List Event}
  {r : Option Machine}
include calls

theorem strandNow (sound : m.timers.Sound) (h : Strand call m events r) {timer : Timer.Fired}
    {s : Machine} (mem : .fired timer s ∈ events) : s.timers.now = timer.time := by
  induction h with
  | stuck | stop => cases mem
  | rest _ ih => exact ih sound ((List.mem_cons.mp mem).resolve_left nofun)
  | fired due ran _ ih =>
    obtain ⟨sound', now, -⟩ := Timer.Queue.popInv sound due
    rcases List.mem_cons.mp mem with same | mem
    · cases same
      exact now
    · exact ih ((effectKept (dispatchActs calls _ _ _ _ ran)).sound sound') mem
  | lost due =>
    cases List.mem_singleton.mp mem
    exact (Timer.Queue.popInv sound due).2.1
  | waited none _ ih =>
    exact ih (Timer.Queue.soundSetNow sound (Timer.Queue.popNone sound.toFiled none)) mem
  | slice ran _ ih =>
    refine ih ?_ ((List.mem_cons.mp mem).resolve_left nofun)
    have sliced := (grantedSlice call _).symm.trans (congrArg Prod.snd ran)
    exact sliceSound calls sound sliced
  | broken => cases List.mem_singleton.mp mem
  | effect acts _ ih => exact ih ((effectKept acts).sound sound) mem
  | reset done _ ih => exact ih ((resetKept calls done).sound sound) mem

theorem strandForward (only : m.OnlyAcc8) (sound : m.timers.Sound)
    (level : ∀ g starts, .slice g starts ∈ events → g.machine.timers.now = g.start)
    (h : Strand call m events r) : ∀ e ∈ events, Forward m e.machine := by
  induction h with
  | stuck | stop => exact fun _ mem => absurd mem List.not_mem_nil
  | rest _ ih =>
    intro e mem
    rcases List.mem_cons.mp mem with rfl | mem
    · exact .refl _
    · exact ih only sound (fun g starts mem => level g starts (List.mem_cons_of_mem _ mem)) e mem
  | @fired m _ _ timers _ _ _ due ran _ ih =>
    obtain ⟨sound', now, ahead, -⟩ := Timer.Queue.popInv sound due
    have first : Forward m { m with timers } := forwardTimers (now ▸ ahead)
    have kept := effectKept (dispatchActs calls _ _ _ _ ran)
    intro e mem
    rcases List.mem_cons.mp mem with rfl | mem
    · exact first
    · have both := first.trans kept.toForward
      exact both.trans (ih (both.acc8 only) (kept.sound sound')
        (fun g starts mem => level g starts (List.mem_cons_of_mem _ mem)) e mem)
  | lost due =>
    obtain ⟨-, now, ahead, -⟩ := Timer.Queue.popInv sound due
    intro e mem
    cases List.mem_singleton.mp mem
    exact forwardTimers (now ▸ ahead)
  | @waited m limit _ _ none _ ih =>
    have sound' := Timer.Queue.soundSetNow sound (Timer.Queue.popNone sound.toFiled none)
    have first : Forward m { m with timers := m.timers.setNow limit } := by
      refine forwardTimers ?_
      rw [Timer.Queue.nowSetNow, Time.le_def, Time.attos_max]
      exact Nat.le_max_left ..
    exact fun e mem => first.trans (ih (first.acc8 only) sound' level e mem)
  | @slice g starts _ _ _ ran _ ih =>
    have closes := Grant.grantedCloses calls (level g starts (List.mem_cons_self ..)) (only _)
    unfold Watch.Ensures at closes
    rw [ran] at closes
    have closed := closes.2.2 _ _ rfl
    have first := forwardClosed closed
    intro e mem
    rcases List.mem_cons.mp mem with rfl | mem
    · exact .refl _
    · exact first.trans (ih (first.acc8 only) (closed.sound sound)
        (fun g starts mem => level g starts (List.mem_cons_of_mem _ mem)) e mem)
  | broken =>
    intro e mem
    cases List.mem_singleton.mp mem
    exact .refl _
  | effect acts _ ih =>
    have kept := effectKept acts
    exact fun e mem => kept.toForward.trans
      (ih (kept.toForward.acc8 only) (kept.sound sound) level e mem)
  | reset done _ ih =>
    have kept := resetKept calls done
    exact fun e mem => kept.toForward.trans
      (ih (kept.toForward.acc8 only) (kept.sound sound) level e mem)

end

end Lockstep.Machine
