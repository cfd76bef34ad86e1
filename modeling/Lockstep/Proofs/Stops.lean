import Lockstep.Proofs.Requests
import Lockstep.Proofs.Suspensions

/-! Slices stop when they are asked to. What starts in a slice is what starts in the slice broken
off at the first request, and each start finds a processor that nothing suspends. A suspended
processor is live again when the last of its reasons goes, and not before. -/
namespace Lockstep

namespace Machine
open Watch (of jot)

structure Halts {α : Type} (v w : Watch Start α) (m : Machine) : Prop where
  breaks : Breaks v.result w.result m
  starts : m.Slicing → (v m).1 = (w m).1
  calm : m.Slicing → ∀ s ∈ (w m).1, Inside m s.machine ∧ s.machine.asked = false

section
variable {α β : Type} {m : Machine} {call other : Callback} {unit : Nat}

theorem Halts.silent {v w : Watch Start α} (halts : Halts v w m) (slicing : m.Slicing)
    (asked : m.asked = true) : (w m).1 = [] := by
  refine List.eq_nil_iff_forall_not_mem.mpr fun s mem => ?_
  obtain ⟨inside, calm⟩ := halts.calm slicing s mem
  rw [inside.asked asked] at calm
  cases calm

theorem haltsOf {x y : Run α} (breaks : Breaks x y m) : Halts (of x) (of y) m :=
  ⟨breaks, fun _ => rfl, fun _ _ mem => by cases mem⟩

theorem haltsPure (a : α) : Halts (pure a) (pure a) m :=
  ⟨breaksPlays.pure a, fun _ => rfl, fun _ _ mem => by cases mem⟩

theorem haltsGet {f g : Machine → Watch Start α} (h : Halts (f m) (g m) m) :
    Halts (of get >>= f) (of get >>= g) m :=
  ⟨h.breaks, h.starts, h.calm⟩

theorem haltsJot {n : Machine → List Start} {f g : PUnit → Watch Start α}
    (calm : ∀ s ∈ n m, s.machine = m ∧ m.asked = false) (rest : Halts (f ⟨⟩) (g ⟨⟩) m) :
    Halts (jot n >>= f) (jot n >>= g) m := by
  refine ⟨rest.breaks, fun slicing => congrArg (n m ++ ·) (rest.starts slicing), fun slicing s mem => ?_⟩
  rcases List.mem_append.mp mem with mem | mem
  · obtain ⟨here, down⟩ := calm s mem
    rw [here]
    exact ⟨.refl m, down⟩
  · exact rest.calm slicing s mem

theorem haltsSilent {f g : PUnit → Watch Start α} (rest : Halts (f ⟨⟩) (g ⟨⟩) m) :
    Halts (jot (fun _ => []) >>= f) (jot (fun _ => []) >>= g) m :=
  haltsJot (fun _ mem => by cases mem) rest

theorem haltsBind {v w : Watch Start α} {f g : α → Watch Start β} (first : Halts v w m)
    (rest : ∀ a m', w.result m = some (a, m') → Inside m m' → Halts (f a) (g a) m') :
    Halts (v >>= f) (w >>= g) m := by
  refine ⟨?_, fun slicing => ?_, fun slicing s mem => ?_⟩
  · simp only [Watch.resultBind]
    exact breaksBind first.breaks fun a m' ran inside => (rest a m' ran inside).breaks
  · rw [Watch.bindNotes, Watch.bindNotes, first.starts slicing]
    refine congrArg ((w m).1 ++ ·) ?_
    obtain ⟨inside, same⟩ := first.breaks slicing
    cases ran : w.result m with
    | none =>
      have none : v.result m = none := by
        rcases same with same | ⟨none, -⟩
        · exact same.trans ran
        · exact none
      rw [none]
      rfl
    | some row =>
      have kept := inside row.1 row.2 ran
      have after := rest row.1 row.2 ran kept
      rcases same with same | ⟨none, up⟩
      · rw [same, ran]
        exact after.starts (kept.slicing slicing)
      -- `v` is broken off here, and nothing starts in the rest of `w` after the request
      · rw [none]
        exact (after.silent (kept.slicing slicing) (up row.1 row.2 ran)).symm
  · rw [Watch.bindNotes] at mem
    rcases List.mem_append.mp mem with mem | mem
    · exact first.calm slicing s mem
    · cases ran : w.result m with
      | none =>
        rw [ran] at mem
        cases mem
      | some row =>
        rw [ran] at mem
        have kept := (first.breaks slicing).1 row.1 row.2 ran
        obtain ⟨inside, calm⟩ := (rest row.1 row.2 ran kept).calm (kept.slicing slicing) s mem
        exact ⟨kept.trans inside, calm⟩

theorem calmGoes (running : m.running unit = true) (goes : m.mustStop unit = false) :
    m.asked = false := by
  obtain ⟨f, frame, here⟩ := (Option.any_eq_true _ _).mp running
  have same := eq_of_beq here
  subst same
  have down := (Bool.or_eq_false_iff.mp goes).2
  unfold asked
  rw [frame]
  cases found : m.units[f.unit]? with
  | none => simp [found]
  | some p => simpa [found] using down

variable (calls : ∀ s m, Breaks (call s) (other s) m)
include calls

theorem haltsTurn {left right : Acc8.Port Run}
    (ports : Acc8.Port.Related (fun _ x y => ∀ m, Breaks x y m) left right)
    (running : m.running unit = true) (cpu : Acc8) :
    Halts ((Recorder.starts call).turn unit left.quiet cpu)
      ((Recorder.starts other).turn unit right.quiet cpu) m := by
  refine haltsGet ?_
  cases goes : m.mustStop unit with
  | true => exact haltsPure _
  | false =>
    have calm := calmGoes running goes
    refine haltsBind (haltsOf (breaksPlays.beat (.publish ..))) fun _ m' ran inside => ?_
    have calm' : m'.asked = false := by
      cases ran
      exact (askedModify (f := (·.publish cpu.get?)) (fun _ => rfl) unit).trans calm
    refine haltsSilent (haltsGet ?_)
    have charged : ∀ (cycles : Nat) (m : Machine), Halts (of (consume cycles)) (of (consume cycles)) m :=
      fun _ _ => haltsOf (breaksPlays.beat (.charge _))
    have starts : ∀ {cpu : Acc8} {line : Option Nat}, ∀ s ∈ [Start.mk cpu line m'],
        s.machine = m' ∧ m'.asked = false := fun s mem => by
      rw [List.mem_singleton.mp mem]
      exact ⟨rfl, calm'⟩
    rcases cpu.pending (m'.lineActive unit Acc8.nmiLine) (m'.lineActive unit Acc8.irqLine) with
      ⟨cpu, _ | line⟩
    · dsimp only
      split
      · exact haltsBind (charged _ _) fun _ _ _ _ => haltsSilent (haltsPure _)
      · refine haltsJot starts ?_
        rw [Acc8.stepWorkQuiet, Acc8.stepWorkQuiet]
        refine haltsBind (haltsOf (Acc8.stepWorkRelated ports _ _)) fun row m _ _ => haltsSilent ?_
        exact haltsBind (charged _ _) fun _ _ _ _ => haltsSilent (haltsPure _)
    · refine haltsJot starts ?_
      refine haltsBind (haltsOf (breaksPlays.acknowledge calls unit line _)) fun vector m _ _ => ?_
      rw [Acc8.enterQuiet, Acc8.enterQuiet]
      refine haltsBind (haltsOf (Acc8.enterRelated ports _ _ m)) fun cpu m _ _ => haltsSilent ?_
      exact haltsBind (charged _ _) fun _ _ _ _ => haltsSilent (haltsPure _)

theorem haltsLoop {left right : Acc8.Port Run}
    (ports : Acc8.Port.Related (fun _ x y => ∀ m, Breaks x y m) left right)
    (running : m.running unit = true) (bound : Nat) (cpu : Acc8) :
    Halts ((Recorder.starts call).loop unit left.quiet bound cpu)
      ((Recorder.starts other).loop unit right.quiet bound cpu) m := by
  induction bound generalizing cpu m with
  | zero => exact haltsPure _
  | succ bound ih =>
    refine haltsBind (haltsTurn calls ports running cpu) fun row m' _ inside => ?_
    dsimp only
    split
    · exact ih (by rw [Machine.running, inside.frame]; exact running) _
    · exact haltsPure _

theorem haltsAcc8 {left right : Acc8.Port Run}
    (ports : Acc8.Port.Related (fun _ x y => ∀ m, Breaks x y m) left right)
    (running : m.running unit = true) (cycles : Nat) (cpu : Acc8) :
    Halts ((Recorder.starts call).acc8 unit cycles left.quiet cpu)
      ((Recorder.starts other).acc8 unit cycles right.quiet cpu) m := by
  unfold Recorder.acc8
  split
  · exact haltsPure _
  · refine haltsBind (haltsOf (breaksPlays.beat (.publish ..))) fun _ m₁ _ first => ?_
    rw [Acc8.prepareQuiet, Acc8.prepareQuiet]
    refine haltsBind (haltsOf (Acc8.prepareRelated ports _ m₁)) fun cpu m₂ _ rest => ?_
    have running : m₂.running unit = true := by rw [Machine.running, rest.frame, first.frame]; exact running
    exact haltsBind (haltsLoop calls ports running _ cpu) fun _ _ _ _ => haltsGet (haltsPure _)

theorem haltsGrant (running : m.running unit = true) (cycles : Nat) (id : DeviceId) :
    Halts ((Recorder.starts call).grant unit cycles id) ((Recorder.starts other).grant unit cycles id) m := by
  have still : ∀ {g : Machine → Machine} (m : Machine), (g m).frame = m.frame →
      (g m).units = m.units → Halts (of (modify g)) (of (modify g)) m :=
    fun m frame units => haltsOf (breaksModify (.same frame units))
  have device : ∀ (d : Device) (m : Machine), m.running unit = true →
      Halts ((Recorder.starts call).device unit cycles id d)
        ((Recorder.starts other).device unit cycles id d) m := by
    intro d m running
    cases d with
    | acc8 cpu =>
      refine haltsGet ?_
      cases m.ownedSpace id .program with
      | error e => exact haltsPure _
      | ok program =>
        cases m.ownedSpace id .io with
        | error e => exact haltsPure _
        | ok io =>
          exact haltsBind (haltsAcc8 calls (breaksPlays.acc8Port calls program io) running cycles cpu)
            fun _ _ _ _ => haltsPure _
    | sequencer s =>
      rw [Recorder.playerSilent (Recorder.startsSilent call), Recorder.playerSilent (Recorder.startsSilent other)]
      exact haltsOf (breaksPlays.runDevice calls unit cycles id _ m)
    | peripheral p => exact haltsPure none
  refine haltsGet ?_
  cases m.idle id with
  | error e => exact haltsPure _
  | ok d =>
    refine haltsBind (still m rfl rfl) fun _ m₁ _ inside => ?_
    refine haltsBind (device d m₁ (by rw [Machine.running, inside.frame]; exact running)) fun outcome m₂ _ _ => ?_
    refine haltsBind (still m₂ rfl rfl) fun _ m₃ _ _ => ?_
    cases outcome with
    | none => exact haltsPure _
    | some row => exact haltsBind (still m₃ rfl rfl) fun _ _ _ _ => haltsPure _

end

end Machine

theorem Grant.openedUnit (g : Grant) : g.opened.frame = some g.frame ∧
    g.opened.units[g.unit]? = some { g.processor with yieldRequested := false } := by
  unfold Grant.opened
  refine ⟨(Machine.traceSame ..).2.2, ?_⟩
  rw [Machine.traceUnits]
  exact Machine.unitModified (m := { g.machine with frame := _, budget := _ }) g.found _

/-- What starts in a slice is what starts before the first request to stop, and nothing suspends
its processor when it starts. -/
def Event.Stops (depth : Nat) : Event → Prop
  | .rest _ | .fired .. => True
  | .slice g starts =>
      starts = (Machine.watchGranted (Machine.invokeUnder unasked depth) g g.machine).1 ∧
        ∀ s ∈ starts, ∃ p, s.machine.units[g.unit]? = some p ∧ p.suspension = {} ∧
          p.yieldRequested = false

namespace Machine

theorem grantedStops (depth : Nat) {g : Grant} (live : g.processor.isLive = true) :
    (Event.slice g (watchGranted (invoke depth) g g.machine).1).Stops depth := by
  obtain ⟨frame, found⟩ := g.openedUnit
  have slicing : g.opened.Slicing := ⟨_, _, frame, found⟩
  have running : g.opened.running g.unit = true := runningUnit frame
  have halts := haltsGrant (invokeBreaks depth) running g.cycles g.processor.device
  have notes : ∀ call, (watchGranted call g g.machine).1 =
      ((Recorder.starts call).grant g.unit g.cycles g.processor.device g.opened).1 := fun call =>
    Recorder.logged (Recorder.starts call) g
  refine ⟨?_, fun s mem => ?_⟩
  · rw [notes, notes]
    exact (halts.starts slicing).symm
  · rw [notes] at mem
    obtain ⟨inside, calm⟩ := halts.calm slicing s mem
    obtain ⟨p, found', kept⟩ := inside.each running found
    have down : p.yieldRequested = false := Bool.eq_false_iff.mpr fun up =>
      absurd (askedIff.mpr ⟨_, p, inside.frame.trans frame, found', up⟩) (ne_true_of_eq_false calm)
    refine ⟨p, found', ?_, down⟩
    -- a suspension from inside its slice raises the flag, which is down
    rcases kept.live live with live | up
    · exact Suspension.emptyIff.mp live
    · rw [down] at up
      cases up

theorem watchedStops {depth : Nat} {target : Time} {m : Machine} {events : List Event}
    {r : Option (Unit × Machine)} (watched : Watched (invoke depth) target m events r) :
    ∀ e ∈ events, e.Stops depth := by
  have more : ∀ {e : Event} {events : List Event}, e.Stops depth → (∀ e ∈ events, e.Stops depth) →
      ∀ e' ∈ e :: events, e'.Stops depth := fun first rest => List.forall_mem_cons.mpr ⟨first, rest⟩
  have none : ∀ e ∈ ([] : List Event), e.Stops depth := fun e mem => by cases mem
  have slice : ∀ {m unit p starts r} (next : Next target m unit p),
      watchGranted (invoke depth) next.grant next.grant.machine = (starts, r) →
        (Event.slice next.grant starts).Stops depth := fun next ran => by
    have stops := grantedStops depth (g := next.grant) next.live
    rwa [ran] at stops
  induction watched with
  | stuck => exact none
  | lost | rests => exact more trivial (more trivial none)
  | fires _ _ _ ih => exact more trivial (more trivial ih)
  | breaks next ran => exact more trivial (more (slice next ran) none)
  | slices next ran _ ih => exact more trivial (more (slice next ran) ih)

theorem historyStops {depth : Nat} {origin : Machine} {events : List Event} {r : Option Machine}
    (history : History (invoke depth) origin events r) : ∀ e ∈ events, e.Stops depth := by
  induction history with
  | start => exact fun e mem => by rw [List.mem_singleton.mp mem]; trivial
  | effect _ _ ih | reset _ _ ih =>
    refine List.forall_mem_append.mpr ⟨ih, fun e mem => ?_⟩
    rw [List.mem_singleton.mp mem]
    trivial
  | run target fuel _ ih =>
    exact List.forall_mem_append.mpr ⟨ih, watchedStops (untilWatched (invoke depth) target fuel _)⟩

/-- Requests to stop are honoured at the next boundary, in every history: a slice starts what it
starts when it is broken off at the first request. Nothing starts on a suspended processor. Those
that may run next are the ones that nothing suspends: a suspension adds its reasons, whatever
a host has a machine do is steps, and a step makes a suspended processor live exactly if it takes
the last of its reasons. -/
theorem stopRequests {depth : Nat} {origin : Machine} {events : List Event} {r : Option Machine}
    (history : History (invoke depth) origin events r) :
    (∀ e ∈ events, e.Stops depth) ∧
    (∀ {m : Machine} {i : Nat} {time : Time}, (i, time) ∈ m.liveUnits ↔
      ∃ p, m.units[i]? = some p ∧ p.suspension = {} ∧ p.localTime = time) ∧
    (∀ {a b : Machine} {device : DeviceId} {reasons : Suspension},
      a.suspend device reasons = .ok b → ∃ i p p', a.unit device = .ok (i, p) ∧
        b.units[i]? = some p' ∧ p'.suspension = p.suspension.union reasons) ∧
    (∀ {m m' : Machine} {notices : List Notice},
      Course (invoke depth) m notices (some m') → Steps free m m') ∧
    ∀ {a b : Machine} {device : DeviceId} {i : Nat} {p : Processor}, Step free a b →
      a.unit device = .ok (i, p) → p.suspension ≠ {} → ∃ p', b.units[i]? = some p' ∧
        (p'.suspension = {} ↔
          ∃ reasons, p.Relieved a b i reasons ∧ p.suspension.diff reasons = {}) := by
  refine ⟨historyStops history, memLive.trans ?_, suspendAdds, fun course => ?_,
    fun step unit held => stepRelief unit held step⟩
  · simp only [Processor.isLive, Suspension.emptyIff]
  · rw [← invokeFree] at course
    exact (courseSteps course).2

end Machine

def belfry : Assembly :=
  let bell : Port := .mk "bell" true false
    (fun _ _ => .step .requestYield fun _ => .done (.word 0)) fun _ _ _ => .done .ok
  let rope : Port := .mk "rope" true false
    (fun _ _ => .perform (.read (.owned ⟨0⟩ .program) 0x300 .byte)) fun _ _ _ => .done .ok
  let tower := (Assembly.new { quantum := .ofMicros 10 } .builtin).extend "cpu" (.ofMhz 1)
    (.acc8 (.new "cpu" { resetPc := some 0x200 }))
  match (tower.map false "cpu" .program 0x200 0x2FF (.port rope)).bind
      (·.map false "cpu" .program 0x300 0x300 (.port bell)) with
  | .ok a => a
  | .error _ => tower

def Event.single : Event → Bool
  | .slice g starts => g.cycles == 10 && starts.length == 1
  | _ => false

def belfryRings : Bool :=
  match belfry.build (Machine.invoke 3) with
  | some (none, m) => (Machine.watchUntil (Machine.invoke 3) (.ofMicros 20) 40 m).1.any (·.single)
  | _ => false

theorem belfryStops : ∃ origin events r, History (Machine.invoke 3) origin events r ∧
    (∃ e ∈ events, e.single = true) ∧ ∀ e ∈ events, e.Stops 3 := by
  have rings : belfryRings = true := by decide +kernel
  unfold belfryRings at rings
  split at rings
  · rename_i m built
    obtain ⟨e, mem, single⟩ := List.any_eq_true.mp rings
    have history : History (Machine.invoke 3) m _ _ := History.start.run (.ofMicros 20) 40
    exact ⟨m, _, _, history, ⟨e, List.mem_append_right _ mem, single⟩,
      (Machine.stopRequests history).1⟩
  · cases rings

end Lockstep
