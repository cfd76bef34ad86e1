import Lockstep.Proofs.Replay
import Lockstep.Proofs.Separate
import Lockstep.Proofs.Unseen

/-! Whether snapshots tell machines apart. Two states of one machine with equal snapshots may go
on to differ, for a snapshot leaves lines, latches and more out; if they also agree in that,
whatever a host does with both gives the same replies and the same snapshots. -/
namespace Lockstep

inductive Operation where
  | script (s : Script)
  | sink (name : Option String)
  | reset
  | run (target : Time) (fuel : Nat)

def UnitSnapshot.parts (u : UnitSnapshot) :
    (String × Time × Nat) × RunState × Nat × List (RegisterId × Nat) :=
  ((u.tag, u.localTime, u.totalCycles), u.runState, u.suspension, u.registers)

theorem UnitSnapshot.partsInjective : Function.Injective UnitSnapshot.parts := by
  rintro ⟨⟩ ⟨⟩ same
  cases same
  rfl

open Machine in
def Operation.perform (call : Callback) : Operation → Run Reply
  | .script s => call s
  | .sink name => do
      modify fun m => (m.setSink name).1
      return .ok
  | .reset => do
      Machine.reset call
      return .ok
  | .run target fuel => do
      runUntil call target fuel
      return .ok

namespace Machine

def transcript (call : Callback) : List Operation → Machine → List (Option (Reply × Snapshot))
  | [], _ => []
  | operation :: rest, m =>
    match operation.perform call m with
    | none => [none]
    | some (reply, m') => some (reply, m'.snapshot) :: transcript call rest m'

section
variable {m m' origin : Machine} {call : Callback} {depth : Nat}

theorem courseHistory (calls : ∀ s m, Acts (call s) m) {notices : List Notice}
    (course : Course call origin notices (some m)) :
    ∃ events, History call origin events (some m) := by
  refine course.keeps (P := fun m => ∃ events, History call origin events (some m)) ⟨_, .start⟩
    (fun s reply ⟨events, history⟩ ran => ?_) (fun name ⟨events, history⟩ => ?_)
    (fun ⟨events, history⟩ ran => ?_) fun target fuel ⟨events, history⟩ ran => ?_
  · exact ⟨_, history.effect (calls s _ reply _ ran)⟩
  · exact ⟨_, history.effect (.act (.sink name))⟩
  · exact ⟨_, history.reset ran⟩
  · have after := history.run target fuel
    rw [ran] at after
    exact ⟨_, after⟩

theorem coursesRecords {a b : Machine} {notices notices' : List Notice}
    (built : Built (invoke depth) origin) (only : origin.OnlyAcc8)
    (first : Course (invoke depth) origin notices (some a))
    (second : Course (invoke depth) origin notices' (some b)) (seen : b.snapshot = a.snapshot)
    (unseen : b.unseen = a.unseen) : a.frame = none ∧ ∃ r, b = a.recording r := by
  have acts := invokeActs depth
  obtain ⟨assembly, assembled, started⟩ := built
  have settled : ∀ {m : Machine} {notices : List Notice},
      Course (invoke depth) origin notices (some m) → m.fixtures = origin.fixtures ∧
        SameRoles origin m ∧ m.frame = none ∧ m.timers.Sound := by
    intro m notices course
    obtain ⟨events, history⟩ := courseHistory acts course
    have steps := (courseSteps (by rw [invokeFree]; exact course)).2
    exact ⟨(stepsFixtures (buildSealed started) steps).2, courseRoles acts course,
      historyIdle acts ⟨assembly, assembled, started⟩ history⟩
  obtain ⟨fixtures, roles, idle, sound⟩ := settled first
  obtain ⟨fixtures', roles', idle', sound'⟩ := settled second
  have only' : a.OnlyAcc8 := fun id => by
    rw [roleClass, roles id, ← roleClass]
    exact only id
  exact ⟨idle, onlyRecords (fixtures'.trans fixtures.symm)
    (fun id => (roles' id).trans (roles id).symm) only' sound.toFiled sound'.toFiled
    (idle'.trans idle.symm) seen unseen⟩

theorem blindOperation (calls : ∀ s m, Blind Records m.frame (call s) m) (operation : Operation)
    (idle : m.frame = none) : Blind Records none (operation.perform call) m := by
  cases operation with
  | script s =>
    rw [← idle]
    exact calls s m
  | sink name =>
    have moved : Blind Records none (modify fun m => (m.setSink name).1) m :=
      blindShift idle fun r _ => ⟨{ r with sink := name }, fun running => absurd idle running, rfl⟩
    exact blindBind moved fun _ _ => blindPure _
  | reset => exact blindBind (idle ▸ blindReset calls m) fun _ _ => blindPure _
  | run target fuel => exact blindBind (blindUntil calls target fuel m idle) fun _ _ => blindPure _

theorem transcriptSame (calls : ∀ s m, Blind Records m.frame (call s) m)
    (operations : List Operation) (idle : m.frame = none) (r : Records) :
    transcript call operations (m.recording r) = transcript call operations m := by
  induction operations generalizing m r with
  | nil => rfl
  | cons operation rest ih =>
    have blind := blindOperation calls operation idle r fun running => absurd idle running
    unfold transcript
    generalize operation.perform call m = left,
      operation.perform call (Guise.wear m r) = right at blind
    cases blind with
    | none => rfl
    | some reply idle' fits => exact congrArg (_ :: ·) (ih idle' _)

theorem transcriptFree {operations : List Operation}
    (performed : none ∉ transcript (invokeUnder discreet depth) operations m) :
    transcript (invoke depth) operations m =
      transcript (invokeUnder discreet depth) operations m := by
  have carries := stepsCarries discreet
  have calls := invokeSteps discreet depth
  have follows : ∀ (operation : Operation) (m : Machine), Run.Follows (Steps discreet)
      (operation.perform (invokeUnder discreet depth)) (operation.perform (invoke depth)) m := by
    intro operation m
    cases operation with
    | script s => exact calls s m
    | sink name => exact carries.bind (carries.change (.sink name)) fun _ _ => carries.pure _
    | reset => exact carries.bind (carries.reset calls m) fun _ _ => carries.pure _
    | run target fuel =>
      exact carries.bind (carries.runUntil calls (fun due => .single (.pop due))
        (fun none => .single (.wait none)) target fuel m) fun _ _ => carries.pure _
  induction operations generalizing m with
  | nil => rfl
  | cons operation rest ih =>
    unfold transcript at performed ⊢
    cases ran : operation.perform (invokeUnder discreet depth) m with
    | none =>
      rw [ran] at performed
      exact absurd (List.mem_singleton.mpr rfl) performed
    | some row =>
      rw [ran] at performed
      rw [(follows operation m row.1 row.2 ran).1]
      exact congrArg (_ :: ·) (ih fun mem => performed (List.mem_cons_of_mem _ mem))

end

/-- Two states that a machine reaches, with equal snapshots and with what those leave out equal
as well, are the same to a host: whatever it does with both, in any order and number, has the
same replies, and is followed by the same snapshots. No callback may read the counters of the
machine, which differ with the way a state was reached. -/
theorem snapshotsReplay {depth : Nat} {origin a b : Machine} {notices notices' : List Notice}
    (built : Built (invoke depth) origin) (only : origin.OnlyAcc8)
    (first : Course (invoke depth) origin notices (some a))
    (second : Course (invoke depth) origin notices' (some b)) (seen : b.snapshot = a.snapshot)
    (unseen : b.unseen = a.unseen) (operations : List Operation) :
    transcript (invokeUnder discreet depth) operations b =
        transcript (invokeUnder discreet depth) operations a ∧
      (none ∉ transcript (invokeUnder discreet depth) operations a →
        transcript (invoke depth) operations b = transcript (invoke depth) operations a) := by
  obtain ⟨idle, r, rfl⟩ := coursesRecords built only first second seen unseen
  have same := transcriptSame (discreetShrouds.invoke depth) operations idle r
  refine ⟨same, fun performed => ?_⟩
  rw [transcriptFree performed, transcriptFree (same ▸ performed), same]

def twin (a b : Machine) : Bool :=
  let s := a.snapshot
  let t := b.snapshot
  let x := a.unseen
  let y := b.unseen
  decide (t.time = s.time ∧ t.units.map (·.parts) = s.units.map (·.parts) ∧ t.timers = s.timers ∧
    t.banks = s.banks ∧ t.memory = s.memory) &&
  decide (y.units = x.units ∧ y.devices = x.devices ∧ y.driven = x.driven ∧ y.memory = x.memory ∧
    y.timers = x.timers ∧ y.boost = x.boost ∧ y.handles = x.handles ∧ y.cells = x.cells)

theorem twinSame {a b : Machine} (same : twin a b = true) :
    b.snapshot = a.snapshot ∧ b.unseen = a.unseen := by
  obtain ⟨shown, hidden⟩ := Bool.and_eq_true_iff.mp same
  obtain ⟨time, units, rest⟩ := of_decide_eq_true shown
  rw [Snapshot.mk.injEq, Unseen.mk.injEq]
  exact ⟨⟨time, UnitSnapshot.partsInjective.list_map units, rest⟩, of_decide_eq_true hidden⟩

def visit : List Operation :=
  [.script (.perform (.driveLine ⟨1⟩ 1 .assert none)), .run (.ofMicros 20) 60, .reset]

def pairMeets : Bool :=
  match pair.build (invoke 3) with
  | some (none, origin) =>
      match runUntil (invoke 3) (.ofMicros 12) 40 origin,
        runUntil (invoke 3) (.ofMicros 5) 40 origin with
      | some (_, a), some (_, stopped) =>
          match runUntil (invoke 3) (.ofMicros 12) 40 stopped with
          | some (_, b) => decide origin.OnlyAcc8 && twin a b && decide (b.diag ≠ a.diag) &&
              (transcript (invokeUnder discreet 3) visit a).all (·.isSome)
          | none => false
      | _, _ => false
  | _ => false

theorem pairReplays : ∃ origin a b notices notices', Built (invoke 3) origin ∧ origin.OnlyAcc8 ∧
    Course (invoke 3) origin notices (some a) ∧ Course (invoke 3) origin notices' (some b) ∧
    b.snapshot = a.snapshot ∧ b.unseen = a.unseen ∧ b.diag ≠ a.diag ∧
    none ∉ transcript (invokeUnder discreet 3) visit a ∧
    transcript (invoke 3) visit b = transcript (invoke 3) visit a := by
  have meets : pairMeets = true := by decide +kernel
  unfold pairMeets at meets
  split at meets
  · rename_i origin started
    split at meets
    · rename_i u a v stopped straight stop
      split at meets
      · rename_i w b resumed
        simp only [Bool.and_eq_true, decide_eq_true_eq] at meets
        obtain ⟨⟨⟨only, same⟩, counted⟩, performed⟩ := meets
        obtain ⟨seen, unseen⟩ := twinSame same
        have built : Built (invoke 3) origin := ⟨pair, pairAssembled, started⟩
        have fresh : Course (invoke 3) origin [] (some origin) := .start
        have first := fresh.run (.ofMicros 12) 40
        rw [straight] at first
        have second := fresh.run (.ofMicros 5) 40
        rw [stop] at second
        replace second := second.run (.ofMicros 12) 40
        rw [resumed] at second
        have complete : none ∉ transcript (invokeUnder discreet 3) visit a := fun mem => by
          simpa using List.all_eq_true.mp performed none mem
        exact ⟨origin, a, b, _, _, built, only, first, second, seen, unseen, counted, complete,
          (snapshotsReplay built only first second seen unseen visit).2 complete⟩
      · cases meets
    · cases meets
  · cases meets

end Machine

def doze : Assembly :=
  ((Assembly.new {} .builtin).extend "u" (.ofMhz 1)
    (.acc8 (.new "u" { resetPc := some 0x200 }))).wire "u" 0x8000 0x8000
      (.mk "doze" true false (fun _ _ => .perform (.spinUntilInterrupt ⟨0⟩)) fun _ _ _ => .ok)

theorem dozeAssembled : Assembled doze := ((Assembled.new _ _).extend _ _ _).wire _ _ _ _

namespace Machine

def nudge : Script := .perform (.driveLine ⟨0⟩ 0 .assert none)

def nap : List Operation := [.script (.perform (.read (.owned ⟨0⟩ .program) 0x8000 .byte))]

def dozeDiffers : Bool :=
  match doze.build (invoke 3) with
  | some (none, a) =>
      match invoke 3 nudge a with
      | some (_, b) => decide a.OnlyAcc8 && decide (b.snapshot = a.snapshot) &&
          decide ((transcript (invoke 3) nap b).map (·.map (·.2)) ≠
            (transcript (invoke 3) nap a).map (·.map (·.2)))
      | none => false
  | _ => false

/-- Snapshots alone do not settle what follows: an active line is in no snapshot, but decides
whether a processor that is to sleep is suspended. -/
theorem lineUnseen : ∃ origin a b notices notices', Built (invoke 3) origin ∧ origin.OnlyAcc8 ∧
    Course (invoke 3) origin notices (some a) ∧ Course (invoke 3) origin notices' (some b) ∧
    b.snapshot = a.snapshot ∧ (transcript (invoke 3) nap b).map (·.map (·.2)) ≠
      (transcript (invoke 3) nap a).map (·.map (·.2)) := by
  have differs : dozeDiffers = true := by decide +kernel
  unfold dozeDiffers at differs
  split at differs
  · rename_i a started
    split at differs
    · rename_i reply b nudged
      simp only [Bool.and_eq_true, decide_eq_true_eq] at differs
      obtain ⟨⟨only, seen⟩, apart⟩ := differs
      have first : Course (invoke 3) a [] (some a) := .start
      have driven := first.script nudge
      rw [nudged] at driven
      exact ⟨a, a, b, _, _, ⟨doze, dozeAssembled, started⟩, only, first, driven, seen, apart⟩
    · cases differs
  · cases differs

end Machine

end Lockstep
