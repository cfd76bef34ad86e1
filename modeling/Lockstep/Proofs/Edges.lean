import Lockstep.Proofs.Moments

/-! The non-maskable interrupts of a processor. It takes one at a boundary that finds its line
active, if since the last one some boundary has found the line inactive. So none is taken twice; but
an edge that comes after the acknowledgement of the last one and before the next boundary is lost,
and so are all after it until a boundary finds the line inactive. -/
namespace Lockstep
open Acc8 (nmiLine)

/-- A line as it is driven. It has risen if it has gone from clear to active since the last interrupt
on it was accepted or the last reset. The processor is ready if since then it has been reset or a
boundary has found the line inactive. -/
structure Edge where
  state : Option LineState
  risen : Bool
  ready : Bool

namespace Edge

def active (e : Edge) : Bool := e.state.elim false (·.isActive)

def start (lines : InputLines (Nat → Script)) (cpu : Acc8) : Edge :=
  ⟨lines.state? nmiLine, lines.isActive nmiLine && !cpu.nmiLatched, !cpu.nmiLatched⟩

def next (unit : Nat) (e : Edge) (h : Happening) : Edge :=
  let e' := { e with state := h.lineNext nmiLine e.state }
  match h with
  | .driven .. => { e' with risen := e.risen || (!e.active && e'.active) }
  | .accepted line _ => if line = nmiLine then ⟨e'.state, false, false⟩ else e'
  | .boundary _ m => { e' with ready := e.ready || !m.lineActive unit nmiLine }
  | .reset => ⟨e'.state, false, true⟩
  | _ => e'

theorem nextState (unit : Nat) (e : Edge) (h : Happening) :
    (e.next unit h).state = h.lineNext nmiLine e.state := by
  cases h with
  | accepted => simp only [next]; split <;> rfl
  | _ => rfl

def after (unit : Nat) (e : Edge) (past : List Happening) : Edge := past.foldl (next unit) e

end Edge

namespace Core
variable {unit : Nat} {a b c : Core} {first : List Happening} {e : Edge}

theorem pendingNmi (c : Core) : c.pending.2 = some nmiLine ↔
    c.lines.isActive nmiLine = true ∧ c.cpu.nmiLatched = false := by
  have apart : Acc8.irqLine ≠ nmiLine := by decide
  unfold pending Acc8.pending
  cases c.lines.isActive nmiLine <;> cases c.cpu.nmiLatched <;> simp [apart]

theorem pendingLatch (c : Core) : c.pending.1.nmiLatched = c.lines.isActive nmiLine := by
  unfold pending Acc8.pending
  split
  · rename_i taken
    exact (Bool.and_eq_true_iff.mp taken).1.symm
  · rfl

structure Latched (e : Edge) (c : Core) : Prop where
  state : c.lines.state? nmiLine = e.state
  taken : c.phase = .taken nmiLine → c.cpu.nmiLatched = true
  ready : c.phase ≠ .taken nmiLine → c.cpu.nmiLatched = !e.ready
  risen : e.active = true → c.cpu.nmiLatched = false → e.risen = true

theorem Latched.active (holds : Latched e c) : e.active = c.lines.isActive nmiLine := by
  rw [Edge.active, ← holds.state, InputLines.isActive]

theorem latchedState (step : Step unit a first b) (holds : Latched e a) :
    b.lines.state? nmiLine = (first.foldl (Edge.next unit) e).state := by
  rw [step.state, holds.state]
  rcases step.single with rfl | ⟨h, rfl⟩
  · rfl
  · exact (Edge.nextState unit e h).symm

theorem latchedBoundary {cpu : Acc8} {m : Machine} (holds : Latched e a)
    (step : Step unit a [.boundary cpu m] b) : Latched (e.next unit (.boundary cpu m)) b := by
  have moment := step.boundary
  have was := holds.ready (by rw [moment.rests]; exact fun h => by cases h)
  have takes := pendingNmi a
  have latch := moment.cpu ▸ pendingLatch a
  rw [was] at takes
  refine ⟨latchedState step holds, fun phase => ?_, fun phase => ?_, fun active off => ?_⟩
  · have taken : a.pending.2 = some nmiLine := by
      cases line : a.pending.2 <;> simp [moment.phase, line] at phase
      rw [phase]
    rw [latch, (takes.mp taken).1]
  · have other : a.pending.2 ≠ some nmiLine := fun line => phase (by rw [moment.phase, line]; rfl)
    rw [Ne, takes] at other
    rw [latch, Edge.next, Machine.lineSeen moment.seen]
    cases active : a.lines.isActive nmiLine <;> cases ready : e.ready <;> simp_all
  · rw [latch, ← holds.active] at off
    cases off.symm.trans active

theorem latchedStep (step : Step unit a first b) (holds : Latched e a) :
    Latched (first.foldl (Edge.next unit) e) b := by
  have state := latchedState step holds
  have calm : a.phase ≠ .taken nmiLine → b.cpu.nmiLatched = a.cpu.nmiLatched →
      b.phase ≠ .taken nmiLine → e.active = (first.foldl (Edge.next unit) e).active →
      e.risen = (first.foldl (Edge.next unit) e).risen →
      e.ready = (first.foldl (Edge.next unit) e).ready →
      Latched (first.foldl (Edge.next unit) e) b := fun was same is active risen ready =>
    ⟨state, fun h => absurd h is, fun _ => by rw [same, holds.ready was, ready], fun on off => by
      rw [← risen]
      exact holds.risen (active.trans on) (same.symm.trans off)⟩
  cases step with
  | @driven line level vector lines heeds ok =>
    refine ⟨state, fun h => absurd h (heeds _), fun h => holds.ready h, fun on off => ?_⟩
    have was := holds.risen
    simp only [List.foldl_cons, List.foldl_nil, Edge.next] at on off ⊢
    cases before : e.active <;> simp_all [Edge.active]
  | written free ok => exact calm (by simp [free]) (Acc8.setSpared ok).2.1 (by simp [free]) rfl rfl rfl
  | reset free =>
    refine ⟨state, fun h => by simp [free] at h, fun _ => rfl, fun on => ?_⟩
    simp only [List.foldl_cons, List.foldl_nil, Edge.next, Edge.active, Happening.lineNext] at on
    cases before : e.state <;> rw [before] at on <;> cases on
  | load free => exact calm (by simp [free]) rfl (by simp) rfl rfl rfl
  | fetched _ free | woken free => exact calm (by simp [free]) rfl (by simp [free]) rfl rfl rfl
  | shut free | idle free => exact calm (by simp [free]) rfl (by simp) rfl rfl rfl
  | taken rests alert seen takes => exact latchedBoundary holds (.taken rests alert seen takes)
  | plain rests alert seen takes => exact latchedBoundary holds (.plain rests alert seen takes)
  | @accepted m line lines answer takes =>
    -- the latch stays as its boundary has left it, though a held line is clear from here on
    have left : awaits line m answer ≠ .taken nmiLine := by
      cases answer <;> simp [awaits]
    by_cases nmi : line = nmiLine
    · subst nmi
      refine ⟨state, fun h => absurd h left, fun _ => ?_, fun _ off => ?_⟩
      · simp [Edge.next, holds.taken takes]
      · cases (holds.taken takes).symm.trans off
    · refine calm (by simp [takes, nmi]) rfl left ?_ ?_ ?_ <;>
        simp [Edge.next, Edge.active, Happening.lineNext, nmi]
  | answered depth asks => exact calm (by simp [asks]) rfl (by simp) rfl rfl rfl
  | entered depth program io enters ran =>
    exact calm (by simp [enters]) (Acc8.enterSpared ran).1.latch (by simp) rfl rfl rfl
  | executed depth program io executes awake ran =>
    exact calm (by simp [executes]) (Acc8.stepWorkSpared ran).latch (by simp) rfl rfl rfl

end Core

/-- At a boundary a processor accepts a non-maskable interrupt exactly if the line is active and
some boundary since the last one, or a reset, has found it inactive. Then the line has risen. -/
theorem edgesTaken {a : Assembly} {marks : List Mark} {m m' : Machine} {unit : Nat} {p : Processor}
    {cpu cpu' : Acc8} {before after : List Happening} (assembled : Assembled a)
    (found : a.machine.units[unit]? = some p) (seat : a.machine.cpu? p.device = some cpu)
    (chronicle : Chronicle a.machine marks m)
    (here : about unit marks = before ++ .boundary cpu' m' :: after) :
    ((∃ m rest, after = .accepted nmiLine m :: rest) ↔ m'.lineActive unit nmiLine = true ∧
      ((Edge.start p.lines cpu).after unit before).ready = true) ∧
    ((∃ m rest, after = .accepted nmiLine m :: rest) →
      ((Edge.start p.lines cpu).after unit before).risen = true) ∧ a.Chronicled := by
  obtain ⟨last, ends, life⟩ := assembledLife assembled found seat chronicle
  rw [here] at life
  obtain ⟨c, d, early, now, late⟩ := life.split
  have start : Core.Latched (Edge.start p.lines cpu) ⟨p.lines, cpu, .seated⟩ := by
    refine ⟨rfl, (fun h => by cases h), fun _ => by simp [Edge.start], fun active off => ?_⟩
    change cpu.nmiLatched = false at off
    have on : p.lines.isActive nmiLine = true := active
    simp [Edge.start, on, off]
  have latched : Core.Latched ((Edge.start p.lines cpu).after unit before) c :=
    early.tracks Core.latchedStep start
  have moment := now.boundary
  have ready := latched.ready (by rw [moment.rests]; exact fun h => by cases h)
  rw [Core.acceptsNext moment late ends, Core.pendingNmi, ready, Machine.lineSeen moment.seen,
    Bool.not_eq_false']
  exact ⟨Iff.rfl, fun ⟨active, set⟩ =>
    latched.risen (latched.active.trans active) (by rw [ready, set]; rfl), courseChronicled a⟩

def chime : Assembly :=
  ((Assembly.new { quantum := .ofMicros 20 } .builtin).extend "bell" ⟨0⟩ (.peripheral
    { name := "bell"
      start := fun id => .perform (.schedule id (.ofMicros 2) (.ofMicros 2) 0)
      timer := fun _ _ => .perform (.driveLine ⟨1⟩ nmiLine .hold none) })).extend "cpu" (.ofMhz 1)
    (.acc8 (.new "cpu" { resetPc := some 0x200 }))

theorem chimeAssembled : Assembled chime := ((Assembled.new _ _).extend _ _ _).extend _ _ _

def acceptsFirst (line : Nat) : List Happening → Bool
  | .accepted other _ :: _ => other == line
  | _ => false

theorem acceptsFirstIff {line : Nat} {story : List Happening} :
    acceptsFirst line story = true ↔ ∃ m rest, story = .accepted line m :: rest := by
  refine ⟨fun accepts => ?_, ?_⟩
  · unfold acceptsFirst at accepts
    split at accepts
    · rename_i other m rest
      cases eq_of_beq accepts
      exact ⟨m, rest, rfl⟩
    · cases accepts
  · rintro ⟨m, rest, rfl⟩
    exact beq_self_eq_true line

def risenAt (e : Edge) (unit : Nat) (story : List Happening) (place : Nat) (accepts : Bool) : Bool :=
  match story[place]? with
  | some (.boundary _ m) => m.lineActive unit nmiLine && (e.after unit (story.take place)).risen &&
      acceptsFirst nmiLine (story.drop (place + 1)) == accepts
  | _ => false

theorem risenAtInv {e : Edge} {unit place : Nat} {story : List Happening} {accepts : Bool}
    (risen : risenAt e unit story place accepts = true) : ∃ before cpu m after,
      story = before ++ .boundary cpu m :: after ∧ m.lineActive unit nmiLine = true ∧
      (e.after unit before).risen = true ∧ acceptsFirst nmiLine after = accepts := by
  unfold risenAt at risen
  split at risen
  · rename_i cpu m here
    obtain ⟨both, same⟩ := Bool.and_eq_true_iff.mp risen
    obtain ⟨active, risen⟩ := Bool.and_eq_true_iff.mp both
    obtain ⟨bound, row⟩ := List.getElem?_eq_some_iff.mp here
    refine ⟨story.take place, cpu, m, story.drop (place + 1), ?_, active, risen, eq_of_beq same⟩
    rw [← row, ← List.drop_eq_getElem_cons, List.take_append_drop]
  · cases risen

def chimeRings : Bool :=
  match chime.machine.units[0]?, chime.told 3 (.ofMicros 20) 9 with
  | some p, (marks, some _) =>
      match chime.machine.cpu? p.device with
      | some cpu =>
          let e := Edge.start p.lines cpu
          risenAt e 0 (about 0 marks) 6 true && risenAt e 0 (about 0 marks) 12 false
      | none => false
  | _, _ => false

theorem chimeRuns : ∃ p cpu marks m, chime.machine.units[0]? = some p ∧
    chime.machine.cpu? p.device = some cpu ∧ Chronicle chime.machine marks m ∧
    risenAt (Edge.start p.lines cpu) 0 (about 0 marks) 6 true = true ∧
    risenAt (Edge.start p.lines cpu) 0 (about 0 marks) 12 false = true := by
  have rings : chimeRings = true := by decide +kernel
  unfold chimeRings at rings
  split at rings
  · rename_i p marks row found ran
    obtain ⟨u, m⟩ := row
    split at rings
    · rename_i cpu seat
      obtain ⟨heard, lost⟩ := Bool.and_eq_true_iff.mp rings
      exact ⟨p, cpu, marks, m, found, seat, chronicleTold ran, heard, lost⟩
    · cases rings
  · cases rings

theorem firstStrokeHeard : ∃ p cpu marks before m' after, chime.machine.units[0]? = some p ∧
    chime.machine.cpu? p.device = some cpu ∧
    ((∃ m rest, after = .accepted nmiLine m :: rest) ↔ m'.lineActive 0 nmiLine = true ∧
      ((Edge.start p.lines cpu).after 0 before).ready = true) ∧
    (∃ cpu', about 0 marks = before ++ .boundary cpu' m' :: after) ∧
    ∃ m rest, after = .accepted nmiLine m :: rest := by
  obtain ⟨p, cpu, marks, m, found, seat, chronicle, heard, -⟩ := chimeRuns
  obtain ⟨before, cpu', m', after, here, -, -, accepts⟩ := risenAtInv heard
  exact ⟨p, cpu, marks, before, m', after, found, seat,
    (edgesTaken chimeAssembled found seat chronicle here).1, ⟨cpu', here⟩, acceptsFirstIff.mp accepts⟩

/-- A boundary where the line is active and has risen since the last interrupt, and that interrupt
is not accepted. -/
theorem secondStrokeLost : ∃ p cpu marks m before cpu' m' after, Assembled chime ∧
    chime.machine.units[0]? = some p ∧ chime.machine.cpu? p.device = some cpu ∧
    Chronicle chime.machine marks m ∧ about 0 marks = before ++ .boundary cpu' m' :: after ∧
    m'.lineActive 0 nmiLine = true ∧ ((Edge.start p.lines cpu).after 0 before).risen = true ∧
    ¬ ∃ m rest, after = .accepted nmiLine m :: rest := by
  obtain ⟨p, cpu, marks, m, found, seat, chronicle, -, lost⟩ := chimeRuns
  obtain ⟨before, cpu', m', after, here, active, risen, none⟩ := risenAtInv lost
  refine ⟨p, cpu, marks, m, before, cpu', m', after, chimeAssembled, found, seat, chronicle, here,
    active, risen, fun accepts => ?_⟩
  cases none.symm.trans (acceptsFirstIff.mpr accepts)

end Lockstep
