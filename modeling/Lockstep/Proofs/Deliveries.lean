import Lockstep.Proofs.Moments

/-! The maskable interrupts of a processor whose line is only held and cleared, never asserted. A
hold is delivered once: it is accepted at the first boundary where interrupts are enabled and no
other comes first, its vector is asked for once, and it takes another hold, and somebody who enables
interrupts, before the next is accepted. -/
namespace Lockstep
open Acc8 (irqLine nmiLine)

namespace Happening

def machine? : Happening → Option Machine
  | .boundary _ m | .accepted _ m | .answered _ _ m | .entered _ _ _ m | .executed _ _ m => some m
  | _ => none

def isDrive : Happening → Bool
  | .driven .. => true
  | _ => false

def enables : Happening → Bool
  | .executed work cpu _ => work.enables && cpu.flags.interrupts
  | .written id value =>
      decide (id = Acc8.flagsId) && (Acc8.Flags.ofByte (UInt8.ofNat value)).interrupts
  | _ => false

def supplies (line : Nat) (vector : Option Nat) : Happening → Option Nat
  | .driven other _ given => if other = line then given.or vector else vector
  | .reset => none
  | _ => vector

end Happening

def supplied (line : Nat) (vector : Option Nat) (past : List Happening) : Option Nat :=
  past.foldl (fun vector h => h.supplies line vector) vector

structure Vectored (line : Nat) (source : Option (Nat → Script)) (stored : Option Nat) (m : Machine)
    (meanwhile : List Happening) (vector : Option Nat) : Prop where
  asked : ∀ s, source = some s → ∃ calls reply m₁ more depth,
    meanwhile = calls ++ .answered line reply m₁ :: more ∧ (∀ h ∈ calls ++ more, h.isDrive = true) ∧
    Machine.invoke depth (s line) m = some (reply, m₁) ∧ vector = some (reply.driven?.getD 0)
  unasked : source = none → (∀ h ∈ meanwhile, h.isDrive = true) ∧ vector = stored

/-- The story of a processor that is delivered every hold of its line, and none twice. -/
structure Delivers (unit : Nat) (lines : InputLines (Nat → Script)) (story : List Happening) :
    Prop where
  prompt : ∀ {before cpu m after}, story = before ++ .boundary cpu m :: after →
    m.lineActive unit irqLine = true → cpu.flags.interrupts = true →
    (∀ m' rest, after ≠ .accepted nmiLine m' :: rest) → ∃ m' rest, after = .accepted irqLine m' :: rest
  cleared : ∀ {before m between h m' after},
    story = before ++ .accepted irqLine m :: between ++ h :: after → h.machine? = some m' →
    (∀ vector, .driven irqLine .hold vector ∉ between) → m'.lineActive unit irqLine = false
  held : ∀ {before m between m' after},
    story = before ++ .accepted irqLine m :: between ++ .accepted irqLine m' :: after →
    ∃ vector, .driven irqLine .hold vector ∈ between
  enabled : ∀ {before m between m' after},
    story = before ++ .accepted irqLine m :: between ++ .accepted irqLine m' :: after →
    ∃ h ∈ between, h.enables = true
  served : ∀ {before m after}, story = before ++ .accepted irqLine m :: after →
    m.lineActive unit irqLine = false ∧ ∃ meanwhile vector cpu m' rest,
      after = meanwhile ++ .entered irqLine vector cpu m' :: rest ∧
      Vectored irqLine lines.source (supplied irqLine (lines.vector? irqLine) before) m meanwhile
        vector ∧
      (∃ cpu₀ depth program io m₀, Acc8.enter (Machine.acc8Port (Machine.invoke depth) program io)
        (vector.getD irqLine) cpu₀ m₀ = some (cpu, m')) ∧
      (cpu.runState.isTrapped = false → cpu.flags.interrupts = false)

namespace Core
variable {unit line : Nat} {a b c : Core} {first happenings : List Happening} {h : Happening}

theorem Step.source (step : Step unit a first b) : b.lines.source = a.lines.source := by
  cases step with
  | driven heeds ok => exact (InputLines.setLine ok).1
  | accepted takes row => exact (InputLines.acknowledgeLine row).1
  | _ => rfl

theorem Step.vector (step : Step unit a first b) : b.lines.vector? line =
    first.foldl (fun vector h => h.supplies line vector) (a.lines.vector? line) := by
  cases step with
  | driven heeds ok => exact ((InputLines.setLine ok).2 line).2
  | reset free => exact (InputLines.clearLine _ line).2
  | accepted takes row => exact ((InputLines.acknowledgeLine row).2.2 line).2
  | _ => rfl

theorem Step.shows {m : Machine} (step : Step unit a [h] b) (shown : h.machine? = some m) :
    m.linesOf? unit = some b.lines := by
  cases step with
  | driven | written | reset => cases shown
  | taken rests alert seen | plain rests alert seen | accepted _ _ seen | answered _ _ _ seen
    | entered _ _ _ _ _ seen | executed _ _ _ _ _ _ seen =>
    cases shown
    exact seen

theorem Step.avoids {bad : LineState → Prop} (fine : ¬ bad .clear) (step : Step unit a first b)
    (holds : ∀ s, a.lines.state? line = some s → ¬ bad s)
    (safe : ∀ h ∈ first, ∀ s vector, h = .driven line s vector → ¬ bad s) :
    ∀ s, b.lines.state? line = some s → ¬ bad s := by
  rw [step.state]
  rcases step.single with rfl | ⟨h, rfl⟩
  · exact holds
  · simp only [List.foldl_cons, List.foldl_nil, List.mem_singleton, forall_eq] at safe ⊢
    cases h with
    | driven other new vector =>
      simp only [Happening.lineNext]
      split
      · rename_i here
        rintro s ⟨⟩
        exact safe _ vector (by rw [here])
      · exact holds
    | accepted other m =>
      simp only [Happening.lineNext]
      split
      · intro s same
        obtain ⟨old, was, rfl⟩ := Option.map_eq_some_iff.mp same
        split
        · exact fine
        · exact holds old was
      · exact holds
    | reset =>
      intro s same
      obtain ⟨old, -, rfl⟩ := Option.map_eq_some_iff.mp same
      exact fine
    | _ => exact holds

theorem pendingIrq (c : Core) : c.pending.2 = some irqLine ↔ c.pending.2 ≠ some nmiLine ∧
    c.lines.isActive irqLine = true ∧ c.cpu.flags.interrupts = true := by
  have apart : nmiLine ≠ irqLine := by decide
  unfold pending Acc8.pending
  split
  · simp [apart]
  · split <;> simp_all [apart.symm]

def Poised (c : Core) : Prop := c.phase = .taken irqLine →
  c.lines.isActive irqLine = true ∧ c.cpu.flags.interrupts = true

theorem pendingFlags (c : Core) : c.pending.1.flags = c.cpu.flags := by
  unfold pending Acc8.pending
  split <;> rfl

theorem Step.poised (step : Step unit a first b) : Poised b := by
  have boundary : ∀ {cpu m}, AtBoundary unit a cpu m b → Poised b := fun moment phase => by
    have taken : a.pending.2 = some irqLine := by
      cases line : a.pending.2 <;> simp [moment.phase, line] at phase
      rw [phase]
    rw [moment.lines, moment.cpu, pendingFlags]
    exact ((pendingIrq a).mp taken).2
  cases step with
  | driven heeds => exact fun phase => absurd phase (heeds _)
  | taken rests alert seen takes => exact boundary (Step.boundary (.taken rests alert seen takes))
  | plain rests alert seen takes => exact boundary (Step.boundary (.plain rests alert seen takes))
  | @accepted m line lines answer => cases answer <;> exact fun phase => by cases phase
  | written free | reset free | fetched _ free | woken free =>
    exact fun phase => by cases free.symm.trans phase
  | load | answered | entered | executed | idle | shut => exact fun phase => by cases phase

def Masked (c : Core) : Prop :=
  match c.phase with
  | .asking .. | .entering .. => True
  | .seated | .resting => c.cpu.flags.interrupts = false ∨ c.cpu.runState.isTrapped = true
  | .taken _ | .executing => c.cpu.flags.interrupts = false

theorem maskedStep (step : Step unit a first b) (holds : Masked a)
    (safe : ∀ h ∈ first, ¬ h.enables = true) : Masked b := by
  have still : ∀ {cpu m}, AtBoundary unit a cpu m b → b.cpu.flags.interrupts = false :=
    fun moment => by
      rw [Masked, moment.rests] at holds
      rw [moment.cpu, pendingFlags]
      exact holds.resolve_right (by rw [moment.alert.sane]; exact Bool.false_ne_true)
  cases step with
  | driven => exact holds
  | written free ok =>
    rw [Masked, free] at holds ⊢
    obtain ⟨state, -, flags | ⟨rfl, flags⟩⟩ := Acc8.setSpared ok
    · rw [state, flags]
      exact holds
    · refine .inl ?_
      rw [flags]
      simpa [Happening.enables] using safe
  | reset free =>
    rw [Masked, free]
    exact .inl rfl
  | load free =>
    rw [Masked, free] at holds
    exact holds
  | fetched pc free =>
    rw [Masked, free] at holds ⊢
    exact holds
  | woken free stopped =>
    rw [Masked, free] at holds ⊢
    exact .inl (holds.resolve_right (by rw [stopped]; exact Bool.false_ne_true))
  | taken rests alert seen takes => exact still (Step.boundary (.taken rests alert seen takes))
  | plain rests alert seen takes => exact still (Step.boundary (.plain rests alert seen takes))
  | @accepted m line lines answer => cases answer <;> trivial
  | answered => trivial
  | entered depth program io enters ran =>
    refine (Acc8.enterSpared ran).2.imp_right ?_
    rintro ⟨-, rfl⟩
    rfl
  | executed depth program io executes awake ran =>
    rw [Masked, executes] at holds
    refine .inl ?_
    have spared := Acc8.stepWorkSpared ran
    -- it may be one that enables interrupts and has not: a return that pulls flags without them
    simp only [List.mem_singleton, forall_eq, Happening.enables, Bool.not_eq_true,
      Bool.and_eq_false_iff] at safe
    rcases safe with plain | off
    · exact spared.masked plain holds
    · exact off
  | idle executes =>
    rw [Masked, executes] at holds
    exact .inl holds
  | shut rests =>
    rw [Masked, rests] at holds
    exact holds

namespace Life

theorem answers {source : Nat → Script} {m : Machine} (life : Life unit a happenings b)
    (phase : a.phase = .asking line source m) (ends : b.phase = .seated) :
    ∃ calls reply m₁ rest d depth, happenings = calls ++ .answered line reply m₁ :: rest ∧
      (∀ h ∈ calls, h.isDrive = true) ∧ Machine.invoke depth (source line) m = some (reply, m₁) ∧
      d.phase = .entering line (some (reply.driven?.getD 0)) ∧ Life unit d rest b := by
  induction life with
  | still =>
    rw [phase] at ends
    cases ends
  | step one more ih =>
    cases one with
    | driven =>
      obtain ⟨calls, reply, m₁, rest, d, depth, same, drives, ran, next, life⟩ := ih phase ends
      refine ⟨_ :: calls, reply, m₁, rest, d, depth, by rw [same]; rfl, ?_, ran, next, life⟩
      exact List.forall_mem_cons.mpr ⟨rfl, drives⟩
    | answered depth asks ran =>
      cases phase.symm.trans asks
      exact ⟨[], _, _, _, _, depth, rfl, (fun h mem => by cases mem), ran, rfl, more⟩
    | written free | reset free | load free | fetched _ free | woken free | taken free | plain free
      | accepted free | entered _ _ _ free | executed _ _ _ free | idle free | shut free =>
      rw [phase] at free
      cases free

theorem enters {vector : Option Nat} (life : Life unit a happenings b)
    (phase : a.phase = .entering line vector) (ends : b.phase = .seated) :
    ∃ calls cpu m rest, happenings = calls ++ .entered line vector cpu m :: rest ∧
      (∀ h ∈ calls, h.isDrive = true) ∧
      ∃ cpu₀ depth program io m₀, Acc8.enter (Machine.acc8Port (Machine.invoke depth) program io)
        (vector.getD line) cpu₀ m₀ = some (cpu, m) := by
  induction life with
  | still =>
    rw [phase] at ends
    cases ends
  | step one more ih =>
    cases one with
    | driven =>
      obtain ⟨calls, cpu, m, rest, same, drives, ran⟩ := ih phase ends
      exact ⟨_ :: calls, cpu, m, rest, by rw [same]; rfl, List.forall_mem_cons.mpr ⟨rfl, drives⟩, ran⟩
    | entered depth program io enters ran =>
      cases phase.symm.trans enters
      exact ⟨[], _, _, _, rfl, (fun h mem => by cases mem), _, depth, program, io, _, ran⟩
    | written free | reset free | load free | fetched _ free | woken free | taken free | plain free
      | accepted free | answered _ free | executed _ _ _ free | idle free | shut free =>
      rw [phase] at free
      cases free

theorem unheld (life : Life unit a happenings b) (idle : a.lines.isActive line = false)
    (unasserted : ∀ vector, .driven line .assert vector ∉ happenings)
    (free : ∀ vector, .driven line .hold vector ∉ happenings) : b.lines.isActive line = false := by
  have clear : ∀ s, b.lines.state? line = some s → ¬ s.isActive = true := by
    refine life.keeps (P := fun c => ∀ s, c.lines.state? line = some s → ¬ s.isActive = true)
      (fun one holds safe => one.avoids (by decide) holds safe) (fun s here on => ?_) ?_
    · rw [InputLines.isActive, here, Option.elim_some] at idle
      cases idle.symm.trans on
    · rintro h mem (_ | _ | _) vector rfl
      · decide
      · exact absurd mem (unasserted vector)
      · exact absurd mem (free vector)
  unfold InputLines.isActive
  cases state : b.lines.state? line with
  | none => rfl
  | some s => exact Bool.eq_false_iff.mpr (clear s state)

theorem poised (life : Life unit a happenings b) (holds : Poised a) : Poised b :=
  life.keeps (S := fun _ => True) (fun one _ _ => one.poised) holds fun _ _ => trivial

end Life

structure Accepts (unit : Nat) (a c d : Core) (m : Machine) : Prop where
  poised : c.lines.isActive irqLine = true ∧ c.cpu.flags.interrupts = true
  seen : m.linesOf? unit = some d.lines
  idle : d.lines.isActive irqLine = false
  masked : Masked d
  phase : d.phase = awaits irqLine m
    (c.lines.source.elim (.stored (c.lines.vector? irqLine)) .ask)

theorem Life.accepts {before : List Happening} {m : Machine} {d : Core}
    (life : Life unit a before c) (step : Step unit c [.accepted irqLine m] d)
    (seated : a.phase = .seated) (held : a.lines.state? irqLine ≠ some .assert)
    (unasserted : ∀ vector, .driven irqLine .assert vector ∉ before) : Accepts unit a c d m := by
  have unasserting : ∀ s, c.lines.state? irqLine = some s → ¬ s = .assert := by
    refine life.keeps (P := fun c => ∀ s, c.lines.state? irqLine = some s → ¬ s = .assert)
      (fun one holds safe => one.avoids (by decide) holds safe) ?_ ?_
    · rintro s here rfl
      exact held here
    · rintro h mem s vector rfl rfl
      exact unasserted vector mem
  have shown := step.shows rfl
  have state : d.lines.state? irqLine = _ := step.state
  cases step with
  | @accepted _ _ lines answer takes row seen =>
    have poised := life.poised fun phase => by cases seated.symm.trans phase
    refine ⟨poised takes, seen, ?_, ?_, ?_⟩
    · simp only [InputLines.isActive, state, List.foldl_cons, List.foldl_nil, Happening.lineNext,
        if_true]
      cases was : c.lines.state? irqLine with
      | none => rfl
      | some s =>
        have other := unasserting s was
        cases s <;> simp_all [LineState.isActive]
    · cases answer <;> trivial
    · rw [← (InputLines.acknowledgeLine row).2.1]

theorem Accepts.again {between after : List Happening} {m m' : Machine} {d last : Core}
    (first : Accepts unit a c d m) (life : Life unit d (between ++ .accepted irqLine m' :: after) last)
    (unasserted : ∀ vector, .driven irqLine .assert vector ∉ between) :
    (∃ vector, .driven irqLine .hold vector ∈ between) ∧ ∃ h ∈ between, h.enables = true := by
  obtain ⟨c', d', early, now, -⟩ := life.split
  have start : Poised d := fun phase => by
    rw [first.phase] at phase
    cases source : c.lines.source <;> rw [source] at phase <;> cases phase
  have taken : c'.phase = .taken irqLine := by
    cases now with
    | accepted takes => exact takes
  obtain ⟨active, enabled⟩ := early.poised start taken
  constructor
  -- what is accepted was active and unmasked at its boundary, so both have changed since
  · by_contra none
    have idle := early.unheld first.idle unasserted fun vector mem => none ⟨vector, mem⟩
    cases idle.symm.trans active
  · by_contra none
    have masked : Masked c' := early.keeps maskedStep first.masked fun h mem on => none ⟨h, mem, on⟩
    rw [Masked, taken] at masked
    cases masked.symm.trans enabled

theorem Accepts.serves {after : List Happening} {m : Machine} {d last : Core}
    (accepts : Accepts unit a c d m) (life : Life unit d after last) (ends : last.phase = .seated) :
    ∃ meanwhile vector cpu m' rest, after = meanwhile ++ .entered irqLine vector cpu m' :: rest ∧
      Vectored irqLine c.lines.source (c.lines.vector? irqLine) m meanwhile vector ∧
      ∃ cpu₀ depth program io m₀, Acc8.enter (Machine.acc8Port (Machine.invoke depth) program io)
        (vector.getD irqLine) cpu₀ m₀ = some (cpu, m') := by
  have phase := accepts.phase
  cases source : c.lines.source with
  | none =>
    rw [source] at phase
    obtain ⟨calls, cpu, m', rest, rfl, drives, ran⟩ := life.enters phase ends
    refine ⟨calls, _, cpu, m', rest, rfl, ⟨fun s h => ?_, fun _ => ⟨drives, rfl⟩⟩, ran⟩
    cases h
  | some s =>
    rw [source] at phase
    obtain ⟨calls, reply, m₁, _, e, depth, rfl, drives, ran, entering, life⟩ :=
      life.answers phase ends
    obtain ⟨more, cpu, m', rest, rfl, drives', entered⟩ := life.enters entering ends
    refine ⟨calls ++ .answered irqLine reply m₁ :: more, _, cpu, m', rest, ?_,
      ⟨fun s' same => ?_, fun h => ?_⟩, entered⟩
    · rw [List.append_assoc, List.cons_append]
    · cases same
      refine ⟨calls, reply, m₁, more, depth, rfl, fun h mem => ?_, ran, rfl⟩
      exact (List.mem_append.mp mem).elim (drives h) (drives' h)
    · cases h

end Core

/-- Whoever drives the line of a processor, if only to hold or clear, and in whatever order: each
hold is delivered once. -/
theorem holdsDelivered {a : Assembly} {marks : List Mark} {m : Machine} {unit : Nat} {p : Processor}
    {cpu : Acc8} (assembled : Assembled a) (found : a.machine.units[unit]? = some p)
    (seat : a.machine.cpu? p.device = some cpu) (chronicle : Chronicle a.machine marks m)
    (held : p.lines.state? irqLine ≠ some .assert)
    (unasserted : ∀ vector, .driven irqLine .assert vector ∉ about unit marks) :
    Delivers unit p.lines (about unit marks) ∧ a.Chronicled := by
  refine ⟨?_, courseChronicled a⟩
  obtain ⟨last, ends, life⟩ := assembledLife assembled found seat chronicle
  generalize about unit marks = story at life unasserted
  have accepts : ∀ {before m after}, story = before ++ .accepted irqLine m :: after →
      ∃ c d, Core.Life unit ⟨p.lines, cpu, .seated⟩ before c ∧
        Core.Accepts unit ⟨p.lines, cpu, .seated⟩ c d m ∧ Core.Life unit d after last := by
    rintro before m after rfl
    obtain ⟨c, d, early, now, late⟩ := life.split
    exact ⟨c, d, early, early.accepts now rfl held fun vector mem =>
      unasserted vector (List.mem_append_left _ mem), late⟩
  have within : ∀ {before between after m}, story = before ++ .accepted irqLine m :: between ++ after →
      ∀ vector, .driven irqLine .assert vector ∉ between := by
    rintro before between after m rfl vector mem
    exact unasserted vector (by simp [mem])
  constructor
  case prompt =>
    rintro before cpu m after rfl active enabled other
    obtain ⟨c, d, early, now, late⟩ := life.split
    have moment := now.boundary
    have shows := moment.shows
    subst shows
    rw [Machine.lineSeen moment.seen] at active
    refine (Core.acceptsNext moment late ends).mpr ((Core.pendingIrq c).mpr ⟨fun nmi => ?_, active,
      enabled⟩)
    obtain ⟨m', rest, same⟩ := (Core.acceptsNext moment late ends).mpr nmi
    exact other m' rest same
  case cleared =>
    intro before m between h m' after here shown free
    obtain ⟨c, d, early, first, late⟩ := accepts (here.trans (List.append_assoc ..))
    obtain ⟨c', d', meanwhile, now, -⟩ := late.split
    rw [Machine.lineSeen (now.shows shown)]
    have drives : ∀ state vector, .driven irqLine state vector ≠ h := by
      rintro state vector rfl
      cases shown
    refine (meanwhile.append (.one now)).unheld first.idle (fun vector mem => ?_) fun vector mem => ?_
    · exact (List.mem_append.mp mem).elim (within here vector) fun last =>
        drives _ _ (List.mem_singleton.mp last)
    · exact (List.mem_append.mp mem).elim (free vector) fun last =>
        drives _ _ (List.mem_singleton.mp last)
  case held =>
    intro before m between m' after here
    obtain ⟨c, d, early, first, late⟩ := accepts (here.trans (List.append_assoc ..))
    exact (first.again late (within here)).1
  case enabled =>
    intro before m between m' after here
    obtain ⟨c, d, early, first, late⟩ := accepts (here.trans (List.append_assoc ..))
    exact (first.again late (within here)).2
  case served =>
    intro before m after here
    obtain ⟨c, d, early, first, late⟩ := accepts here
    obtain ⟨meanwhile, vector, cpu', m', rest, same, vectored, ran⟩ := first.serves late ends
    refine ⟨(Machine.lineSeen first.seen _).trans first.idle, meanwhile, vector, cpu', m', rest, same, ?_,
      ran, fun sane => ?_⟩
    · have source : c.lines.source = p.lines.source :=
        early.keeps (P := fun c => c.lines.source = p.lines.source) (S := fun _ => True)
          (fun one same _ => one.source.trans same) rfl fun _ _ => trivial
      have stored : c.lines.vector? irqLine = supplied irqLine (p.lines.vector? irqLine) before :=
        early.tracks (R := fun vector c => c.lines.vector? irqLine = vector)
          (fun one same => by rw [one.vector, same]) rfl
      rw [← source, ← stored]
      exact vectored
    · obtain ⟨cpu₀, depth, program, io, m₀, ran⟩ := ran
      refine (Acc8.enterSpared ran).2.resolve_right ?_
      rintro ⟨-, rfl⟩
      cases sane

def Assembly.asking (a : Assembly) (tag : String) (source : Nat → Script) : Assembly :=
  match a.setVectorSource tag source with
  | .ok b => b
  | .error _ => a

theorem Assembled.asking {a : Assembly} (h : Assembled a) (tag : String) (source : Nat → Script) :
    Assembled (a.asking tag source) := by
  unfold Assembly.asking
  split
  · rename_i b installed
    exact h.vectors installed
  · exact h

def doorbell : Assembly :=
  (((Assembly.new { quantum := .ofMicros 20 } .builtin).extend "visitor" ⟨0⟩ (.peripheral
    { name := "visitor"
      start := fun id => .perform (.schedule id (.ofMicros 2) (.ofMicros 10) 0)
      timer := fun _ _ => .step (.setRegister ⟨1⟩ Acc8.flagsId 4) fun _ =>
        .perform (.driveLine ⟨1⟩ irqLine .hold none) })).extend "cpu" (.ofMhz 1)
    (.acc8 (.new "cpu" { resetPc := some 0x200 }))).asking "cpu" fun _ =>
      .step (.driveLine ⟨1⟩ irqLine .hold none) fun _ => .done (.word 3)

theorem doorbellAssembled : Assembled doorbell :=
  (((Assembled.new _ _).extend _ _ _).extend _ _ _).asking _ _

def Happening.accepts (line : Nat) : Happening → Bool
  | .accepted other _ => other == line
  | _ => false

def Happening.asserts (line : Nat) : Happening → Bool
  | .driven other .assert _ => other == line
  | _ => false

def doorbellRings : Bool :=
  match doorbell.machine.units[0]?, doorbell.told 3 (.ofMicros 40) 20 with
  | some p, (marks, some _) =>
      (doorbell.machine.cpu? p.device).isSome && decide (p.lines.state? irqLine ≠ some .assert) &&
      (about 0 marks).all (fun h => !h.asserts irqLine) &&
      decide (2 ≤ (about 0 marks).countP (·.accepts irqLine))
  | _, _ => false

theorem visitsAnswered : ∃ p cpu marks m, doorbell.machine.units[0]? = some p ∧
    doorbell.machine.cpu? p.device = some cpu ∧ Chronicle doorbell.machine marks m ∧
    Delivers 0 p.lines (about 0 marks) ∧ 2 ≤ (about 0 marks).countP (·.accepts irqLine) := by
  have rings : doorbellRings = true := by decide +kernel
  unfold doorbellRings at rings
  split at rings
  · rename_i p marks row found ran
    obtain ⟨u, m⟩ := row
    simp only [Bool.and_eq_true, decide_eq_true_eq, List.all_eq_true] at rings
    obtain ⟨⟨⟨some, held⟩, calm⟩, twice⟩ := rings
    obtain ⟨cpu, seat⟩ := Option.isSome_iff_exists.mp some
    have chronicle := chronicleTold ran
    refine ⟨p, cpu, marks, m, found, seat, chronicle, ?_, twice⟩
    exact (holdsDelivered doorbellAssembled found seat chronicle held fun vector mem => by
      cases calm _ mem).1
  · cases rings

end Lockstep
