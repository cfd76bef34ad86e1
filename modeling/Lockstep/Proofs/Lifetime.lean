import Lockstep.Proofs.Telling

/-! The life of a processor goes on through its own slices, boundary by boundary, and through all
else that a machine does: the slices of other processors, timers, resets and starts. -/
namespace Lockstep

namespace Acc8

theorem pendingActive {cpu cpu' : Acc8} {nmi irq : Bool} {line : Nat}
    (takes : cpu.pending nmi irq = (cpu', some line)) :
    (line = nmiLine ∧ nmi = true) ∨ line = irqLine ∧ irq = true := by
  unfold pending at takes
  split at takes
  · rename_i edge
    cases takes
    exact .inl ⟨rfl, (Bool.and_eq_true_iff.mp edge).1⟩
  · obtain ⟨-, level⟩ := Prod.mk.inj takes
    split at level
    · rename_i masked
      cases level
      exact .inr ⟨rfl, (Bool.and_eq_true_iff.mp masked).1⟩
    · cases level

theorem pendingSame (cpu : Acc8) (nmi irq : Bool) :
    (cpu.pending nmi irq).1 = { cpu with nmiLatched := (cpu.pending nmi irq).1.nmiLatched } := by
  unfold pending
  split <;> rfl

theorem pendingAlert {cpu cpu' : Acc8} {nmi irq : Bool} {line : Option Nat} (alert : cpu.Alert)
    (takes : cpu.pending nmi irq = (cpu', line)) : cpu'.Alert := by
  have same := pendingSame cpu nmi irq
  rw [takes] at same
  dsimp only at same
  rw [same]
  exact ⟨alert.sane, alert.started, alert.placed⟩

section
variable {port : Port Run} {cpu cpu' : Acc8} {m m' : Machine}

theorem stepWorkState {work : Work} (ran : stepWork port cpu m = some ((cpu', work), m')) :
    Alike cpu cpu' ∧ ∃ byte taken, work = .instruction byte taken ∧
      cpu'.runState = (Opcode.decode? byte).elim
        (if cpu.options.illegalFatal then .trapped .illegalInstruction else cpu.runState)
        fun op => if op = .halt then .waiting else cpu.runState := by
  refine ⟨stepAlike (Machine.stepWorkInv ran), ?_⟩
  obtain ⟨byte, next, _, taken, fetched, rfl, ⟨decoded, rfl⟩ | ⟨op, decoded, executed⟩⟩ :=
    stepWorkCases ran
  · have shifted := fetchShifted fetched
    have options : next.options = cpu.options := (congrArg Acc8.options shifted :)
    have state : next.runState = cpu.runState := (congrArg Acc8.runState shifted :)
    refine ⟨byte, taken, rfl, ?_⟩
    rw [decoded, Option.elim_none, ← options, ← state]
    split <;> rfl
  · have state : next.runState = cpu.runState := (congrArg Acc8.runState (fetchShifted fetched) :)
    refine ⟨byte, taken, rfl, ?_⟩
    rw [decoded, Option.elim_some, executeState executed, state]

theorem stepAlert {work : Work} (alert : cpu.Alert)
    (ran : stepWork port cpu m = some ((cpu', work), m')) (sane : cpu'.runState.isTrapped = false) :
    cpu'.Alert := by
  obtain ⟨alike, byte, taken, -, state⟩ := stepWorkState ran
  refine ⟨sane, fun stopped => ?_, alike.2.trans alert.placed⟩
  rw [stopped] at state
  cases decoded : Opcode.decode? byte with
  | none =>
    rw [decoded, Option.elim_none] at state
    split at state
    · cases state
    · exact alert.started state.symm
  | some op =>
    rw [decoded, Option.elim_some] at state
    split at state
    · cases state
    · exact alert.started state.symm

theorem enterAlert {vector : Nat} (alert : cpu.Alert) (ran : enter port vector cpu m = some (cpu', m'))
    (sane : cpu'.runState.isTrapped = false) : cpu'.Alert := by
  refine ⟨sane, fun stopped => ?_, (enterAlike ran).2.trans alert.placed⟩
  have state := enterState ran
  rw [stopped] at state
  split at state <;> cases state

end

end Acc8

def Absence.during (own unit : Nat) (cpu : Acc8) (phase : Phase) : Absence :=
  if unit = own then some (cpu, phase) else none

namespace Absence

theorem duringOwn (own : Nat) (cpu : Acc8) (phase : Phase) :
    during own own cpu phase = some (cpu, phase) :=
  if_pos rfl

theorem duringOther {own unit : Nat} (apart : unit ≠ own) (cpu : Acc8) (phase : Phase) :
    during own unit cpu phase = none :=
  if_neg apart

theorem openDuring {own unit : Nat} {cpu : Acc8} {phase : Phase}
    (open_ : ∀ line, phase ≠ .taken line) : (during own unit cpu phase).Open := by
  intro cpu' line same
  unfold during at same
  split at same
  · cases same
    exact open_ line rfl
  · cases same

end Absence

namespace Lives
open Machine
open Watch (of jot)
variable {α : Type} {own unit : Nat} {id : DeviceId} {t : Absence} {m : Machine}

theorem act {g : Machine → Machine} {w : PUnit → Watch Mark PUnit} {marks : List Mark}
    {after : Absence} (told : w ⟨⟩ (g m) = (marks, some (⟨⟩, g m)))
    (lives : ∀ c, Sight own id m t c → ∃ c', Sight own id (g m) after c' ∧
      Core.Life own c (about own marks) c') :
    Lives own id t (of (modify g) >>= w) (fun _ => after) m := by
  intro _ _ _ c ran sight
  obtain ⟨_, _, _, _, first, rest, rfl⟩ := Watch.bindInv ran
  cases first
  rw [told] at rest
  cases rest
  exact lives c sight

theorem took {g : Machine → Machine} {after : Absence}
    (lives : ∀ c, Sight own id m t c → ∃ c', Sight own id (g m) after c' ∧ Core.Life own c [] c') :
    Lives own id t (of (modify g)) (fun _ => after) m := by
  intro _ _ _ c ran sight
  cases ran
  exact lives c sight

theorem silently {t' : Absence} {w : Watch Mark α} {after : α → Absence}
    (steps : ∀ c, Sight own id m t c → ∃ c', Sight own id m t' c' ∧ Core.Life own c [] c')
    (lives : Lives own id t' w after m) : Lives own id t w after m := by
  intro marks a m' c ran sight
  obtain ⟨c₁, sight₁, life₁⟩ := steps c sight
  obtain ⟨c₂, sight₂, life₂⟩ := lives marks a m' c₁ ran sight₁
  exact ⟨c₂, sight₂, life₁.append life₂⟩

theorem stepped {cpu cpu' : Acc8} {phase phase' : Phase} {what : Happening}
    {n : Machine → List Mark} (one : n m = [⟨unit, what⟩])
    (steps : unit = own → ∀ lines, m.linesOf? own = some lines →
      Core.Step own ⟨lines, cpu, phase⟩ [what] ⟨lines, cpu', phase'⟩) :
    Lives own id (.during own unit cpu phase) (jot n) (fun _ => .during own unit cpu' phase') m := by
  refine tell fun c sight => ?_
  rw [one]
  by_cases here : unit = own
  · subst here
    rw [Absence.duringOwn] at sight ⊢
    obtain ⟨lines, seen, place⟩ := c
    obtain ⟨rfl, rfl, -⟩ := sight.away _ _ rfl
    rw [aboutOwn]
    exact ⟨_, sight.moved, .one (steps rfl lines sight.lines)⟩
  · rw [Absence.duringOther here] at sight ⊢
    rw [aboutOther here]
    exact ⟨c, sight, .still c⟩

theorem stirred {cpu cpu' : Acc8} {phase phase' : Phase} {w : Watch Mark α} {after : α → Absence}
    (steps : ∀ lines, Core.Step own ⟨lines, cpu, phase⟩ [] ⟨lines, cpu', phase'⟩)
    (lives : Lives own id (.during own unit cpu' phase') w after m) :
    Lives own id (.during own unit cpu phase) w after m := by
  refine silently (fun c sight => ?_) lives
  by_cases here : unit = own
  · subst here
    rw [Absence.duringOwn] at sight ⊢
    obtain ⟨lines, seen, place⟩ := c
    obtain ⟨rfl, rfl, -⟩ := sight.away _ _ rfl
    exact ⟨_, sight.moved, .one (steps lines)⟩
  · rw [Absence.duringOther here] at sight ⊢
    exact ⟨c, sight, .still c⟩

end Lives

namespace Machine
open Watch (of note)
variable {own unit : Nat} {id : DeviceId} {t : Absence} {m : Machine} {cpu : Acc8} {depth : Nat}

theorem lineSeen {lines : InputLines (Nat → Script)} (seen : m.linesOf? unit = some lines)
    (line : Nat) : m.lineActive unit line = lines.isActive line := by
  obtain ⟨p, found, rfl⟩ := Option.map_eq_some_iff.mp seen
  rw [lineActive, found, Option.elim_some]

theorem publishCalm (unit : Nat) (read : RegisterId → Option Nat) :
    Unfelt own id m (m.modifyUnit unit (·.publish read)) :=
  .modify rfl rfl (fun _ => rfl) fun _ _ => rfl

theorem consumeLives (cycles : Nat) : Lives own id t (of (consume cycles)) (fun _ => t) m :=
  .change (.tree rfl rfl)

theorem noteCalm (unit line : Nat) (vector : Option Nat) :
    Unfelt own id m (m.noteInterrupt unit line vector) := by
  unfold noteInterrupt
  dsimp only
  split
  · exact (Unfelt.count m _).trans (.trace _ _)
  · exact .count m _

theorem acknowledges {lines : InputLines (Nat → Script)} {line : Nat}
    (active : lines.isActive line = true) : ∃ row, lines.acknowledge? line = some row := by
  unfold InputLines.acknowledge?
  cases row : lines.lines[line]? with
  | none => simp [InputLines.isActive, InputLines.state?, row] at active
  | some e => exact ⟨_, rfl⟩

theorem acknowledgeLives {line : Nat} (active : unit = own → m.lineActive unit line = true) :
    Lives own id (.during own unit cpu (.taken line)) (tellAcknowledge (tellInvoke depth) unit line)
      (fun vector => .during own unit cpu (.entering line vector)) m := by
  have noted : ∀ (vector : Option Nat) (m : Machine),
      Lives own id (.during own unit cpu (.entering line vector)) (do
        of (modify (·.noteInterrupt unit line vector))
        return vector) (fun vector => .during own unit cpu (.entering line vector)) m :=
    fun vector m => .bind (.change (noteCalm ..)) fun _ _ _ => .still rfl
  unfold tellAcknowledge
  refine .look ?_
  cases row : (m.units[unit]?).bind (·.lines.acknowledge? line) with
  | none =>
    -- the line that was taken is active, so only another unit can lack it
    have apart : unit ≠ own := fun here => by
      have on := active here
      unfold lineActive at on
      cases found : m.units[unit]? with
      | none => simp [found] at on
      | some p =>
        rw [found] at row on
        obtain ⟨_, acknowledged⟩ := acknowledges on
        rw [Option.bind_some, acknowledged] at row
        cases row
    rw [Absence.duringOther apart, ← Absence.duringOther apart cpu (.entering line none)]
    exact noted none m
  | some accepted =>
    obtain ⟨lines, answer⟩ := accepted
    obtain ⟨p, found, acknowledged⟩ := Option.bind_eq_some_iff.mp row
    dsimp only
    rw [← bind_assoc]
    refine .bind (s := fun _ => .during own unit cpu
        (Core.awaits line (m.modifyUnit unit fun p => { p with lines }) answer))
      (.act rfl fun c sight => ?_) fun _ m₁ told => ?_
    · by_cases here : unit = own
      · subst here
        rw [Absence.duringOwn] at sight ⊢
        obtain ⟨same, place, -⟩ := sight.away _ _ rfl
        rw [sight.here found] at acknowledged
        have relined : Sight unit id (m.modifyUnit unit fun p => { p with lines }) _
          { c with lines } := sight.relined lines rfl rfl (fun _ => rfl) fun _ _ => rfl
        rw [aboutOwn]
        refine ⟨_, ?_, .one (.accepted place acknowledged relined.lines)⟩
        rw [← same]
        exact relined.moved
      · rw [Absence.duringOther here] at sight ⊢
        rw [aboutOther here]
        exact ⟨c, sight.calm (.modify rfl rfl (fun _ => rfl) fun same => absurd same here), .still c⟩
    · cases answer with
      | stored vector => exact noted vector m₁
      | ask source =>
        cases told
        refine .bind (invokeLives (Absence.openDuring fun _ h => by cases h) depth _ _)
          fun reply m ran => ?_
        have asked : invoke depth (source line) _ = some (reply, m) :=
          (congrFun (tellInvokeResult depth (source line)) _).symm.trans ran
        exact .bind (.stepped rfl fun _ _ seen => .answered depth rfl asked seen) fun _ m _ => noted _ m

theorem duringPort {phase : Phase} (free : ∀ line, phase ≠ .taken line) (program io : SpaceId) :
    Acc8.Port.Related (fun _ w _ => ∀ m, Lives own id (.during own unit cpu phase) w
      (fun _ => .during own unit cpu phase) m) (tellPort (tellInvoke depth) program io)
      (tellPort (tellInvoke depth) program io) :=
  portLives (fun s m => invokeLives (Absence.openDuring free) depth s m) program io

theorem turnLives (program io : SpaceId) (alert : cpu.Alert) (m : Machine) :
    Lives own id (.during own unit cpu .resting)
      ((Recorder.marks (tellInvoke depth)).turn unit (tellPort (tellInvoke depth) program io) cpu)
      (fun row => .during own unit row.1 .resting) m := by
  have spent : ∀ {n : Machine → List Mark} (cycles : Nat) (row : Acc8 × Bool) (m : Machine),
      (∀ m, n m = []) → Lives own id (.during own unit row.1 .resting) (do
        of (consume cycles)
        Watch.jot n
        return row) (fun row => .during own unit row.1 .resting) m :=
    fun cycles row m none => .bind (consumeLives cycles) fun _ m _ =>
      .bind (.hush (congrArg (about own) (none m))) fun _ _ _ => .still rfl
  unfold Recorder.turn
  refine .look ?_
  split
  · exact .still rfl
  · refine .bind (.change (publishCalm ..)) fun _ m _ => ?_
    rcases takes : cpu.pending (m.lineActive unit Acc8.nmiLine) (m.lineActive unit Acc8.irqLine)
      with ⟨cpu₁, _ | line⟩
    · have pending : unit = own → ∀ lines, m.linesOf? own = some lines →
          Core.pending ⟨lines, cpu, .resting⟩ = (cpu₁, none) := by
        rintro rfl lines seen
        rw [← takes, lineSeen seen, lineSeen seen]
        rfl
      refine .bind (.stepped rfl fun here lines seen =>
        .plain rfl alert seen (pending here lines seen)) fun _ m₁ told => ?_
      cases told
      refine .look ?_
      rw [takes]
      dsimp only
      split
      · rename_i waits
        exact .stirred (fun _ => .idle rfl waits) (spent _ _ m fun _ => rfl)
      · rename_i awake
        refine .bind (.hush rfl) fun _ m _ => ?_
        refine .bind (Acc8.stepWorkRelated (duringPort (fun _ h => by cases h) program io) cpu₁ m)
          fun row m₂ ran => ?_
        obtain ⟨cpu₂, work⟩ := row
        have worked : cpu₁.stepWork (acc8Port (invoke depth) program io) m = some ((cpu₂, work), m₂) :=
          (congrFun (tellStepWorkResult (tellInvokeResult depth) program io cpu₁) m).symm.trans ran
        refine .bind (.stepped rfl fun _ lines seen => ?_) fun _ m _ => spent _ _ m fun _ => rfl
        exact .executed depth program io rfl awake worked seen
    · have pending : unit = own → ∀ lines, m.linesOf? own = some lines →
          Core.pending ⟨lines, cpu, .resting⟩ = (cpu₁, some line) := by
        rintro rfl lines seen
        rw [← takes, lineSeen seen, lineSeen seen]
        rfl
      refine .bind (.stepped rfl fun here lines seen =>
        .taken rfl alert seen (pending here lines seen)) fun _ m₁ told => ?_
      cases told
      have active : unit = own → m.lineActive unit line = true := fun _ => by
        rcases Acc8.pendingActive takes with ⟨rfl, on⟩ | ⟨rfl, on⟩ <;> exact on
      refine .look ?_
      rw [takes]
      refine .bind (.hush rfl) fun _ m₁ told => ?_
      cases told
      refine .bind (acknowledgeLives active) fun vector m₁ _ => ?_
      refine .bind (Acc8.enterRelated (duringPort (fun _ h => by cases h) program io) _ cpu₁ m₁)
        fun cpu₂ m₂ ran => ?_
      have entered : cpu₁.enter (acc8Port (invoke depth) program io) (vector.getD line) m₁ =
          some (cpu₂, m₂) :=
        (congrFun (tellEnterResult (tellInvokeResult depth) program io _ cpu₁) m₁).symm.trans ran
      refine .bind (.stepped rfl fun _ lines seen => ?_) fun _ m _ => spent _ _ m fun _ => rfl
      exact .entered depth program io rfl entered seen

theorem turnAlert {ω : Type} {r : Recorder ω} (unit : Nat) (port : Acc8.Port (Watch ω))
    (alert : cpu.Alert) (m : Machine) : (r.turn unit port cpu).Ensures m fun _ s => ∀ cpu' m',
      s = some ((cpu', true), m') → cpu'.Alert := by
  have last : ∀ {cpu cpu' : Acc8} {m m' : Machine}, (cpu.runState.isTrapped = false → cpu.Alert) →
      some ((cpu, !cpu.runState.isTrapped), m) = some ((cpu', true), m') → cpu'.Alert := by
    intro cpu cpu' m m' next same
    obtain ⟨row, -⟩ := Prod.mk.inj (Option.some.inj same)
    obtain ⟨rfl, on⟩ := Prod.mk.inj row
    exact next (by simpa using on)
  refine Recorder.turnEnsures (fun _ _ _ h => by cases h) (fun _ _ _ _ _ _ h => by cases h)
    (fun m₁ cpu₁ boundary _ => ⟨fun _ _ _ h => (by cases h), fun cpu₂ work m₂ ran _ _ => last ?_⟩)
    fun m₁ cpu₁ line boundary => ⟨fun _ _ _ h => (by cases h), fun vector m₂ _ =>
      ⟨fun _ _ _ h => (by cases h), fun cpu₂ m₃ ran _ _ => last ?_⟩⟩
  all_goals have looked := Acc8.pendingAlert alert boundary.pending
  · have result := Acc8.stepWorkRelated port.resultRelated cpu₁
    exact Acc8.stepAlert looked ((congrFun result _).symm.trans ran)
  · have result := Acc8.enterRelated port.resultRelated (vector.getD line) cpu₁
    exact Acc8.enterAlert looked ((congrFun result _).symm.trans ran)

theorem loopLives (program io : SpaceId) (bound : Nat) (cpu : Acc8) (alert : cpu.Alert) (m : Machine) :
    Lives own id (.during own unit cpu .resting)
      ((Recorder.marks (tellInvoke depth)).loop unit (tellPort (tellInvoke depth) program io) bound cpu)
      (fun cpu => .during own unit cpu .resting) m := by
  induction bound generalizing cpu m with
  | zero => exact .still rfl
  | succ bound ih =>
    refine .bind (turnLives program io alert m) fun row m₁ ran => ?_
    obtain ⟨cpu₁, on⟩ := row
    cases on with
    | false => exact .still rfl
    | true => exact ih cpu₁ (turnAlert unit _ alert m cpu₁ m₁ ran) m₁

theorem prepareLives (program io : SpaceId) (cpu : Acc8) (m : Machine) :
    Lives own id (.during own unit cpu .resting) (cpu.prepare (tellPort (tellInvoke depth) program io))
      (fun cpu => .during own unit cpu .resting) m := by
  have woken : ∀ (cpu : Acc8) (m : Machine), Lives own id (.during own unit cpu .resting)
      (pure (if cpu.runState = .stopped then { cpu with runState := .running } else cpu))
      (fun cpu => .during own unit cpu .resting) m := fun cpu m => by
    split
    · rename_i stopped
      exact .stirred (fun _ => .woken rfl stopped) (.still rfl)
    · exact .still rfl
  unfold Acc8.prepare
  dsimp only
  split
  · refine .bind (Acc8.readWordRelated (duringPort (fun _ h => by cases h) program io) _ m)
      fun pc m _ => ?_
    exact .bind (.stirred (fun _ => .fetched pc rfl) (.still rfl)) fun cpu m _ => woken cpu m
  · exact .bind (.still rfl) fun cpu m _ => woken cpu m

theorem prepareAlert {ω : Type} (port : Acc8.Port (Watch ω)) (sane : cpu.runState.isTrapped = false)
    (m : Machine) : (cpu.prepare port).Ensures m fun _ r => ∀ cpu' m',
      r = some (cpu', m') → cpu'.Alert := by
  have woken : ∀ (cpu : Acc8) (m : Machine), cpu.runState.isTrapped = false →
      cpu.fetchResetVector = false →
      (pure (if cpu.runState = .stopped then { cpu with runState := .running } else cpu) :
        Watch ω Acc8).Ensures m fun _ r => ∀ cpu' m', r = some (cpu', m') → cpu'.Alert := by
    intro cpu m sane placed cpu' m' same
    obtain ⟨rfl, -⟩ := Prod.mk.inj (Option.some.inj same)
    split
    · exact ⟨rfl, (fun h => by cases h), placed⟩
    · rename_i started
      exact ⟨sane, started, placed⟩
  unfold Acc8.prepare
  dsimp only
  split
  · refine Watch.ensuresBind (fun _ _ _ h => by cases h) fun pc m _ => ?_
    rw [pure_bind]
    exact woken _ m sane rfl
  · rename_i placed
    rw [pure_bind]
    exact woken cpu m sane (Bool.eq_false_iff.mpr placed)

theorem acc8Lives (program io : SpaceId) (cycles : Nat) (cpu : Acc8) (m : Machine) :
    Lives own id (.during own unit cpu .resting)
      ((Recorder.marks (tellInvoke depth)).acc8 unit cycles (tellPort (tellInvoke depth) program io) cpu)
      (fun row => .during own unit row.1 .resting) m := by
  unfold Recorder.acc8
  split
  · exact .still rfl
  · rename_i goes
    have sane : cpu.runState.isTrapped = false := by simp at goes; exact goes.2
    refine .bind (.change (publishCalm ..)) fun _ m _ => ?_
    refine .bind (prepareLives program io cpu m) fun cpu₁ m₁ ran => ?_
    exact .bind (loopLives program io _ cpu₁ (prepareAlert _ sane m cpu₁ m₁ ran) m₁) fun _ _ _ =>
      .look (.still rfl)

end Machine

namespace Sight
variable {unit : Nat} {id : DeviceId} {m : Machine} {c : Core} {cpu : Acc8} {phase : Phase}

theorem leaves (sight : Sight unit id m none c) (phase : Phase) :
    Sight unit id (m.setBusy id true) (some (c.cpu, phase)) { c with phase } := by
  have busied : Sight unit id (m.setBusy id true) none c := sight.busied fun _ => .inl rfl
  obtain ⟨cpu, found, -⟩ := busied.seat
  refine ⟨sight.device, sight.single, sight.lines, ⟨cpu, found, fun h => by cases h⟩,
    fun _ _ same => ?_⟩
  cases same
  refine ⟨rfl, rfl, ?_⟩
  obtain ⟨_, found, -⟩ := sight.seat
  obtain ⟨seat, row, -⟩ := Machine.cpuInv found
  obtain ⟨node, known, -⟩ := Option.map_eq_some_iff.mp row
  rw [Machine.busySet, if_pos rfl, Machine.busyAt, known]
  rfl

theorem returns (sight : Sight unit id m (some (cpu, phase)) c) :
    Sight unit id ((m.setBusy id false).withDevice id (.acc8 cpu)) none { c with phase := .seated } := by
  obtain ⟨rfl, -, -⟩ := sight.away _ _ rfl
  obtain ⟨old, found, -⟩ := sight.seat
  have seated : Sight unit id m none ⟨c.lines, old, .seated⟩ :=
    ⟨sight.device, sight.single, sight.lines, ⟨old, found, fun _ => ⟨rfl, rfl⟩⟩,
      fun _ _ h => by cases h⟩
  have free : Sight unit id (m.setBusy id false) none ⟨c.lines, old, .seated⟩ :=
    seated.busied fun _ => .inl rfl
  exact free.placed c.cpu

end Sight

namespace Machine
open Watch (of note)
variable {own unit : Nat} {id : DeviceId} {m : Machine} {cpu : Acc8} {depth : Nat}

theorem seatedLives (s : Script) (m : Machine) :
    Lives own id none (tellInvoke depth s) (fun _ => none) m :=
  invokeLives (fun _ _ h => by cases h) depth s m

theorem inquireLives (inquiry : Inquiry) (apart : unit ≠ own) (m : Machine) :
    Lives own id none ((Recorder.marks (tellInvoke depth)).inquire unit inquiry) (fun _ => none) m := by
  cases inquiry with
  | acknowledge line =>
    -- the unit is another, so it matters to nobody which processor is in the slice
    have lives : Lives own id (.during own unit default (.taken line))
        (tellAcknowledge (tellInvoke depth) unit line)
        (fun vector => .during own unit default (.entering line vector)) m :=
      acknowledgeLives fun here => absurd here apart
    simp only [Absence.duringOther apart] at lives
    exact .bind lives fun _ _ _ => .still rfl
  | status => exact .run fun _ _ ran _ sight => by cases ran; exact sight
  | consumeUntilStop cycles =>
    refine .run fun _ _ ran _ sight => ?_
    cases ran
    exact sight.calm (.tree rfl rfl)

theorem beatsLives (apart : unit ≠ own) (beats : List Beat) (s : Sequencer) (m : Machine) :
    Lives own id none ((Recorder.marks (tellInvoke depth)).beats unit beats s) (fun _ => none) m := by
  induction beats generalizing s m with
  | nil => exact .look (.still rfl)
  | cons beat rest ih =>
    unfold Recorder.beats
    cases beat.names? with
    | some cycles => exact .still rfl
    | none =>
      refine .bind (.hush rfl) fun _ m _ => .bind (s := fun _ => none) ?_ fun s m _ =>
        .bind (.hush rfl) fun _ m _ => ih s m
      cases beat with
      | consume cycles => exact .bind (consumeLives cycles) fun _ _ _ => .still rfl
      | publish => exact .bind (.change (publishCalm ..)) fun _ _ _ => .still rfl
      | setRegister | setRunState | finish => exact .still rfl
      | inquire name inquiry =>
        exact .bind (inquireLives inquiry apart m) fun _ m _ =>
          .bind (.change (.tree rfl rfl)) fun _ _ _ => .still rfl
      | perform task =>
        exact .bind (seatedLives _ m) fun _ m _ =>
          .bind (.change (.tree rfl rfl)) fun _ _ _ => .still rfl

theorem deviceLives (apart : unit ≠ own) (cycles : Nat) (other : DeviceId) (device : Device)
    (m : Machine) :
    Lives own id none ((Recorder.marks (tellInvoke depth)).device unit cycles other device)
      (fun _ => none) m := by
  cases device with
  | acc8 cpu =>
    unfold Recorder.device
    refine .look ?_
    dsimp only
    split
    · rename_i program io _ _
      have lives : Lives own id (.during own unit cpu .resting)
          ((Recorder.marks (tellInvoke depth)).acc8 unit cycles (tellPort (tellInvoke depth) program io)
            cpu)
          (fun row => .during own unit row.1 .resting) m := acc8Lives program io cycles cpu m
      simp only [Absence.duringOther apart] at lives
      exact .bind lives fun _ _ _ => .still rfl
    · exact .still rfl
  | sequencer s =>
    unfold Recorder.device
    dsimp only
    split
    · refine .bind (.bind (.change (.tree rfl rfl)) fun _ m _ => .bind (.hush rfl) fun _ m _ => ?_)
        fun _ _ _ => .still rfl
      exact beatsLives apart _ _ m
    · exact .still rfl
  | peripheral p => exact .still rfl

theorem deviceSpaces (depth unit cycles : Nat) (id : DeviceId) (cpu : Acc8) (m : Machine) :
    (Recorder.marks (tellInvoke depth)).device unit cycles id (.acc8 cpu) m = ([], some (none, m)) ∨
      ∃ program io,
      m.ownedSpace id .program = .ok program ∧ m.ownedSpace id .io = .ok io := by
  rw [Recorder.device, Watch.getBind]
  cases program : m.ownedSpace id .program with
  | error e => exact .inl rfl
  | ok program =>
    cases io : m.ownedSpace id .io with
    | error e => exact .inl rfl
    | ok io => exact .inr ⟨_, _, rfl, rfl⟩

theorem ownGrantLives (cycles : Nat) (idle : m.idle id = .ok (.acc8 cpu)) :
    Lives own id none (do
      of (modify (·.setBusy id true))
      let outcome ← (Recorder.marks (tellInvoke depth)).device own cycles id (.acc8 cpu)
      of (modify (·.setBusy id false))
      match outcome with
      | none => return none
      | some (device, count) =>
          of (modify (·.withDevice id device))
          return some (count, device.runState?.bind (·.trap?))) (fun _ => none) m := by
  rcases deviceSpaces depth own cycles id cpu (m.setBusy id true) with
    refused | ⟨program, io, first, second⟩
  · refine .lend idle (fun marks a m' c ran sight => ?_) fun outcome m₁ m₂ ran => ?_
    · rw [refused] at ran
      cases ran
      exact ⟨c, sight, .still c⟩
    · rw [refused] at ran
      cases ran
      exact .still rfl
  · refine .bind (s := fun _ => .during own own cpu .resting) (.took fun c sight => ?_)
      fun _ m₁ lent => ?_
    · obtain ⟨-, same, free⟩ := sight.idle idle
      cases same
      rw [Absence.duringOwn]
      exact ⟨_, sight.leaves .resting, .one (.load free)⟩
    · cases lent
      have back : ∀ (cpu : Acc8) (count : Nat) (m : Machine),
          Lives own id (.during own own cpu .resting) (do
            of (modify (·.setBusy id false))
            of (modify (·.withDevice id (.acc8 cpu)))
            return some (count, (Device.acc8 cpu).runState?.bind (·.trap?)) : Watch Mark _)
            (fun _ => none) m := by
        intro cpu count m _ _ _ c ran sight
        cases ran
        rw [Absence.duringOwn] at sight
        exact ⟨_, sight.returns, .one (.shut (sight.away _ _ rfl).2.1)⟩
      simp only [Recorder.device, bind_assoc]
      refine .look ?_
      simp only [first, second, bind_assoc, pure_bind]
      exact .bind (acc8Lives program io cycles cpu _) fun row m _ => back row.1 row.2 m

theorem grantLives {other : DeviceId} (cycles : Nat) (seats : other = id ↔ unit = own)
    (m : Machine) :
    Lives own id none ((Recorder.marks (tellInvoke depth)).grant unit cycles other) (fun _ => none) m := by
  unfold Recorder.grant
  refine .look ?_
  cases idle : m.idle other with
  | error e => exact .still rfl
  | ok device =>
    by_cases here : unit = own
    · obtain rfl := seats.mpr here
      subst here
      intro marks a m' c ran sight
      obtain ⟨-, rfl, -⟩ := sight.idle idle
      exact ownGrantLives cycles idle marks a m' c ran sight
    · have apart : id ≠ other := fun same => here (seats.mp same.symm)
      refine .bind (.change (.elsewhere apart)) fun _ m _ => ?_
      refine .bind (deviceLives here cycles other device m) fun outcome m _ => ?_
      refine .bind (.change (.elsewhere apart)) fun _ m _ => ?_
      cases outcome with
      | none => exact .still rfl
      | some row => exact .bind (.change (.elsewhere apart)) fun _ _ _ => .still rfl

theorem openedCalm (g : Grant) : Unfelt own id g.machine g.opened := by
  have framed : Unfelt own id g.machine
      { g.machine with frame := some g.frame, budget := (min g.cycles budgetLimit : Nat) } :=
    .tree rfl rfl
  refine framed.trans (.trans ?_ (.trace ..))
  exact .modify rfl rfl (fun _ => rfl) fun _ _ => rfl

theorem sliceLives (unit : Nat) (target : Time) (m : Machine) :
    Lives own id none ((Diary.marks (tellInvoke depth)).slice unit target) (fun _ => none) m := by
  refine .look ?_
  split
  · exact .still rfl
  · rename_i p found
    intro marks a m' c ran sight
    have seats := sight.apart found
    refine Lives.bind (r := fun _ => none) (.turn (openedCalm _)) (fun _ m _ => ?_) marks a m' c ran sight
    refine .bind (grantLives _ seats m) fun outcome m _ => ?_
    refine .bind (.change (.tree rfl rfl)) fun _ m _ => ?_
    cases outcome with
    | none => exact .change (.modify rfl rfl (fun _ => rfl) fun _ _ => rfl)
    | some row => exact .change (.settle ..)

theorem dispatchLives (fired : Timer.Fired) (m : Machine) :
    Lives own id none ((Diary.marks (tellInvoke depth)).dispatch fired) (fun _ => none) m := by
  unfold Diary.dispatch
  refine .bind (.change ((Unfelt.count ..).trans (.trace ..))) fun _ m _ => .look ?_
  cases idle : m.idle fired.owner with
  | error e => exact .still rfl
  | ok device =>
    refine .bind (.hush rfl) fun _ m₁ told => ?_
    cases told
    rw [← bind_pure (of (modify (·.setBusy fired.owner false)))]
    cases device with
    | peripheral p =>
      exact .lend idle (.bind (seatedLives _ _) fun _ _ _ => .still rfl) fun _ _ _ _ => .still rfl
    | acc8 | sequencer => exact .lendIdly idle fun _ => .still rfl

theorem passLives (target : Time) (m : Machine) :
    Lives own id none ((Diary.marks (tellInvoke depth)).pass target) (fun _ => none) m := by
  refine .bind (.hush rfl) fun _ m _ => .look ?_
  dsimp only
  split
  · exact .bind (.turn (.tree rfl rfl)) fun _ m _ => .bind (.hush rfl) fun _ m _ =>
      .bind (dispatchLives _ m) fun _ _ _ => .still rfl
  · refine .bind (.turn (.tree rfl rfl)) fun _ m _ => ?_
    split
    · exact .still rfl
    · split
      · exact .still rfl
      · exact .bind (sliceLives _ target m) fun _ _ _ => .still rfl

theorem resetDevicesLives (ids : List DeviceId) (m : Machine) :
    Lives own id none (tellResetDevices (tellInvoke depth) ids) (fun _ => none) m := by
  induction ids generalizing m with
  | nil => exact .still rfl
  | cons other rest ih =>
    refine .look ?_
    cases idle : m.idle other with
    | error e => exact ih m
    | ok device =>
      cases device with
      | peripheral p =>
        exact .lend idle (.bind (seatedLives _ _) fun _ _ _ => .still rfl) fun _ _ m _ => ih m
      | acc8 | sequencer => exact .lendIdly idle ih

theorem restartLife {c : Core} (now : Time) (index : Nat) (sight : Sight own id m none c) :
    ∃ c', Sight own id (restartUnit now m index) none c' ∧
      Core.Life own c (about own (m.restartMarks index)) c' := by
  unfold restartMarks
  cases reset : m.resetUnit index with
  | error e =>
    rw [restartSkipped _ reset]
    refine ⟨c, sight, ?_⟩
    cases m.units[index]? <;> exact .still c
  | ok m' =>
    rw [restartDone _ reset]
    have calm : Unfelt own id m' (m'.modifyUnit index fun p =>
        { p with suspension := p.suspension.diff { trapped := true, spin := true } }.catchUp now) := by
      refine .modify rfl rfl (fun p => ?_) fun _ p => ?_ <;> unfold Processor.catchUp <;> split <;> rfl
    cases found : m.units[index]? with
    | none =>
      rcases resetUnitInv reset with ⟨-, rfl⟩ | ⟨p, _, row, -⟩
      · exact ⟨c, sight.calm calm, .still c⟩
      · rw [found] at row
        cases row
    | some p =>
      obtain ⟨c', seen, life⟩ := resetLife found reset sight
      exact ⟨c', seen.calm calm, life⟩

theorem restartsLives (now : Time) (indices : List Nat) (m : Machine) :
    Lives own id none (tellRestarts now indices) (fun _ => none) m := by
  induction indices generalizing m with
  | nil => exact .still rfl
  | cons index rest ih =>
    unfold tellRestarts
    refine .look ?_
    rw [← bind_assoc]
    exact .bind (.act rfl fun c sight => restartLife now index sight) fun _ m _ => ih m

theorem resetLives (m : Machine) : Lives own id none (tellReset (tellInvoke depth)) (fun _ => none) m :=
  .look (.bind (resetDevicesLives _ m) fun _ _ _ => .look (restartsLives _ _ _))

theorem startDevicesLives (ids : List DeviceId) (m : Machine) :
    Lives own id none (tellStartDevices (tellInvoke depth) ids) (fun _ => none) m := by
  induction ids generalizing m with
  | nil => exact .still rfl
  | cons other rest ih =>
    refine .look ?_
    cases idle : m.idle other with
    | error e => exact .still rfl
    | ok device =>
      cases device with
      | peripheral p =>
        refine .lend idle (seatedLives _ _) fun reply _ m _ => ?_
        split
        · exact .still rfl
        · exact ih m
      | acc8 | sequencer => exact .lend idle (.still rfl) fun _ _ m ran => by cases ran; exact ih m

theorem startLives (m : Machine) : Lives own id none (tellStart (tellInvoke depth)) (fun _ => none) m := by
  refine .look (.bind (startDevicesLives _ m) fun failed m _ => ?_)
  cases failed with
  | some e => exact .still rfl
  | none =>
    exact .bind (.change (.tree rfl rfl)) fun _ m _ =>
      .bind (resetLives m) fun _ _ _ => .still rfl

end Machine

theorem chronicleLife {origin m : Machine} {marks : List Mark} {unit : Nat} {id : DeviceId} {c : Core}
    (chronicle : Chronicle origin marks m) (sight : Sight unit id origin none c) :
    ∃ c', Sight unit id m none c' ∧ Core.Life unit c (about unit marks) c' := by
  have join : ∀ {first more : List Mark} {c₁ c₂ c₃ : Core}, Core.Life unit c₁ (about unit first) c₂ →
      Core.Life unit c₂ (about unit more) c₃ → Core.Life unit c₁ (about unit (first ++ more)) c₃ :=
    fun one two => by
      rw [aboutAppend]
      exact one.append two
  have told := Machine.tellInvokeResult
  induction chronicle with
  | origin => exact ⟨c, sight, .still c⟩
  | start depth _ ran ih =>
    obtain ⟨c₁, seen, life⟩ := ih
    obtain ⟨c₂, seen, more⟩ := Machine.startLives _ _ _ _ _
      (Watch.resultRan (Machine.tellStartResult (told depth)) ran) seen
    exact ⟨c₂, seen, join life more⟩
  | script depth script _ ran ih =>
    obtain ⟨c₁, seen, life⟩ := ih
    obtain ⟨c₂, seen, more⟩ := Machine.seatedLives script _ _ _ _ _
      (Watch.resultRan (told depth script) ran) seen
    exact ⟨c₂, seen, join life more⟩
  | reset depth _ ran ih =>
    obtain ⟨c₁, seen, life⟩ := ih
    obtain ⟨c₂, seen, more⟩ := Machine.resetLives _ _ _ _ _
      (Watch.resultRan (Machine.tellResetResult (told depth)) ran) seen
    exact ⟨c₂, seen, join life more⟩
  | pass depth target _ ran ih =>
    obtain ⟨c₁, seen, life⟩ := ih
    obtain ⟨c₂, seen, more⟩ := Machine.passLives target _ _ _ _ _
      (Watch.resultRan (Diary.passResult (Diary.marksFollow (told depth)) target) ran) seen
    exact ⟨c₂, seen, join life more⟩
  | sink name _ ih =>
    obtain ⟨c₁, seen, life⟩ := ih
    exact ⟨c₁, seen.calm (.tree rfl rfl), life⟩

end Lockstep
