import Lockstep.Proofs.Recorder

/-! What a recorder notes: of a turn with where the turn ends, of what a sequencer does, and as a choice
among the notes of another recorder. -/
namespace Lockstep

namespace Recorder
open Machine
open Watch (of)
variable {ω : Type}

/-- A recorder that hears nothing of what a sequencer does. -/
structure Silent (r : Recorder ω) (call : Callback) : Prop where
  calls : ∀ s, r.call s = of (call s)
  acknowledge : ∀ unit line, r.acknowledge unit line = of (Machine.acknowledge call unit line)
  plays : ∀ unit beat m, r.pen unit (.plays beat m) = []
  stands : ∀ unit m, r.pen unit (.stands m) = []

theorem markSilent {r : Recorder ω} {unit : Nat} {moment : Machine → Moment}
    (none : ∀ m, r.pen unit (moment m) = []) : r.mark unit moment = pure ⟨⟩ :=
  funext fun m => Prod.ext (none m) rfl

section
variable {r : Recorder ω} {call : Callback} (silent : r.Silent call)
include silent

theorem beatsSilent (unit : Nat) (beats : List Beat) (s : Sequencer) :
    r.beats unit beats s = of (playBeats call unit beats s) := by
  have plays := fun beat => markSilent (silent.plays unit beat)
  have stands := markSilent (silent.stands unit)
  induction beats generalizing s with
  | nil => rfl
  | cons beat rest ih =>
    unfold Recorder.beats playBeats
    cases beat with
    | finish => rfl
    | consume | publish | setRegister | setRunState =>
      simp only [Beat.names?, Recorder.beat, plays, stands, bind_assoc, pure_bind, ih, Watch.ofBind]
    | inquire name inquiry =>
      have asked : r.inquire unit inquiry = of (Machine.inquire call unit inquiry) := by
        cases inquiry with
        | acknowledge line =>
          simp only [Recorder.inquire, Machine.inquire, silent.acknowledge, Watch.ofBind, Watch.ofPure]
        | status | consumeUntilStop => rfl
      simp only [Beat.names?, Recorder.beat, plays, stands, bind_assoc, pure_bind, ih, Watch.ofBind, asked]
    | perform task =>
      simp only [Beat.names?, Recorder.beat, plays, stands, bind_assoc, pure_bind, ih, Watch.ofBind,
        silent.calls]

theorem sequencerSilent (unit cycles : Nat) (s : Sequencer) :
    r.sequencer unit cycles s = of (runSequencer call unit cycles s) := by
  unfold Recorder.sequencer runSequencer
  simp only [markSilent (silent.stands unit), pure_bind, beatsSilent silent, Watch.ofBind]
  rfl

theorem playerSilent (unit cycles : Nat) (id : DeviceId) (s : Sequencer) :
    r.device unit cycles id (.sequencer s) = of (runDevice call unit cycles id (.sequencer s)) := by
  unfold Recorder.device runDevice
  dsimp only
  split
  · rw [sequencerSilent silent, Watch.ofBind]
    rfl
  · rfl

end

/-! What a turn notes and where it ends. -/

/-- What a boundary finds: nobody has asked the slice to stop, and of the lines it takes `taken`. -/
structure Boundary (unit : Nat) (cpu : Acc8) (m m₁ : Machine) (cpu' : Acc8) (taken : Option Nat) :
    Prop where
  goes : m.mustStop unit = false
  published : publish unit cpu.get? m = some (⟨⟩, m₁)
  pending : cpu.pending (m₁.lineActive unit Acc8.nmiLine) (m₁.lineActive unit Acc8.irqLine) =
    (cpu', taken)

section
variable {unit : Nat} {cpu : Acc8} {m : Machine}
  {post : List ω → Option ((Acc8 × Bool) × Machine) → Prop}

theorem turnEnsures {r : Recorder ω} {port : Acc8.Port (Watch ω)}
    (stops : m.mustStop unit = true → post [] (some ((cpu, false), m)))
    (idles : ∀ m₁ cpu', Boundary unit cpu m m₁ cpu' none → cpu'.runState = .waiting →
      post (r.pen unit (.boundary cpu m₁) ++ r.pen unit (.does (.idle m₁.budget.toNat) cpu'))
        (some ((cpu', false), m₁.charge m₁.budget.toNat)))
    (steps : ∀ m₁ cpu', Boundary unit cpu m m₁ cpu' none → cpu'.runState ≠ .waiting →
      (cpu'.stepWork port).Ensures m₁ fun asks s =>
        (s = none → post (r.pen unit (.boundary cpu m₁) ++
          (r.pen unit (.starts ⟨cpu', none, m₁⟩) ++ asks)) none) ∧
        ∀ cpu₂ work m₂, s = some ((cpu₂, work), m₂) → post (r.pen unit (.boundary cpu m₁) ++
          (r.pen unit (.starts ⟨cpu', none, m₁⟩) ++ (asks ++
            (r.pen unit (.executed work cpu₂ m₂) ++ r.pen unit (.does work cpu₂)))))
          (some ((cpu₂, !cpu₂.runState.isTrapped), m₂.charge work.cost)))
    (enters : ∀ m₁ cpu' line, Boundary unit cpu m m₁ cpu' (some line) →
      (r.acknowledge unit line).Ensures m₁ fun early s =>
        (s = none → post (r.pen unit (.boundary cpu m₁) ++
          (r.pen unit (.starts ⟨cpu', some line, m₁⟩) ++ early)) none) ∧
        ∀ vector m₂, s = some (vector, m₂) →
          (cpu'.enter port (vector.getD line)).Ensures m₂ fun asks s =>
            (s = none → post (r.pen unit (.boundary cpu m₁) ++
              (r.pen unit (.starts ⟨cpu', some line, m₁⟩) ++ (early ++ asks))) none) ∧
            ∀ cpu₂ m₃, s = some (cpu₂, m₃) → post (r.pen unit (.boundary cpu m₁) ++
              (r.pen unit (.starts ⟨cpu', some line, m₁⟩) ++ (early ++ (asks ++
                (r.pen unit (.entered line vector cpu₂ m₃) ++ r.pen unit (.does .entry cpu₂))))))
              (some ((cpu₂, !cpu₂.runState.isTrapped), m₃.charge Acc8.interruptCycles))) :
    (r.turn unit port cpu).Ensures m post := by
  refine Watch.ensuresGet ?_
  by_cases stop : m.mustStop unit = true
  · rw [if_pos stop]
    exact stops stop
  rw [if_neg stop]
  refine Watch.ensuresOf (fun h => by cases h) fun _ m₁ published => ?_
  refine Watch.ensuresJot (Watch.ensuresGet ?_)
  rcases pending : cpu.pending (m₁.lineActive unit Acc8.nmiLine) (m₁.lineActive unit Acc8.irqLine)
    with ⟨cpu', _ | line⟩
  all_goals
    have boundary : Boundary unit cpu m m₁ cpu' _ := ⟨Bool.eq_false_iff.mpr stop, published, pending⟩
  · dsimp only
    split
    · rename_i waits
      refine Watch.ensuresOf (fun h => by cases h) fun _ m₂ spent => Watch.ensuresLast _ ?_
      cases spent
      exact idles m₁ cpu' boundary waits
    · rename_i awake
      have stepped := steps m₁ cpu' boundary awake
      refine Watch.ensuresJot (Watch.ensuresBind (fun none => stepped.1 none) fun row m₂ ran => ?_)
      refine Watch.ensuresJot (Watch.ensuresOf (fun h => by cases h) fun _ m₃ spent => Watch.ensuresLast _ ?_)
      cases spent
      simpa only [List.append_assoc] using stepped.2 row.1 row.2 m₂ ran
  · have asked := enters m₁ cpu' line boundary
    refine Watch.ensuresJot (Watch.ensuresBind (fun none => asked.1 none) fun vector m₂ ran => ?_)
    have entered := asked.2 vector m₂ ran
    refine Watch.ensuresBind (fun none => ?_) fun cpu₂ m₃ ran => ?_
    · simpa only [List.append_assoc] using entered.1 none
    refine Watch.ensuresJot (Watch.ensuresOf (fun h => by cases h) fun _ m₄ spent => Watch.ensuresLast _ ?_)
    cases spent
    simpa only [List.append_assoc] using entered.2 cpu₂ m₃ ran

/-- A turn of a processor whose own recorder hears nothing of what it asks of others. -/
theorem plainEnsures {call : Callback} {pen : Nat → Moment → List ω} {port : Acc8.Port Run}
    (stops : m.mustStop unit = true → post [] (some ((cpu, false), m)))
    (idles : ∀ m₁ cpu', Boundary unit cpu m m₁ cpu' none → cpu'.runState = .waiting →
      post (pen unit (.boundary cpu m₁) ++ pen unit (.does (.idle m₁.budget.toNat) cpu'))
        (some ((cpu', false), m₁.charge m₁.budget.toNat)))
    (breaks : ∀ m₁ cpu' taken, Boundary unit cpu m m₁ cpu' taken →
      post (pen unit (.boundary cpu m₁) ++ pen unit (.starts ⟨cpu', taken, m₁⟩)) none)
    (steps : ∀ m₁ cpu' cpu₂ work m₂, Boundary unit cpu m m₁ cpu' none → cpu'.runState ≠ .waiting →
      cpu'.stepWork port m₁ = some ((cpu₂, work), m₂) → post (pen unit (.boundary cpu m₁) ++
        (pen unit (.starts ⟨cpu', none, m₁⟩) ++
          (pen unit (.executed work cpu₂ m₂) ++ pen unit (.does work cpu₂))))
        (some ((cpu₂, !cpu₂.runState.isTrapped), m₂.charge work.cost)))
    (enters : ∀ m₁ cpu' line vector m₂ cpu₂ m₃, Boundary unit cpu m m₁ cpu' (some line) →
      Machine.acknowledge call unit line m₁ = some (vector, m₂) →
      cpu'.enter port (vector.getD line) m₂ = some (cpu₂, m₃) → post (pen unit (.boundary cpu m₁) ++
        (pen unit (.starts ⟨cpu', some line, m₁⟩) ++
          (pen unit (.entered line vector cpu₂ m₃) ++ pen unit (.does .entry cpu₂))))
        (some ((cpu₂, !cpu₂.runState.isTrapped), m₃.charge Acc8.interruptCycles))) :
    ((plain call pen).turn unit port.quiet cpu).Ensures m post := by
  have broken : ∀ {m₁ cpu' taken}, Boundary unit cpu m m₁ cpu' taken →
      post (pen unit (.boundary cpu m₁) ++ (pen unit (.starts ⟨cpu', taken, m₁⟩) ++ [])) none :=
    fun boundary => by
      rw [List.append_nil]
      exact breaks _ _ _ boundary
  refine turnEnsures stops idles (fun m₁ cpu' boundary awake => ?_) fun m₁ cpu' line boundary => ?_
  · rw [Acc8.stepWorkQuiet]
    exact ⟨fun _ => broken boundary, fun cpu₂ work m₂ ran => steps m₁ cpu' cpu₂ work m₂ boundary awake ran⟩
  · refine ⟨fun _ => broken boundary, fun vector m₂ ran => ?_⟩
    rw [Acc8.enterQuiet]
    exact ⟨fun _ => broken boundary, fun cpu₂ m₃ entered =>
      enters m₁ cpu' line vector m₂ cpu₂ m₃ boundary ran entered⟩

end

theorem acc8Ensures {r : Recorder ω} {unit cycles : Nat} {port : Acc8.Port (Watch ω)} {cpu : Acc8}
    {m : Machine} {post : List ω → Prop} (still : post [])
    (turns : ∀ cpu', post (r.loop unit port (min cycles budgetLimit) cpu'
      (m.modifyUnit unit (·.publish cpu.get?))).1)
    (fetches : cpu.fetchResetVector = true →
      (Acc8.readWord port Acc8.resetVector).Ensures (m.modifyUnit unit (·.publish cpu.get?))
        fun asks s => (s = none → post asks) ∧ ∀ pc m', s = some (pc, m') → ∀ cpu',
          post (asks ++ (r.loop unit port (min cycles budgetLimit) cpu' m').1)) :
    (r.acc8 unit cycles port cpu).Ensures m fun log _ => post log := by
  unfold acc8
  split
  · exact still
  have loops : ∀ (cpu' : Acc8) (m : Machine) (asks : List ω),
      post (asks ++ (r.loop unit port (min cycles budgetLimit) cpu' m).1) → (do
        let cpu ← r.loop unit port (min cycles budgetLimit) cpu'
        return (cpu, consumed (← of get)) : Watch ω (Acc8 × Nat)).Ensures m
          fun log _ => post (asks ++ log) := by
    intro cpu' m asks holds
    unfold Watch.Ensures
    rwa [Watch.bindQuiet fun _ _ => rfl]
  unfold Acc8.prepare
  dsimp only
  refine Watch.ensuresOf (fun h => by cases h) fun _ m' published => ?_
  cases published
  split
  · rename_i due
    obtain ⟨fails, goes⟩ := fetches due
    simp only [bind_assoc, pure_bind]
    exact Watch.ensuresBind fails fun pc m' ran => loops _ m' _ (goes pc m' ran _)
  · simp only [pure_bind]
    exact loops _ _ [] (turns _)

/-! Notes that are chosen among notes. -/

section
variable {ω' : Type} {f : ω → Option ω'} {pen : Nat → Moment → List ω} {pen' : Nat → Moment → List ω'}
  (chosen : ∀ unit moment, (pen unit moment).filterMap f = pen' unit moment) (call : Callback)
include chosen

theorem markSifted (unit : Nat) (moment : Machine → Moment) :
    ((plain call pen).mark unit moment).sift f = (plain call pen').mark unit moment := by
  funext m
  exact Prod.ext (chosen unit (moment m)) rfl

theorem turnSifted (unit : Nat) (port : Acc8.Port Run) (cpu : Acc8) :
    ((plain call pen).turn unit port.quiet cpu).sift f = (plain call pen').turn unit port.quiet cpu := by
  unfold turn
  simp only [Watch.siftBind, Watch.siftIte, markSifted chosen, Acc8.enterQuiet, Acc8.stepWorkQuiet]
  refine bind_congr fun m => ?_
  split
  · rfl
  · refine bind_congr fun _ => bind_congr fun _ => bind_congr fun m => ?_
    rcases cpu.pending (m.lineActive unit Acc8.nmiLine) (m.lineActive unit Acc8.irqLine) with
      ⟨cpu, _ | line⟩
    · dsimp only
      split
      · simp only [Watch.siftBind, markSifted chosen]
        rfl
      · simp only [Watch.siftBind, markSifted chosen]
        rfl
    · simp only [Watch.siftBind, markSifted chosen]
      rfl

theorem loopSifted (unit : Nat) (port : Acc8.Port Run) (bound : Nat) (cpu : Acc8) :
    ((plain call pen).loop unit port.quiet bound cpu).sift f =
      (plain call pen').loop unit port.quiet bound cpu := by
  induction bound generalizing cpu with
  | zero => rfl
  | succ bound ih =>
    unfold loop
    rw [Watch.siftBind, turnSifted chosen]
    refine bind_congr fun row => ?_
    obtain ⟨cpu, on⟩ := row
    cases on with
    | true => exact ih cpu
    | false => rfl

theorem beatsSifted (unit : Nat) (beats : List Beat) (s : Sequencer) :
    ((plain call pen).beats unit beats s).sift f = (plain call pen').beats unit beats s := by
  have inquire : ∀ inquiry, ((plain call pen).inquire unit inquiry).sift f =
      (plain call pen').inquire unit inquiry := fun inquiry => by
    cases inquiry with
    | acknowledge line => exact Watch.siftBind ..
    | status | consumeUntilStop => rfl
  have beat : ∀ beat s, ((plain call pen).beat unit beat s).sift f =
      (plain call pen').beat unit beat s := fun beat s => by
    cases beat with
    | inquire name inquiry =>
      refine (Watch.siftBind ..).trans ?_
      rw [inquire]
      exact bind_congr fun reply => Watch.siftBind ..
    | perform task => exact (Watch.siftBind ..).trans (bind_congr fun reply => Watch.siftBind ..)
    | consume | publish => exact Watch.siftBind ..
    | setRegister | setRunState | finish => rfl
  induction beats generalizing s with
  | nil => exact Watch.siftBind ..
  | cons head rest ih =>
    unfold Recorder.beats
    cases head.names? with
    | some cycles => rfl
    | none => simp only [Watch.siftBind, markSifted chosen, beat, ih]

theorem deviceSifted (unit cycles : Nat) (id : DeviceId) (device : Device) :
    ((plain call pen).device unit cycles id device).sift f =
      (plain call pen').device unit cycles id device := by
  cases device with
  | acc8 cpu =>
    refine (Watch.siftBind ..).trans (bind_congr fun m => ?_)
    cases m.ownedSpace id .program with
    | error e => rfl
    | ok program =>
      cases m.ownedSpace id .io with
      | error e => rfl
      | ok io =>
        refine (Watch.siftBind ..).trans (congrArg (· >>= _) ?_)
        change ((plain call pen).acc8 unit cycles (acc8Port call program io).quiet cpu).sift f =
          (plain call pen').acc8 unit cycles (acc8Port call program io).quiet cpu
        unfold acc8
        rw [Watch.siftIte, Acc8.prepareQuiet, Acc8.prepareQuiet]
        simp only [Watch.siftBind, loopSifted chosen]
        rfl
  | sequencer s =>
    refine (Watch.siftIte ..).trans (congrArg (ite _ · _) ((Watch.siftBind ..).trans (congrArg (· >>= _) ?_)))
    unfold sequencer
    simp only [Watch.siftBind, markSifted chosen, beatsSifted chosen]
    rfl
  | peripheral p => rfl

theorem logSifted (g : Grant) : ((plain call pen).log g).filterMap f = (plain call pen').log g := by
  suffices sifted : ((plain call pen).granted g).sift f = (plain call pen').granted g from
    congrArg Prod.fst (congrFun sifted g.machine)
  refine (Watch.siftBind ..).trans (bind_congr fun _ => (Watch.siftBind ..).trans ?_)
  refine (congrArg (· >>= _) ?_).trans (bind_congr fun outcome => ?_)
  · refine (Watch.siftBind ..).trans (bind_congr fun m => ?_)
    cases m.idle g.processor.device with
    | error e => rfl
    | ok device =>
      simp only [Watch.siftBind, deviceSifted chosen]
      refine bind_congr fun _ => bind_congr fun outcome => bind_congr fun _ => ?_
      cases outcome with
      | none => rfl
      | some row => exact Watch.siftBind ..
  · refine (Watch.siftBind ..).trans (bind_congr fun _ => ?_)
    cases outcome <;> rfl

end

theorem startsSilent (call : Callback) : (starts call).Silent call :=
  ⟨fun _ => rfl, fun _ _ => rfl, fun _ _ _ => rfl, fun _ _ => rfl⟩

end Recorder

end Lockstep
