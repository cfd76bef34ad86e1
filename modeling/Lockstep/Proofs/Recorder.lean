import Lockstep.Machine.Advance
import Lockstep.Proofs.Processor
import Lockstep.Proofs.Watch

/-! Slices with notes. A slice is written once, with every moment of it that anybody notes; a recorder
says which moments are noted, and how what a processor asks of others is carried out. Without its
notes a slice is the slice of the machine. -/
namespace Lockstep

namespace Acc8

inductive Work where
  | instruction (byte : UInt8) (taken : Bool)
  | entry
  | idle (cycles : Nat)
  deriving DecidableEq, Repr

def Work.cost : Work → Nat
  | .instruction byte taken =>
      match Opcode.decode? byte with
      | some op => op.cycles + if taken then branchPenalty else 0
      | none => illegalCycles
  | .entry => interruptCycles
  | .idle cycles => cycles

section
variable {m n : Type → Type} [Monad m] [Monad n]

def stepWork (port : Port m) (cpu : Acc8) : m (Acc8 × Work) := do
  let start := cpu.pc
  let (byte, cpu) ← fetch port cpu
  match Opcode.decode? byte with
  | none =>
      if cpu.options.illegalFatal then
        return ({ cpu with pc := start }.trapped .illegalInstruction, .instruction byte false)
      else return (cpu, .instruction byte false)
  | some op =>
      let (cpu, taken) ← execute port op cpu
      return (cpu, .instruction byte taken)

def prepare (port : Port m) (cpu : Acc8) : m Acc8 := do
  let cpu ←
    if cpu.fetchResetVector then do
      let pc ← readWord port resetVector
      pure { cpu with fetchResetVector := false, pc }
    else pure cpu
  return if cpu.runState = .stopped then { cpu with runState := .running } else cpu

theorem stepWorked [LawfulMonad m] (port : Port m) (cpu : Acc8) :
    step port cpu = do
      let (cpu, work) ← stepWork port cpu
      return (cpu, work.cost) := by
  unfold step stepWork
  simp only [bind_assoc]
  refine bind_congr fun row => ?_
  obtain ⟨byte, next⟩ := row
  dsimp only
  cases decoded : Opcode.decode? byte with
  | none =>
    dsimp only
    split <;> simp [Work.cost, decoded]
  | some op => simp [Work.cost, decoded]

variable {R : (α : Type) → m α → n α → Prop} {left : Port m} {right : Port n}
  (h : Port.Related R left right)
include h

theorem stepWorkRelated (cpu : Acc8) : R _ (stepWork left cpu) (stepWork right cpu) := by
  refine h.bind (fetchRelated h _) fun row => ?_
  obtain ⟨byte, cpu⟩ := row
  dsimp only
  split
  · split
    · exact h.pure _
    · exact h.pure _
  · exact h.bind (executeRelated h _ _) fun _ => h.pure _

theorem prepareRelated (cpu : Acc8) : R _ (prepare left cpu) (prepare right cpu) := by
  unfold prepare
  dsimp only
  split
  · exact h.bind (readWordRelated h _) fun _ => h.bind (h.pure _) fun _ => h.pure _
  · exact h.bind (h.pure _) fun _ => h.pure _

end

section
variable {ω : Type}

def Port.quiet (port : Port Run) : Port (Watch ω) where
  read a := .of (port.read a)
  write a v := .of (port.write a v)
  input a := .of (port.input a)
  output a v := .of (port.output a v)

def Port.result (port : Port (Watch ω)) : Port Run where
  read a := (port.read a).result
  write a v := (port.write a v).result
  input a := (port.input a).result
  output a v := (port.output a v).result

theorem Port.resultRelated (port : Port (Watch ω)) :
    Port.Related (fun _ w x => w.result = x) port port.result where
  pure _ := rfl
  bind first rest := Watch.resultCongr first rest
  read _ := rfl
  write _ _ := rfl
  input _ := rfl
  output _ _ := rfl

theorem Port.quietRelated (port : Port Run) :
    Port.Related (fun _ (w : Watch ω _) x => w = .of x) port.quiet port where
  pure _ := rfl
  bind {_ _ x y f g} first rest := by
    rw [first, Watch.ofBind]
    exact bind_congr rest
  read _ := rfl
  write _ _ := rfl
  input _ := rfl
  output _ _ := rfl

variable (port : Port Run) (cpu : Acc8)

theorem prepareQuiet : (cpu.prepare port.quiet : Watch ω Acc8) = .of (cpu.prepare port) :=
  prepareRelated port.quietRelated cpu

theorem enterQuiet (vector : Nat) :
    (cpu.enter port.quiet vector : Watch ω Acc8) = .of (cpu.enter port vector) :=
  enterRelated port.quietRelated vector cpu

theorem stepWorkQuiet : (cpu.stepWork port.quiet : Watch ω _) = .of (cpu.stepWork port) :=
  stepWorkRelated port.quietRelated cpu

end

end Acc8

/-- An instruction or the entry of an interrupt on `line`, as it starts. -/
structure Start where
  cpu : Acc8
  line : Option Nat
  machine : Machine

/-- A moment of a slice: a boundary, what starts at it and what that has done, before and after it has
been charged; of a sequencer, a beat before it is played and the machine after it. -/
inductive Moment where
  | boundary (cpu : Acc8) (machine : Machine)
  | starts (start : Start)
  | entered (line : Nat) (vector : Option Nat) (cpu : Acc8) (machine : Machine)
  | executed (work : Acc8.Work) (cpu : Acc8) (machine : Machine)
  | does (work : Acc8.Work) (cpu : Acc8)
  | plays (beat : Beat) (machine : Machine)
  | stands (machine : Machine)

/-- A slice as it is granted. -/
structure Grant where
  machine : Machine
  unit : Nat
  target : Time
  processor : Processor
  found : machine.units[unit]? = some processor

namespace Grant

def start (g : Grant) : Time := g.processor.localTime

def finish (g : Grant) : Time := g.machine.sliceEnd g.start g.target

def cycles (g : Grant) : Nat := max (g.processor.clock.cyclesCovering (g.finish - g.start)) 1

def frame (g : Grant) : Frame := ⟨g.unit, g.start, g.cycles, g.finish⟩

def opened (g : Grant) : Machine :=
  ({ g.machine with
      frame := some g.frame
      budget := (min g.cycles Machine.budgetLimit : Nat) }.modifyUnit g.unit fun p =>
    { p with yieldRequested := false }).trace (.sliceStart g.processor.device g.start g.cycles)

def concluded (g : Grant) (outcome : Option (Nat × Option Trap)) (m : Machine) : Machine :=
  match outcome with
  | some (count, trap) => { m with frame := none }.settle g.unit g.cycles count trap g.start
  | none => { m with frame := none }.modifyUnit g.unit fun p =>
      { p with suspension := p.suspension.union { disabled := true } }

end Grant

namespace Beat

def names? : Beat → Option Nat
  | .finish cycles => some cycles
  | _ => none

end Beat

def Sequencer.plan (s : Sequencer) (cycles : Nat) : List Beat :=
  if s.rounds.isEmpty then [.consume cycles] else s.beats

def Machine.mute : Callback := fun _ _ => none

/-- Who notes what in a slice, and what carries out what a processor asks of others meanwhile. -/
structure Recorder (ω : Type) where
  pen : (unit : Nat) → Moment → List ω
  call : Script → Watch ω Reply
  acknowledge : (unit line : Nat) → Watch ω (Option Nat)
  port : (program io : SpaceId) → Acc8.Port (Watch ω)

namespace Recorder
open Machine
open Watch (of jot)
variable {ω : Type}

def plain (call : Callback) (pen : Nat → Moment → List ω) : Recorder ω where
  pen
  call s := of (call s)
  acknowledge unit line := of (Machine.acknowledge call unit line)
  port program io := (acc8Port call program io).quiet

section
variable (r : Recorder ω) (unit : Nat)

def mark (moment : Machine → Moment) : Watch ω PUnit := jot fun m => r.pen unit (moment m)

def turn (port : Acc8.Port (Watch ω)) (cpu : Acc8) : Watch ω (Acc8 × Bool) := do
  if (← of get).mustStop unit then return (cpu, false)
  of (publish unit cpu.get?)
  r.mark unit (.boundary cpu)
  let m ← of get
  match cpu.pending (m.lineActive unit Acc8.nmiLine) (m.lineActive unit Acc8.irqLine) with
  | (cpu, some line) =>
      r.mark unit fun m => .starts ⟨cpu, some line, m⟩
      let vector ← r.acknowledge unit line
      let cpu ← cpu.enter port (vector.getD line)
      r.mark unit (.entered line vector cpu)
      of (consume Acc8.interruptCycles)
      r.mark unit fun _ => .does .entry cpu
      return (cpu, !cpu.runState.isTrapped)
  | (cpu, none) =>
      if cpu.runState = .waiting then
        of (consume m.budget.toNat)
        r.mark unit fun _ => .does (.idle m.budget.toNat) cpu
        return (cpu, false)
      r.mark unit fun m => .starts ⟨cpu, none, m⟩
      let (cpu, work) ← cpu.stepWork port
      r.mark unit (.executed work cpu)
      of (consume work.cost)
      r.mark unit fun _ => .does work cpu
      return (cpu, !cpu.runState.isTrapped)

def loop (port : Acc8.Port (Watch ω)) : (bound : Nat) → Acc8 → Watch ω Acc8
  | 0, cpu => return cpu
  | bound + 1, cpu => do
      let (cpu, on) ← r.turn unit port cpu
      if on then loop port bound cpu else return cpu

def acc8 (cycles : Nat) (port : Acc8.Port (Watch ω)) (cpu : Acc8) : Watch ω (Acc8 × Nat) := do
  if cycles = 0 || cpu.runState.isTrapped then return (cpu, 0)
  of (publish unit cpu.get?)
  let cpu ← cpu.prepare port
  let cpu ← r.loop unit port (min cycles budgetLimit) cpu
  return (cpu, consumed (← of get))

def inquire : Inquiry → Watch ω Reply
  | .acknowledge line => do return .ofOption .count (← r.acknowledge unit line)
  | inquiry => of (Machine.inquire mute unit inquiry)

def beat : Beat → Sequencer → Watch ω Sequencer
  | .consume cycles, s => do
      of (consume cycles)
      return s
  | .publish, s => do
      of (publish unit s.get?)
      return s
  | .setRegister id value, s => return s.put id value
  | .setRunState state, s => return { s with runState := state }
  | .finish _, s => return s
  | .inquire name inquiry, s => do
      let reply ← r.inquire unit inquiry
      of (modify (·.enter (.command name reply)))
      return s
  | .perform task, s => do
      let reply ← r.call task.body
      of (modify (·.enter (.command task.name reply)))
      return s

def beats : List Beat → Sequencer → Watch ω (Sequencer × Nat)
  | [], s => do return (s, consumed (← of get))
  | beat :: rest, s =>
      match beat.names? with
      | some cycles => return (s, cycles)
      | none => do
          r.mark unit (.plays beat)
          let s ← r.beat unit beat s
          r.mark unit .stands
          beats rest s

def sequencer (cycles : Nat) (s : Sequencer) : Watch ω (Sequencer × Nat) := do
  of (modify (·.enter (.run s.name unit cycles cycles)))
  r.mark unit .stands
  r.beats unit (s.plan cycles) { s with round := s.round + 1 }

def device (cycles : Nat) (id : DeviceId) : Device → Watch ω (Option (Device × Nat))
  | .acc8 cpu => do
      let m ← of get
      match m.ownedSpace id .program, m.ownedSpace id .io with
      | .ok program, .ok io =>
          let (cpu, count) ← r.acc8 unit cycles (r.port program io) cpu
          return some (.acc8 cpu, count)
      | _, _ => return none
  | .sequencer s =>
      if s.runnable then do
        let (s, count) ← r.sequencer unit cycles s
        return some (.sequencer s, count)
      else return none
  | .peripheral _ => return none

def grant (cycles : Nat) (id : DeviceId) : Watch ω (Option (Nat × Option Trap)) := do
  match (← of get).idle id with
  | .error _ => return none
  | .ok device =>
      of (modify (·.setBusy id true))
      let outcome ← r.device unit cycles id device
      of (modify (·.setBusy id false))
      match outcome with
      | none => return none
      | some (device, count) =>
          of (modify (·.withDevice id device))
          return some (count, device.runState?.bind (·.trap?))

end

section
variable (r : Recorder ω)

def granted (g : Grant) : Watch ω Unit := do
  of (set g.opened)
  let outcome ← r.grant g.unit g.cycles g.processor.device
  of (modify fun m => { m with frame := none })
  match outcome with
  | some (consumed, trap) => of (modify (·.settle g.unit g.cycles consumed trap g.start))
  | none => of (modify (·.modifyUnit g.unit fun p =>
      { p with suspension := p.suspension.union { disabled := true } }))

def log (g : Grant) : List ω := (r.granted g g.machine).1

end

def sliceWith (granted : Grant → Watch ω Unit) (unit : Nat) (target : Time) : Watch ω Unit := do
  let m ← of get
  match found : m.units[unit]? with
  | none => return
  | some p => granted ⟨m, unit, target, p, found⟩

/-! Without its notes, a slice is the slice of the machine. -/

structure Follows (r : Recorder ω) (call : Callback) : Prop where
  calls : ∀ s, (r.call s).result = call s
  acknowledge : ∀ unit line,
    (r.acknowledge unit line).result = Machine.acknowledge call unit line
  port : ∀ program io, (r.port program io).result = acc8Port call program io

theorem plainFollows (call : Callback) (pen : Nat → Moment → List ω) : (plain call pen).Follows call :=
  ⟨fun _ => rfl, fun _ _ => rfl, fun _ _ => rfl⟩

section
open Watch (resultCongr resultGet resultJotted)
variable {r : Recorder ω} {call : Callback} (follows : r.Follows call)
include follows

theorem loopResult (unit : Nat) (port : Acc8.Port (Watch ω)) (bound : Nat) (cpu : Acc8) :
    (r.loop unit port bound cpu).result = acc8Loop call unit port.result bound cpu := by
  induction bound generalizing cpu with
  | zero => rfl
  | succ bound ih =>
    unfold loop turn acc8Loop
    simp only [bind_assoc]
    refine resultGet fun m => ?_
    split
    · rfl
    · simp only [bind_assoc]
      refine resultCongr rfl fun _ => resultJotted (resultGet fun m => ?_)
      rcases cpu.pending (m.lineActive unit Acc8.nmiLine) (m.lineActive unit Acc8.irqLine)
        with ⟨cpu, _ | line⟩
      · dsimp only
        split
        · simp only [bind_assoc]
          exact resultCongr rfl fun _ => resultJotted rfl
        · rw [Acc8.stepWorked]
          simp only [bind_assoc, pure_bind]
          refine resultJotted (resultCongr (Acc8.stepWorkRelated port.resultRelated cpu) fun row => ?_)
          refine resultJotted (resultCongr rfl fun _ => resultJotted ?_)
          cases row.1.runState.isTrapped with
          | true => rfl
          | false => exact ih row.1
      · simp only [bind_assoc, pure_bind]
        refine resultJotted (resultCongr (follows.acknowledge unit line) fun vector => ?_)
        refine resultCongr (Acc8.enterRelated port.resultRelated _ cpu) fun cpu => ?_
        refine resultJotted (resultCongr rfl fun _ => resultJotted ?_)
        cases cpu.runState.isTrapped with
        | true => rfl
        | false => exact ih cpu

theorem loopTurn (unit : Nat) (port : Acc8.Port Run) (bound : Nat) (cpu : Acc8) :
    acc8Loop call unit port (bound + 1) cpu = (do
      let (cpu, on) ← (r.turn unit port.quiet cpu).result
      if on then acc8Loop call unit port bound cpu else return cpu) := by
  have loops := loopResult follows unit port.quiet
  refine (loops (bound + 1) cpu).symm.trans (resultCongr rfl fun row => ?_)
  rw [Watch.resultIte, loops]
  rfl

theorem acc8Result (unit cycles : Nat) (port : Acc8.Port (Watch ω)) (cpu : Acc8) :
    (r.acc8 unit cycles port cpu).result = runAcc8 call unit cycles port.result cpu := by
  unfold acc8 runAcc8
  split
  · rfl
  · refine resultCongr rfl fun _ => ?_
    have prepared := Acc8.prepareRelated port.resultRelated cpu
    refine (resultCongr prepared fun cpu => resultCongr (loopResult follows unit port _ cpu)
      fun _ => rfl).trans ?_
    unfold Acc8.prepare
    dsimp only
    split <;> simp only [bind_assoc, pure_bind] <;> rfl

theorem inquireResult (unit : Nat) (inquiry : Inquiry) :
    (r.inquire unit inquiry).result = Machine.inquire call unit inquiry := by
  cases inquiry with
  | acknowledge line => exact resultCongr (follows.acknowledge unit line) fun _ => rfl
  | status | consumeUntilStop => rfl

theorem beatsResult (unit : Nat) (beats : List Beat) (s : Sequencer) :
    (r.beats unit beats s).result = playBeats call unit beats s := by
  induction beats generalizing s with
  | nil => rfl
  | cons beat rest ih =>
    cases beat with
    | finish => rfl
    | consume | publish | setRegister | setRunState =>
      exact resultJotted (resultCongr rfl fun s => resultJotted (ih s))
    | inquire name inquiry =>
      refine resultJotted ?_
      unfold beat
      simp only [bind_assoc, pure_bind]
      exact resultCongr (inquireResult follows unit inquiry) fun _ => resultCongr rfl fun _ =>
        resultJotted (ih s)
    | perform task =>
      refine resultJotted ?_
      unfold beat
      simp only [bind_assoc, pure_bind]
      exact resultCongr (follows.calls _) fun _ => resultCongr rfl fun _ => resultJotted (ih s)

theorem sequencerResult (unit cycles : Nat) (s : Sequencer) :
    (r.sequencer unit cycles s).result = runSequencer call unit cycles s :=
  resultCongr rfl fun _ => resultJotted (beatsResult follows unit _ _)

theorem deviceResult (unit cycles : Nat) (id : DeviceId) (device : Device) :
    (r.device unit cycles id device).result = runDevice call unit cycles id device := by
  cases device with
  | acc8 cpu =>
    unfold Recorder.device runDevice
    refine resultGet fun m => ?_
    cases m.ownedSpace id .program with
    | error e => rfl
    | ok program =>
      cases m.ownedSpace id .io with
      | error e => rfl
      | ok io =>
        refine resultCongr ?_ fun _ => rfl
        rw [acc8Result follows, follows.port]
  | sequencer s =>
    unfold Recorder.device runDevice
    dsimp only
    split
    · exact resultCongr (sequencerResult follows unit cycles s) fun _ => rfl
    · rfl
  | peripheral p => rfl

theorem grantResult (unit cycles : Nat) (id : DeviceId) :
    (r.grant unit cycles id).result = Machine.grant call unit cycles id := by
  refine resultGet fun m => ?_
  cases m.idle id with
  | error e => rfl
  | ok device =>
    refine resultCongr rfl fun _ => resultCongr (deviceResult follows ..) fun outcome => ?_
    refine resultCongr rfl fun _ => ?_
    cases outcome <;> rfl

theorem sliceResult {ω' : Type} {granted : Grant → Watch ω' Unit}
    (same : ∀ g, (granted g).result = (r.granted g).result) (unit : Nat) (target : Time) :
    (sliceWith granted unit target).result = runSlice call unit target := by
  funext m
  unfold runSlice
  rw [Run.getBind]
  unfold sliceWith
  simp only [Watch.resultBind, Watch.resultOf]
  rw [Run.getBind]
  split
  · rename_i none
    simp only [none, Watch.resultPure]
  · rename_i p found
    simp only [found, same, Recorder.granted, Watch.resultBind, Watch.resultOf, grantResult follows]
    rw [Run.setBind, Run.modifyBind, Run.modifyBind, Run.modifyBind]
    apply congrFun
    refine bind_congr fun outcome => bind_congr fun _ => ?_
    cases outcome with
    | none => rfl
    | some row => rfl

end

theorem sliceFound (granted : Grant → Watch ω Unit) {unit : Nat} (target : Time) {m : Machine}
    {p : Processor} (found : m.units[unit]? = some p) :
    sliceWith granted unit target m = granted ⟨m, unit, target, p, found⟩ m := by
  change (sliceWith granted unit target).Ensures m fun notes r => (notes, r) = _
  refine Watch.ensuresGet ?_
  split
  · rename_i none
    rw [found] at none
    cases none
  · rename_i q row
    rw [found] at row
    cases row
    rfl

theorem grantedSlice {r : Recorder ω} {call : Callback} (follows : r.Follows call) (g : Grant) :
    (r.granted g).result g.machine = runSlice call g.unit g.target g.machine := by
  rw [← sliceResult follows fun _ => rfl]
  exact (congrArg Prod.snd (sliceFound r.granted g.target g.found)).symm

theorem logged (r : Recorder ω) (g : Grant) :
    r.log g = (r.grant g.unit g.cycles g.processor.device g.opened).1 := by
  change ((r.grant g.unit g.cycles g.processor.device >>= _) g.opened).1 = _
  refine Watch.bindQuiet fun outcome m => ?_
  cases outcome <;> rfl

end Recorder

def Moment.starting : Moment → List Start
  | .starts s => [s]
  | _ => []

def Recorder.starts (call : Callback) : Recorder Start := plain call fun _ => Moment.starting

theorem Recorder.startsFollow (call : Callback) : (starts call).Follows call := plainFollows ..

namespace Machine

def watchGranted (call : Callback) (g : Grant) : Watch Start Unit := (Recorder.starts call).granted g

theorem grantedSlice (call : Callback) (g : Grant) :
    (watchGranted call g).result g.machine = runSlice call g.unit g.target g.machine :=
  Recorder.grantedSlice (Recorder.startsFollow call) g

theorem sliceConcluded (call : Callback) (g : Grant) : runSlice call g.unit g.target g.machine =
    (grant call g.unit g.cycles g.processor.device g.opened).map fun row =>
      (⟨⟩, g.concluded row.1 row.2) := by
  rw [← grantedSlice]
  unfold watchGranted Recorder.granted
  simp only [Watch.resultBind, Watch.resultOf, Recorder.grantResult (Recorder.startsFollow call)]
  rw [Run.setBind]
  cases granted : grant call g.unit g.cycles g.processor.device g.opened with
  | none => exact Run.bindNone granted _
  | some row =>
    obtain ⟨outcome, m₁⟩ := row
    rw [Run.bindSome granted, Run.modifyBind]
    cases outcome <;> rfl

theorem sliceInv {call : Callback} {g : Grant} {u : Unit} {m' : Machine}
    (ran : runSlice call g.unit g.target g.machine = some (u, m')) : ∃ outcome m₁,
      grant call g.unit g.cycles g.processor.device g.opened = some (outcome, m₁) ∧
      m' = g.concluded outcome m₁ := by
  rw [sliceConcluded] at ran
  obtain ⟨⟨outcome, m₁⟩, granted, same⟩ := Option.map_eq_some_iff.mp ran
  exact ⟨outcome, m₁, granted, (congrArg Prod.snd same).symm⟩

theorem grantPlaced {call : Callback} {unit cycles : Nat} {id : DeviceId} {device : Device}
    {outcome : Option (Nat × Option Trap)} {m m' : Machine} (idle : m.idle id = .ok device)
    (ran : grant call unit cycles id m = some (outcome, m')) : ∃ out m₁,
      runDevice call unit cycles id device (m.setBusy id true) = some (out, m₁) ∧
      ((outcome = none ∧ out = none ∧ m' = m₁.setBusy id false) ∨ ∃ device' count,
        outcome = some (count, device'.runState?.bind (·.trap?)) ∧ out = some (device', count) ∧
        m' = (m₁.setBusy id false).withDevice id device') := by
  unfold grant at ran
  rw [Run.getBind, idle] at ran
  dsimp only at ran
  rw [Run.modifyBind] at ran
  obtain ⟨out, m₁, runs, ran⟩ := Run.bindInv ran
  rw [Run.modifyBind] at ran
  refine ⟨out, m₁, runs, ?_⟩
  cases out with
  | none =>
    cases ran
    exact .inl ⟨rfl, rfl, rfl⟩
  | some row =>
    cases ran
    exact .inr ⟨row.1, row.2, rfl, rfl, rfl⟩

end Machine

end Lockstep
