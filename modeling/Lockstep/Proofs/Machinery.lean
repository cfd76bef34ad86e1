import Lockstep.Proofs.Controls
import Lockstep.Proofs.Passes
import Lockstep.Proofs.Processor

/-! What callbacks keep, a machine keeps while it runs: a relation that looks at no more than
the timers and at which devices are in use, and that survives a device being lent out, holds
across slices of any processor, across the dispatch of a timer and across a reset. -/
namespace Lockstep.Machine

def busyAt (m : Machine) (id : DeviceId) : Option Bool := (m.tree.get? id).map (·.device.busy)

structure Quiet (a b : Machine) : Prop where
  timers : b.timers = a.timers
  busy : ∀ id, b.busyAt id = a.busyAt id

section
variable {a b c m : Machine} {id other : DeviceId}

@[simp] theorem traceSame (m : Machine) (event : TraceEvent) :
    (m.trace event).timers = m.timers ∧ (m.trace event).tree = m.tree ∧
      (m.trace event).frame = m.frame := by
  unfold trace
  split
  · split <;> exact ⟨rfl, rfl, rfl⟩
  · exact ⟨rfl, rfl, rfl⟩

namespace Quiet

theorem same (timers : b.timers = a.timers) (tree : b.tree = a.tree) : Quiet a b :=
  ⟨timers, fun id => by rw [busyAt, busyAt, tree]⟩

theorem refl (m : Machine) : Quiet m m := .same rfl rfl

theorem trans (first : Quiet a b) (rest : Quiet b c) : Quiet a c :=
  ⟨rest.timers.trans first.timers, fun id => (rest.busy id).trans (first.busy id)⟩

theorem count (m : Machine) (f : Diag → Diag) : Quiet m (m.count f) := .same rfl rfl

theorem modifyUnit (m : Machine) (index : Nat) (f : Processor → Processor) :
    Quiet m (m.modifyUnit index f) := .same rfl rfl

theorem enter (m : Machine) (entry : Activity) : Quiet m (m.enter entry) := .same rfl rfl

theorem trace (m : Machine) (event : TraceEvent) : Quiet m (m.trace event) :=
  .same (traceSame m event).1 (traceSame m event).2.1

end Quiet

theorem busyModify (m : Machine) (id other : DeviceId) (f : Seat → Seat) :
    ({ m with tree := m.tree.modify id f }).busyAt other =
      (m.tree.get? other).map fun node =>
        if id = other then (f node.device).busy else node.device.busy := by
  simp only [busyAt, Tree.modify, Tree.get?, Array.getElem?_modify]
  by_cases here : id = other
  · subst here
    simp [Function.comp_def]
  · rw [if_neg fun same => here (congrArg DeviceId.mk same)]
    simp [here]

theorem busySet (m : Machine) (id other : DeviceId) (busy : Bool) : (m.setBusy id busy).busyAt other =
    if id = other then (m.busyAt other).map fun _ => busy else m.busyAt other := by
  refine (busyModify m id other _).trans ?_
  by_cases here : id = other <;> simp [here, busyAt, Function.comp_def]

theorem quietDevice (m : Machine) (id : DeviceId) (device : Device) :
    Quiet m (m.withDevice id device) := by
  refine ⟨rfl, fun other => (busyModify m id other _).trans ?_⟩
  simp [busyAt]

theorem busyIdle {d : Device} (idle : m.idle id = .ok d) : m.busyAt id = some false := by
  obtain ⟨node, found, -, free⟩ := idleInv idle
  rw [busyAt, found, Option.map_some, free]

theorem idleOf (free : m.busyAt id = some false) : ∃ d, m.idle id = .ok d := by
  obtain ⟨node, found, free⟩ := Option.map_eq_some_iff.mp free
  exact ⟨node.device.device, by simp [idle, found, free]⟩

theorem settleSame (m : Machine) (unit cycles consumed : Nat) (trap : Option Trap) (start : Time) :
    (m.settle unit cycles consumed trap start).timers = m.timers ∧
      (m.settle unit cycles consumed trap start).tree = m.tree ∧
        (m.settle unit cycles consumed trap start).frame = m.frame := by
  unfold settle
  dsimp only
  repeat' split
  all_goals simp [count, modifyUnit]

theorem quietRestarts : Restarts Quiet where
  refl := .refl
  trans := .trans
  unit _ _ _ := .modifyUnit ..
  control _ := .trace ..
  enter _ := .enter ..
  place := quietDevice _

end

inductive Pulse : Machine → Machine → Prop where
  | enter {m} (entry : Activity) : Pulse m (m.enter entry)
  | count {m} (f : Diag → Diag) : Pulse m (m.count f)
  | publish {m} (unit : Nat) (read : RegisterId → Option Nat) :
      Pulse m (m.modifyUnit unit (·.publish read))
  | accept {m unit line lines answer}
      (row : (m.units[unit]?).bind (·.lines.acknowledge? line) = some (lines, answer)) :
      Pulse m (m.modifyUnit unit fun p => { p with lines })
  | charge {m} (budget : Int) : Pulse m { m with budget }

def Pulses : Machine → Machine → Prop := Relation.ReflTransGen Pulse

namespace Pulses
variable {a b c : Machine}

theorem trans (first : Pulses a b) (rest : Pulses b c) : Pulses a c :=
  Relation.ReflTransGen.trans first rest

theorem pulse (h : Pulse a b) : Pulses a b := Relation.ReflTransGen.single h

theorem traced (m : Machine) (event : TraceEvent) : Pulses m (m.trace event) := by
  unfold Machine.trace
  split
  · split
    · exact pulse (.enter _)
    · exact Relation.ReflTransGen.refl
  · exact Relation.ReflTransGen.refl

theorem noted (m : Machine) (unit line : Nat) (vector : Option Nat) :
    Pulses m (m.noteInterrupt unit line vector) := by
  unfold noteInterrupt
  dsimp only
  split
  · exact (pulse (.count _)).trans (traced _ _)
  · exact pulse (.count _)

end Pulses

inductive Tick : Machine → Machine → Prop where
  | pulse {m m'} (h : Pulse m m') : Tick m m'
  | place {m} (id : DeviceId) (device : Device) : Tick m (m.withDevice id device)
  | grant {m} (frame : Frame) (budget : Int) : Tick m { m with frame := some frame, budget }
  | ready {m} (unit : Nat) : Tick m (m.modifyUnit unit fun p => { p with yieldRequested := false })
  | close {m} : Tick m { m with frame := none }
  | settle {m} (unit cycles consumed : Nat) (trap : Option Trap) (start : Time) :
      Tick m (m.settle unit cycles consumed trap start)
  | disable {m} (unit : Nat) : Tick m (m.modifyUnit unit fun p =>
      { p with suspension := p.suspension.union { disabled := true } })
  | restart {m} (now : Time) (index : Nat) : Tick m (restartUnit now m index)
  | freeze {m} : Tick m { m with spaces := m.spaces.map (·.freeze) }
  | sink {m} (name : Option String) : Tick m (m.setSink name).1

def Ticks : Machine → Machine → Prop := Relation.ReflTransGen Tick

namespace Ticks
variable {a b c : Machine}

theorem refl (m : Machine) : Ticks m m := Relation.ReflTransGen.refl

theorem trans (first : Ticks a b) (rest : Ticks b c) : Ticks a c :=
  Relation.ReflTransGen.trans first rest

theorem tick (h : Tick a b) : Ticks a b := Relation.ReflTransGen.single h

theorem pulses (h : Pulses a b) : Ticks a b := Relation.ReflTransGen.mono (fun _ _ => Tick.pulse) _ _ h

end Ticks

theorem tickQuiet {a b : Machine} (h : Tick a b) : Quiet a b := by
  cases h with
  | pulse h =>
    cases h with
    | enter entry => exact .enter a entry
    | count f => exact .count a f
    | publish | accept => exact .modifyUnit ..
    | charge => exact .same rfl rfl
  | ready | disable => exact .modifyUnit ..
  | grant | close | freeze | sink => exact .same rfl rfl
  | place id device => exact quietDevice a id device
  | settle unit cycles consumed trap start =>
    have same := settleSame a unit cycles consumed trap start
    exact .same same.1 same.2.1
  | restart now index => exact quietRestarts.restart now a index

theorem touchQuiet {a b : Machine} (h : Touch a b) : Quiet a b := by
  cases h with
  | unmapped kind address write => exact (Quiet.count ..).trans (.trace _ _)
  | drive | countRead | countWrite | store => exact .same rfl rfl

inductive Stroke (unit : Nat) : Machine → Machine → Prop where
  | enter {m entry} (own : entry.event? = none) : Stroke unit m (m.enter entry)
  | publish {m} (read : RegisterId → Option Nat) :
      Stroke unit m (m.modifyUnit unit (·.publish read))
  | accept {m line lines answer}
      (row : (m.units[unit]?).bind (·.lines.acknowledge? line) = some (lines, answer)) :
      Stroke unit m (m.modifyUnit unit fun p => { p with lines })
  | interrupt {m} (line : Nat) (vector : Option Nat) :
      Stroke unit m (m.noteInterrupt unit line vector)
  | charge {m} (budget : Int) : Stroke unit m { m with budget }

theorem strokePulses {unit : Nat} {a b : Machine} (h : Stroke unit a b) : Pulses a b := by
  cases h with
  | enter => exact .pulse (.enter _)
  | publish read => exact .pulse (.publish unit read)
  | accept row => exact .pulse (.accept row)
  | interrupt line vector => exact .noted ..
  | charge budget => exact .pulse (.charge budget)

structure Works (held : SpaceId → Prop) (unit : Nat)
    (Q : (α : Type) → Run α → Run α → Machine → Prop) : Prop extends Serves held Q where
  stroke : ∀ {m : Machine} {g : Machine → Machine}, Stroke unit m (g m) →
    Q PUnit (modify g) (modify g) m

structure Plays (Q : (α : Type) → Run α → Run α → Machine → Prop) : Prop extends Bears Q where
  pulse : ∀ {m : Machine} {g : Machine → Machine}, Pulses m (g m) →
    Q PUnit (modify g) (modify g) m

theorem Plays.works {Q : (α : Type) → Run α → Run α → Machine → Prop} (plays : Plays Q)
    (unit : Nat) : Works (fun _ => True) unit Q where
  toServes := plays.toServes
  stroke h := plays.pulse (strokePulses h)

theorem playsFollows {R : Machine → Machine → Prop} (refl : ∀ m, R m m)
    (trans : ∀ {a b c}, R a b → R b c → R a c) (touch : ∀ {a b}, Touch a b → R a b)
    (pulse : ∀ {a b}, Pulse a b → R a b) : Plays fun _ => Run.Follows R where
  toBears := bearsFollows refl trans touch
  pulse {m g} pulses := by
    refine Run.followsSame (Run.keepsModify ?_)
    generalize g m = m' at pulses
    induction pulses with
    | refl => exact refl m
    | tail _ last ih => exact trans ih (pulse last)

theorem Serves.acc8Port {held : SpaceId → Prop} {Q : (α : Type) → Run α → Run α → Machine → Prop}
    (serves : Serves held Q) {call other : Callback}
    (calls : ∀ s m, Q Reply (call s) (other s) m) (program io : SpaceId) :
    Acc8.Port.Related (fun α x y => ∀ m, Q α x y m) (acc8Port call program io)
      (acc8Port other program io) where
  pure a _ := serves.pure a
  bind first rest m := serves.bind (first m) rest
  read _ m := serves.bind (serves.readRank calls program 0 _ m) fun _ _ => serves.pure _
  write _ _ m := serves.writeRank calls program 0 _ _ m
  input _ m := serves.bind (serves.readRank calls io 0 _ m) fun _ _ => serves.pure _
  output _ _ m := serves.writeRank calls io 0 _ _ m

theorem Serves.acknowledge {held : SpaceId → Prop} {unit : Nat}
    {Q : (α : Type) → Run α → Run α → Machine → Prop} (serves : Serves held Q)
    {call other : Callback} (calls : ∀ s m, Q Reply (call s) (other s) m)
    (accepts : ∀ {m line lines answer},
      (m.units[unit]?).bind (·.lines.acknowledge? line) = some (lines, answer) →
      Q PUnit (modify (·.modifyUnit unit fun p => { p with lines }))
        (modify (·.modifyUnit unit fun p => { p with lines })) m)
    (notes : ∀ line vector m, Q PUnit (modify (·.noteInterrupt unit line vector))
      (modify (·.noteInterrupt unit line vector)) m)
    (line : Nat) (m : Machine) :
    Q _ (acknowledge call unit line) (acknowledge other unit line) m := by
  have noted : ∀ (vector : Option Nat) (m : Machine), Q _
      (do modify (·.noteInterrupt unit line vector); return vector : Run (Option Nat))
      (do modify (·.noteInterrupt unit line vector); return vector) m := fun vector m =>
    serves.bind (notes line vector m) fun _ _ => serves.pure _
  unfold Machine.acknowledge
  refine serves.get ?_
  cases accepted : (m.units[unit]?).bind (·.lines.acknowledge? line) with
  | none => exact noted none m
  | some row =>
    obtain ⟨lines, answer⟩ := row
    refine serves.bind (accepts accepted) fun _ m => ?_
    cases answer with
    | stored vector => exact noted vector m
    | ask source => exact serves.bind (calls _ m) fun _ m => noted _ m

namespace Works
variable {held : SpaceId → Prop} {unit : Nat}
  {Q : (α : Type) → Run α → Run α → Machine → Prop} (works : Works held unit Q)
  {call other : Callback} (calls : ∀ s m, Q Reply (call s) (other s) m)
include works calls

theorem acknowledge (line : Nat) (m : Machine) :
    Q _ (acknowledge call unit line) (acknowledge other unit line) m :=
  works.toServes.acknowledge calls (fun row => works.stroke (.accept row))
    (fun line vector _ => works.stroke (.interrupt line vector)) line m

theorem acc8Loop {left right : Acc8.Port Run}
    (ports : Acc8.Port.Related (fun α x y => ∀ m, Q α x y m) left right) (bound : Nat)
    (cpu : Acc8) (m : Machine) : Q _ (acc8Loop call unit left bound cpu)
      (acc8Loop other unit right bound cpu) m := by
  induction bound generalizing cpu m with
  | zero => exact works.pure _
  | succ bound ih =>
    refine works.get ?_
    by_cases stop : m.mustStop unit = true
    · simp only [stop]
      exact works.pure _
    simp only [stop]
    refine works.bind (works.stroke (.publish _)) fun _ m => works.get ?_
    rcases cpu.pending (m.lineActive unit Acc8.nmiLine) (m.lineActive unit Acc8.irqLine) with
      ⟨cpu, _ | line⟩
    · dsimp only
      split
      · exact works.bind (works.stroke (.charge _)) fun _ _ => works.pure _
      · refine works.bind (Acc8.stepRelated ports _ m) fun row m => ?_
        refine works.bind (works.stroke (.charge _)) fun _ m => ?_
        split
        · exact works.pure _
        · exact ih _ m
    · refine works.bind (works.acknowledge calls _ m) fun vector m => ?_
      refine works.bind (Acc8.enterRelated ports _ _ m) fun cpu m => ?_
      refine works.bind (works.stroke (.charge _)) fun _ m => ?_
      split
      · exact works.pure _
      · exact ih cpu m

theorem runAcc8 (cycles : Nat) {left right : Acc8.Port Run}
    (ports : Acc8.Port.Related (fun α x y => ∀ m, Q α x y m) left right) (cpu : Acc8)
    (m : Machine) : Q _ (runAcc8 call unit cycles left cpu)
      (runAcc8 other unit cycles right cpu) m := by
  have ends : ∀ (cpu : Acc8) (m : Machine), Q _
      (do
        let cpu ← Machine.acc8Loop call unit left (min cycles budgetLimit) cpu
        return (cpu, consumed (← get)) : Run (Acc8 × Nat))
      (do
        let cpu ← Machine.acc8Loop other unit right (min cycles budgetLimit) cpu
        return (cpu, consumed (← get))) m := fun cpu m =>
    works.bind (works.acc8Loop calls ports _ cpu m) fun _ m => works.get (works.pure _)
  unfold Machine.runAcc8
  split
  · exact works.pure _
  · refine works.bind (works.stroke (.publish _)) fun _ m => ?_
    dsimp only
    split
    · exact works.bind (Acc8.readWordRelated ports _ m) fun _ m => ends _ m
    · exact ends _ m

theorem inquire (inquiry : Inquiry) (m : Machine) :
    Q _ (inquire call unit inquiry) (inquire other unit inquiry) m := by
  cases inquiry with
  | consumeUntilStop cycles =>
    exact works.get (works.bind (works.stroke (.charge _)) fun _ _ => works.pure _)
  | status => exact works.get (works.pure _)
  | acknowledge line =>
    exact works.bind (works.acknowledge calls line m) fun _ _ => works.pure _

theorem playBeats (beats : List Beat) (s : Sequencer) (m : Machine) :
    Q _ (playBeats call unit beats s) (playBeats other unit beats s) m := by
  induction beats generalizing s m with
  | nil => exact works.get (works.pure _)
  | cons beat rest ih =>
    cases beat with
    | consume cycles => exact works.bind (works.stroke (.charge _)) fun _ m => ih s m
    | publish => exact works.bind (works.stroke (.publish _)) fun _ m => ih s m
    | setRegister id value => exact ih _ m
    | setRunState state => exact ih _ m
    | finish cycles => exact works.pure _
    | inquire name inquiry =>
      refine works.bind (works.inquire calls inquiry m) fun _ m => ?_
      exact works.bind (works.stroke (.enter rfl)) fun _ m => ih s m
    | perform task =>
      refine works.bind (calls _ m) fun _ m => ?_
      exact works.bind (works.stroke (.enter rfl)) fun _ m => ih s m

theorem runDevice (cycles : Nat) (id : DeviceId) (device : Device) (m : Machine) :
    Q _ (runDevice call unit cycles id device) (runDevice other unit cycles id device) m := by
  cases device with
  | peripheral p => exact works.pure _
  | acc8 cpu =>
    refine works.get ?_
    cases m.ownedSpace id .program with
    | error e => exact works.pure _
    | ok program =>
      cases m.ownedSpace id .io with
      | error e => exact works.pure _
      | ok io =>
        exact works.bind (works.runAcc8 calls cycles (works.acc8Port calls _ _) cpu m)
          fun _ _ => works.pure _
  | sequencer s =>
    simp only [Machine.runDevice]
    split
    · refine works.bind (works.bind (works.stroke (.enter rfl)) fun _ m => ?_) fun _ _ =>
        works.pure _
      exact works.playBeats calls _ _ m
    · exact works.pure _

end Works

namespace Plays
variable {Q : (α : Type) → Run α → Run α → Machine → Prop} (plays : Plays Q)
  {call other : Callback} (calls : ∀ s m, Q Reply (call s) (other s) m)
include plays

theorem beat {m : Machine} {g : Machine → Machine} (pulse : Pulse m (g m)) :
    Q PUnit (modify g) (modify g) m :=
  plays.pulse (.pulse pulse)

include calls

theorem acknowledge (unit line : Nat) (m : Machine) :
    Q _ (acknowledge call unit line) (acknowledge other unit line) m :=
  (plays.works unit).acknowledge calls line m

theorem runDevice (unit cycles : Nat) (id : DeviceId) (device : Device) (m : Machine) :
    Q _ (runDevice call unit cycles id device) (runDevice other unit cycles id device) m :=
  (plays.works unit).runDevice calls cycles id device m

end Plays

inductive Chore : Machine → Machine → Prop where
  | place {m} (id : DeviceId) (device : Device) : Chore m (m.withDevice id device)
  | grant {m} (frame : Frame) (budget : Int) : Chore m { m with frame := some frame, budget }
  | ready {m} (unit : Nat) :
      Chore m (m.modifyUnit unit fun p => { p with yieldRequested := false })
  | opened {m} (unit : DeviceId) (time : Time) (cycles : Nat) :
      Chore m (m.trace (.sliceStart unit time cycles))
  | close {m} : Chore m { m with frame := none }
  | settle {m} (unit cycles consumed : Nat) (trap : Option Trap) (start : Time) :
      Chore m (m.settle unit cycles consumed trap start)
  | disable {m} (unit : Nat) : Chore m (m.modifyUnit unit fun p =>
      { p with suspension := p.suspension.union { disabled := true } })
  | fired {m} (owner : DeviceId) (param : Nat) (time : Time) :
      Chore m ((m.count (·.timer)).trace (.timerFired owner param time))
  | restart {m} (now : Time) (index : Nat) : Chore m (restartUnit now m index)
  | freeze {m} : Chore m { m with spaces := m.spaces.map (·.freeze) }

theorem choreTicks {a b : Machine} (h : Chore a b) : Ticks a b := by
  cases h with
  | place id device => exact .tick (.place id device)
  | grant frame budget => exact .tick (.grant frame budget)
  | ready unit => exact .tick (.ready unit)
  | opened => exact .pulses (.traced ..)
  | close => exact .tick .close
  | settle => exact .tick (.settle ..)
  | disable unit => exact .tick (.disable unit)
  | fired => exact .pulses ((Pulses.pulse (.count _)).trans (.traced ..))
  | restart now index => exact .tick (.restart now index)
  | freeze => exact .tick .freeze

structure Handles (R : Machine → Machine → Prop) : Prop where
  refl : ∀ m, R m m
  trans : ∀ {a b c}, R a b → R b c → R a c
  chore : ∀ {a b}, Chore a b → R a b
  lent : ∀ {a b : Machine} {id : DeviceId} {d : Device}, a.idle id = .ok d →
    R (a.setBusy id true) b → R a (b.setBusy id false)

theorem ticksHold {R : Machine → Machine → Prop} {a b : Machine} (refl : ∀ m, R m m)
    (trans : ∀ {a b c}, R a b → R b c → R a c) (tick : ∀ {a b}, Tick a b → R a b)
    (ticks : Ticks a b) : R a b := by
  induction ticks with
  | refl => exact refl a
  | tail _ last ih => exact trans ih (tick last)

structure Carries (R : Machine → Machine → Prop) : Prop extends Handles R where
  touch : ∀ {a b}, Touch a b → R a b
  tick : ∀ {a b}, Tick a b → R a b
  chore := fun h => ticksHold refl trans tick (choreTicks h)

structure Drives (R : Machine → Machine → Prop) : Prop where
  trans : ∀ {a b c}, R a b → R b c → R a c
  quiet : ∀ {a b}, Quiet a b → R a b
  lent : ∀ {a b : Machine} {id : DeviceId} {d : Device}, a.idle id = .ok d →
    R (a.setBusy id true) b → R a (b.setBusy id false)

theorem Drives.carries {R : Machine → Machine → Prop} (drives : Drives R) : Carries R where
  refl m := drives.quiet (.refl m)
  trans := drives.trans
  touch h := drives.quiet (touchQuiet h)
  tick h := drives.quiet (tickQuiet h)
  lent := drives.lent

namespace Handles
variable {R : Machine → Machine → Prop} (handles : Handles R) {α β : Type} {m : Machine}
include handles

theorem pure (a : α) : Run.Follows R (pure a) (pure a) m :=
  Run.followsSame (Run.keepsPure handles.refl a)

theorem bind {x y : Run α} {f g : α → Run β} (first : Run.Follows R x y m)
    (rest : ∀ a m, Run.Follows R (f a) (g a) m) : Run.Follows R (x >>= f) (y >>= g) m :=
  Run.followsBind (R := R) handles.trans first rest

theorem discard {x y : Run α} (h : Run.Follows R x y m) :
    Run.Follows R (discard x) (discard y) m :=
  handles.bind (f := fun _ => Pure.pure PUnit.unit) (g := fun _ => Pure.pure PUnit.unit) h
    fun _ _ => handles.pure _

theorem change {g : Machine → Machine} (chore : Chore m (g m)) :
    Run.Follows R (modify g) (modify g) m :=
  Run.followsSame (Run.keepsModify (handles.chore chore))

theorem lend {x y : Run α} {f g : α → Run β} {id : DeviceId} {d : Device}
    (idle : m.idle id = .ok d) (inner : ∀ m, Run.Follows R x y m)
    (rest : ∀ a m, Run.Follows R (f a) (g a) m) : Run.Follows R
      (do
        modify (·.setBusy id true)
        let a ← x
        modify (·.setBusy id false)
        f a)
      (do
        modify (·.setBusy id true)
        let a ← y
        modify (·.setBusy id false)
        g a) m := by
  intro b m' h
  rw [Run.modifyBind] at h ⊢
  obtain ⟨a, m₁, ran, h⟩ := Run.bindInv h
  obtain ⟨same, kept⟩ := inner _ a m₁ ran
  obtain ⟨same', kept'⟩ := rest a _ b m' h
  refine ⟨Option.bind_eq_some_iff.mpr ⟨(a, m₁), same, same'⟩, ?_⟩
  exact handles.trans (handles.lent idle kept) kept'

section
variable {call other : Callback} {unit : Nat} (device : ∀ cycles id d m, Run.Follows R
  (runDevice call unit cycles id d) (runDevice other unit cycles id d) m)
include device

theorem grant (cycles : Nat) (id : DeviceId) (m : Machine) :
    Run.Follows R (grant call unit cycles id) (grant other unit cycles id) m := by
  refine Run.followsGet ?_
  cases idle : m.idle id with
  | error e => exact handles.pure _
  | ok d =>
    refine handles.lend idle (device cycles id d) fun outcome m => ?_
    cases outcome with
    | none => exact handles.pure _
    | some row =>
      exact handles.bind (handles.change (.place ..)) fun _ _ => handles.pure _

theorem runSlice (target : Time) (m : Machine) :
    Run.Follows R (runSlice call unit target) (runSlice other unit target) m := by
  refine Run.followsGet ?_
  cases m.units[unit]? with
  | none => exact handles.pure _
  | some p =>
    refine handles.bind (handles.change (.grant ..)) fun _ m => ?_
    refine handles.bind (handles.change (.ready unit)) fun _ m => ?_
    refine handles.bind (handles.change (.opened ..)) fun _ m => ?_
    refine handles.bind (handles.grant device _ _ m) fun outcome m => ?_
    refine handles.bind (handles.change .close) fun _ m => ?_
    cases outcome with
    | none => exact handles.change (.disable unit)
    | some row => exact handles.change (.settle ..)

end

section
variable {call other : Callback} (calls : ∀ s m, Run.Follows R (call s) (other s) m)
include calls

theorem dispatch (fired : Timer.Fired) (m : Machine) :
    Run.Follows R (dispatch call fired) (dispatch other fired) m := by
  refine handles.bind (handles.change (.fired ..)) fun _ m => ?_
  refine Run.followsGet ?_
  cases idle : m.idle fired.owner with
  | error e => exact handles.pure _
  | ok device =>
    cases device with
    | peripheral p =>
      exact handles.lend (f := fun _ => Pure.pure PUnit.unit) (g := fun _ => Pure.pure PUnit.unit)
        idle (fun m => handles.discard (calls _ m)) fun _ _ => handles.pure _
    | acc8 | sequencer =>
      exact handles.lend (f := fun _ => Pure.pure PUnit.unit) (g := fun _ => Pure.pure PUnit.unit)
        idle (fun _ => handles.pure ()) fun _ _ => handles.pure _

theorem resetDevices (ids : List DeviceId) (m : Machine) :
    Run.Follows R (resetDevices call ids) (resetDevices other ids) m := by
  induction ids generalizing m with
  | nil => exact handles.pure _
  | cons id rest ih =>
    refine Run.followsGet ?_
    cases idle : m.idle id with
    | error e => exact ih m
    | ok device =>
      cases device with
      | peripheral p =>
        exact handles.lend idle (fun m => handles.discard (calls _ m)) fun _ m => ih m
      | acc8 | sequencer =>
        exact handles.lend (f := fun _ => Machine.resetDevices call rest)
          (g := fun _ => Machine.resetDevices other rest) idle (fun _ => handles.pure ())
          fun _ m => ih m

theorem reset (m : Machine) : Run.Follows R (reset call) (reset other) m := by
  have restarted : ∀ (now : Time) (indices : List Nat) (m : Machine),
      R m (indices.foldl (restartUnit now) m) := by
    intro now indices
    induction indices with
    | nil => exact handles.refl
    | cons index rest ih => exact fun m => handles.trans (handles.chore (.restart now index)) (ih _)
  exact Run.followsGet (handles.bind (handles.resetDevices calls _ m) fun _ m =>
    Run.followsSame (Run.keepsModify (restarted _ _ m)))

theorem startDevices (ids : List DeviceId) (m : Machine) :
    Run.Follows R (startDevices call ids) (startDevices other ids) m := by
  induction ids generalizing m with
  | nil => exact handles.pure _
  | cons id rest ih =>
    refine Run.followsGet ?_
    cases idle : m.idle id with
    | error e => exact handles.pure _
    | ok device =>
      cases device with
      | peripheral p =>
        refine handles.lend idle (fun m => calls _ m) fun reply m => ?_
        split
        · exact handles.pure _
        · exact ih m
      | acc8 | sequencer =>
        exact handles.lend idle (fun _ => handles.pure Reply.ok) fun reply m => by
          split
          · exact handles.pure _
          · exact ih m

theorem start (m : Machine) : Run.Follows R (start call) (start other) m := by
  refine Run.followsGet (handles.bind (handles.startDevices calls _ m) fun failed m => ?_)
  cases failed with
  | some e => exact handles.pure _
  | none =>
    refine handles.bind (handles.change .freeze) fun _ m => ?_
    exact handles.bind (handles.reset calls m) fun _ _ => handles.pure _

section
variable {target : Time}
  (slices : ∀ {m : Machine} {unit : Nat} {p : Processor}, m.units[unit]? = some p →
    Run.Follows R (Machine.runSlice call unit target) (Machine.runSlice other unit target) m)
  (pops : ∀ {m : Machine} {limit : Time} {fired : Timer.Fired} {timers : Timer.Queue},
    m.timers.popDue limit = some (fired, timers) → R m { m with timers })
  (waits : ∀ {m : Machine} {limit : Time}, m.timers.popDue limit = none →
    R m { m with timers := m.timers.setNow limit })
include slices pops waits

theorem pass (m : Machine) : Run.Follows R (pass call target) (pass other target) m := by
  have moved : ∀ {m m₁ : Machine}, R m m₁ → Run.Follows R (set m₁) (set m₁) m :=
    fun step => Run.followsSame fun _ _ h => by
      cases h
      exact step
  refine Run.followsGet ?_
  dsimp only
  generalize m.leastAdvanced?.elim target (fun row => min row.2 target) = limit
  cases popped : m.timers.popDue limit with
  | some row =>
    refine handles.bind (moved (pops popped)) fun _ m => ?_
    exact handles.bind (handles.dispatch calls row.1 m) fun _ _ => handles.pure _
  | none =>
    refine handles.bind (moved (waits popped)) fun _ m₁ => ?_
    cases m.leastAdvanced? with
    | none => exact handles.pure _
    | some row =>
      dsimp only
      split
      · exact handles.pure _
      · refine handles.bind ?_ fun _ _ => handles.pure _
        cases found : m₁.units[row.1]? with
        | some p => exact slices found
        | none =>
          refine Run.followsGet ?_
          simp only [found]
          exact handles.pure _

theorem runUntil (fuel : Nat) (m : Machine) :
    Run.Follows R (runUntil call target fuel) (runUntil other target fuel) m := by
  induction fuel generalizing m with
  | zero => exact fun _ _ h => by cases h
  | succ fuel ih =>
    rw [untilPass, untilPass]
    refine handles.bind (handles.pass calls slices pops waits m) fun on m => ?_
    cases on with
    | true => exact ih m
    | false => exact handles.pure _

end

end

end Handles

namespace Carries
variable {R : Machine → Machine → Prop} (carries : Carries R) {m : Machine}
include carries

theorem bears : Bears fun _ => Run.Follows R := bearsFollows carries.refl carries.trans carries.touch

theorem change {g : Machine → Machine} (tick : Tick m (g m)) :
    Run.Follows R (modify g) (modify g) m :=
  Run.followsSame (Run.keepsModify (carries.tick tick))

theorem plays : Plays fun _ => Run.Follows R :=
  playsFollows carries.refl carries.trans carries.touch fun pulse => carries.tick (.pulse pulse)

section
variable {call other : Callback} (calls : ∀ s m, Run.Follows R (call s) (other s) m)
include calls

theorem runSlice (unit : Nat) (target : Time) (m : Machine) :
    Run.Follows R (runSlice call unit target) (runSlice other unit target) m :=
  carries.toHandles.runSlice (carries.plays.runDevice calls unit) target m

variable
  (pops : ∀ {m : Machine} {limit : Time} {fired : Timer.Fired} {timers : Timer.Queue},
    m.timers.popDue limit = some (fired, timers) → R m { m with timers })
  (waits : ∀ {m : Machine} {limit : Time}, m.timers.popDue limit = none →
    R m { m with timers := m.timers.setNow limit })
include pops waits

theorem pass (target : Time) (m : Machine) :
    Run.Follows R (pass call target) (pass other target) m :=
  carries.toHandles.pass calls (fun {m unit _} _ => carries.runSlice calls unit target m) pops waits m

theorem runUntil (target : Time) (fuel : Nat) (m : Machine) :
    Run.Follows R (runUntil call target fuel) (runUntil other target fuel) m :=
  carries.toHandles.runUntil calls (fun {m unit _} _ => carries.runSlice calls unit target m) pops
    waits fuel m

end

end Carries

section
variable {call : Callback} {unit cycles : Nat} {id : DeviceId} {d : Device} {m m' : Machine}

theorem deviceCases {out : Option (Device × Nat)}
    (ran : runDevice call unit cycles id d m = some (out, m')) :
    (out = none ∧ m' = m) ∨
    (∃ cpu cpu' count program io, d = .acc8 cpu ∧ out = some (.acc8 cpu', count) ∧
      runAcc8 call unit cycles (acc8Port call program io) cpu m = some ((cpu', count), m')) ∨
    ∃ s s' count, d = .sequencer s ∧ out = some (.sequencer s', count) := by
  cases d with
  | peripheral p =>
    cases ran
    exact .inl ⟨rfl, rfl⟩
  | acc8 cpu =>
    unfold runDevice at ran
    dsimp only at ran
    rw [Run.getBind] at ran
    cases program : m.ownedSpace id .program with
    | error e =>
      rw [program] at ran
      cases ran
      exact .inl ⟨rfl, rfl⟩
    | ok program' =>
      cases io : m.ownedSpace id .io with
      | error e =>
        rw [program, io] at ran
        cases ran
        exact .inl ⟨rfl, rfl⟩
      | ok io' =>
        rw [program, io] at ran
        obtain ⟨row, m₁, runs, ran⟩ := Run.bindInv ran
        cases ran
        exact .inr (.inl ⟨cpu, row.1, row.2, program', io', rfl, rfl, runs⟩)
  | sequencer s =>
    unfold runDevice at ran
    dsimp only at ran
    split at ran
    · obtain ⟨row, m₁, -, ran⟩ := Run.bindInv ran
      cases ran
      exact .inr (.inr ⟨s, row.1, row.2, rfl, rfl⟩)
    · cases ran
      exact .inl ⟨rfl, rfl⟩

theorem deviceInv {count : Nat} {d' : Device}
    (ran : runDevice call unit cycles id d m = some (some (d', count), m')) :
    (∃ cpu cpu' program io, d = .acc8 cpu ∧ d' = .acc8 cpu' ∧
      runAcc8 call unit cycles (acc8Port call program io) cpu m = some ((cpu', count), m')) ∨
    ∃ s s', d = .sequencer s ∧ d' = .sequencer s' := by
  obtain ⟨none, -⟩ | ⟨cpu, cpu', count', program, io, same, became, runs⟩ |
    ⟨s, s', count', same, became⟩ := deviceCases ran
  · cases none
  · cases became
    exact .inl ⟨cpu, cpu', program, io, same, rfl, runs⟩
  · cases became
    exact .inr ⟨s, s', same, rfl⟩

theorem grantInv {outcome : Option (Nat × Option Trap)}
    (ran : grant call unit cycles id m = some (outcome, m')) :
    (outcome = none ∧ m' = m) ∨ ∃ device out m₁, m.idle id = .ok device ∧
      runDevice call unit cycles id device (m.setBusy id true) = some (out, m₁) ∧
      ((outcome = none ∧ out = none ∧ m' = m₁.setBusy id false) ∨ ∃ device' count,
        outcome = some (count, device'.runState?.bind (·.trap?)) ∧ out = some (device', count) ∧
        m' = (m₁.setBusy id false).withDevice id device') := by
  cases idle : m.idle id with
  | error e =>
    unfold grant at ran
    rw [Run.getBind, idle] at ran
    cases ran
    exact .inl ⟨rfl, rfl⟩
  | ok device =>
    obtain ⟨out, m₁, runs, placed⟩ := grantPlaced idle ran
    exact .inr ⟨device, out, m₁, rfl, runs, placed⟩

end

theorem sliceKeeps {call : Callback} {R : Machine → Machine → Prop} {unit : Nat} {target : Time}
    {m : Machine} (trans : ∀ {a b c}, R a b → R b c → R a c)
    (tree : ∀ {a b : Machine}, b.tree = a.tree → R a b)
    (granted : ∀ cycles id m, Run.Keeps R (grant call unit cycles id) m) :
    Run.Keeps R (runSlice call unit target) m := by
  refine Run.keepsGet ?_
  cases m.units[unit]? with
  | none => exact Run.keepsPure (fun _ => tree rfl) _
  | some p =>
    refine Run.keepsBind @trans (Run.keepsModify (tree rfl)) fun _ m _ => ?_
    refine Run.keepsBind @trans (Run.keepsModify (tree rfl)) fun _ m _ => ?_
    refine Run.keepsBind @trans (Run.keepsModify (tree (traceSame ..).2.1)) fun _ m _ => ?_
    refine Run.keepsBind @trans (granted _ _ _) fun outcome m _ => ?_
    refine Run.keepsBind @trans (Run.keepsModify (tree rfl)) fun _ m _ => ?_
    cases outcome with
    | none => exact Run.keepsModify (tree rfl)
    | some row => exact Run.keepsModify (tree (settleSame ..).2.1)

end Lockstep.Machine
