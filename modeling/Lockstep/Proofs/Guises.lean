import Lockstep.Proofs.Rules

/-! Machines in guise. Commands to devices, timers and memory ask a machine for none of its address
spaces and for nothing that it has recorded. However two machines differ in those, such commands
give the same replies on both and leave the difference as it is, and so do scripts, as long as
what they ask of spaces and counters does. -/
namespace Lockstep

def Command.isOuter : Command → Bool
  | .read .. | .write .. | .map .. | .freeze _ | .ranges _ | .rangeAt .. | .floating ..
  | .describeSpace _ | .counters => true
  | _ => false

structure Outside where
  budget : Int
  spaces : Array (Bus.Space Port)
  diag : Diag
  sink : Option String
  journal : Array Activity

namespace Machine

def outside (m : Machine) : Outside := ⟨m.budget, m.spaces, m.diag, m.sink, m.journal⟩

def facing (m : Machine) (o : Outside) : Machine :=
  { m with budget := o.budget, spaces := o.spaces, diag := o.diag, sink := o.sink
           journal := o.journal }

end Machine

/-- How a machine may be disguised. -/
class Guise (G : Type) where
  wear : Machine → G → Machine
  Fits : G → Machine → Prop

namespace Machine

section
variable (G : Type) [Guise G]

inductive Agree {α : Type} (slice : Option Frame) :
    Option (α × Machine) → Option (α × Machine) → Prop where
  | none : Agree slice none none
  | some {m : Machine} {g : G} (a : α) (frame : m.frame = slice) (fits : Guise.Fits g m) :
      Agree slice (some (a, m)) (some (a, Guise.wear m g))

def Blind {α : Type} (slice : Option Frame) (x : Run α) (m : Machine) : Prop :=
  ∀ g : G, Guise.Fits g m → Agree G slice (x m) (x (Guise.wear m g))

def Inert (f : Machine → Machine) (m : Machine) : Prop :=
  (f m).frame = m.frame ∧ ∀ g : G, Guise.Fits g m →
    ∃ g' : G, Guise.Fits g' (f m) ∧ f (Guise.wear m g) = Guise.wear (f m) g'

def Told {ε : Type} (f : Machine → Except ε Machine) (m : Machine) : Prop :=
  ∀ g : G, Guise.Fits g m →
    (∃ e, f m = .error e ∧ f (Guise.wear m g) = .error e) ∨
    ∃ (m' : Machine) (g' : G), f m = .ok m' ∧ m'.frame = m.frame ∧ Guise.Fits g' m' ∧
      f (Guise.wear m g) = .ok (Guise.wear m' g')

def Replies (f : Machine → Machine × Reply) (m : Machine) : Prop :=
  (f m).1.frame = m.frame ∧ ∀ g : G, Guise.Fits g m →
    ∃ g' : G, Guise.Fits g' (f m).1 ∧ f (Guise.wear m g) = (Guise.wear (f m).1 g', (f m).2)

end

section
variable {G : Type} [Guise G] {α β : Type} {m : Machine} {slice slice' : Option Frame}

theorem blindPure (a : α) (frame : m.frame = slice) : Blind G slice (pure a) m :=
  fun _ fits => .some a frame fits

theorem blindNone : Blind G slice (fun _ => none : Run α) m := fun _ _ => .none

theorem blindBind {x : Run α} {f : α → Run β} (first : Blind G slice x m)
    (rest : ∀ a m, m.frame = slice → Blind G slice' (f a) m) : Blind G slice' (x >>= f) m := by
  intro g fits
  have one := first g fits
  change Agree G slice' ((x m).bind fun row => f row.1 row.2)
    ((x (Guise.wear m g)).bind fun row => f row.1 row.2)
  generalize x m = left, x (Guise.wear m g) = right at one
  cases one with
  | none => exact .none
  | some a frame fits => exact rest a _ frame _ fits

theorem blindGet {f : Machine → Run α}
    (same : ∀ g : G, Guise.Fits g m → f (Guise.wear m g) = f m) (rest : Blind G slice (f m) m) :
    Blind G slice (get >>= f) m := by
  intro g fits
  change Agree G slice (f m m) (f (Guise.wear m g) (Guise.wear m g))
  rw [same g fits]
  exact rest g fits

theorem blindShift {f : Machine → Machine} (frame : (f m).frame = slice)
    (inert : ∀ g : G, Guise.Fits g m →
      ∃ g' : G, Guise.Fits g' (f m) ∧ f (Guise.wear m g) = Guise.wear (f m) g') :
    Blind G slice (modify f) m := by
  intro g fits
  obtain ⟨g', fits', same⟩ := inert g fits
  change Agree G slice (some (PUnit.unit, f m)) (some (PUnit.unit, f (Guise.wear m g)))
  rw [same]
  exact .some _ frame fits'

theorem blindModify {f : Machine → Machine} (inert : Inert G f m) :
    Blind G m.frame (modify f) m :=
  blindShift inert.1 inert.2

theorem blindDiscard {x : Run α} (h : Blind G slice x m) : Blind G slice (discard x) m :=
  blindBind (f := fun _ => pure PUnit.unit) h fun _ _ frame => blindPure _ frame

theorem blindLook {f : Machine → Reply}
    (same : ∀ g : G, Guise.Fits g m → f (Guise.wear m g) = f m) : Blind G m.frame (look f) m :=
  blindGet (f := fun m => pure (f m)) (fun g fits => by rw [same g fits]) (blindPure _ rfl)

theorem inertSame (m : Machine) : Inert G (fun m => m) m :=
  ⟨rfl, fun g fits => ⟨g, fits, rfl⟩⟩

theorem inertThen {f h : Machine → Machine} (first : Inert G f m) (rest : Inert G h (f m)) :
    Inert G (fun m => h (f m)) m := by
  refine ⟨rest.1.trans first.1, fun g fits => ?_⟩
  obtain ⟨g', fits', same⟩ := first.2 g fits
  dsimp only
  rw [same]
  exact rest.2 g' fits'

theorem inertIf {c : Prop} [Decidable c] {f h : Machine → Machine} (yes : Inert G f m)
    (no : Inert G h m) : Inert G (fun m => if c then f m else h m) m := by
  split
  · exact yes
  · exact no

section
variable {ε : Type} {f : Machine → Except ε Machine}

theorem toldOk {h : Machine → Machine} (inert : Inert G h m) :
    Told G (fun m => .ok (h m) : Machine → Except ε Machine) m := by
  intro g fits
  obtain ⟨g', fits', same⟩ := inert.2 g fits
  exact .inr ⟨h m, g', rfl, inert.1, fits', congrArg Except.ok same⟩

theorem toldError (e : Machine → ε) (same : ∀ g : G, Guise.Fits g m → e (Guise.wear m g) = e m) :
    Told G (fun m => .error (e m)) m :=
  fun g fits => .inl ⟨e m, rfl, congrArg Except.error (same g fits)⟩

theorem toldAfter {h : Machine → Machine} (inert : Inert G h m) (rest : Told G f (h m)) :
    Told G (fun m => f (h m)) m := by
  intro g fits
  obtain ⟨g', fits', same⟩ := inert.2 g fits
  dsimp only
  rw [same, ← inert.1]
  exact rest g' fits'

theorem toldBind {h : Machine → Except ε Machine} (first : Told G f m)
    (rest : ∀ m', m'.frame = m.frame → Told G h m') : Told G (fun m => f m >>= h) m := by
  intro g fits
  dsimp only
  rcases first g fits with ⟨e, left, right⟩ | ⟨m', g', left, frame, fits, right⟩
  · exact .inl ⟨e, by rw [left]; rfl, by rw [right]; rfl⟩
  · rw [left, right, ← frame]
    exact rest m' frame g' fits

theorem toldIf {c : Prop} [Decidable c] {h : Machine → Except ε Machine} (yes : Told G f m)
    (no : Told G h m) : Told G (fun m => if c then f m else h m) m := by
  split
  · exact yes
  · exact no

theorem toldRead {x : Machine → Except ε β} {k : Machine → β → Except ε Machine}
    (same : ∀ g : G, Guise.Fits g m → x (Guise.wear m g) = x m)
    (rest : ∀ b, x m = .ok b → Told G (k · b) m) : Told G (fun m => x m >>= k m) m := by
  intro g fits
  dsimp only
  rw [same g fits]
  cases result : x m with
  | error e => exact .inl ⟨e, rfl, rfl⟩
  | ok b => exact rest b result g fits

end

theorem blindAttempt {f : Machine → Except AccessError Machine} (told : Told G f m) :
    Blind G m.frame (attempt f) m := by
  intro g fits
  unfold attempt
  rw [Run.getBind, Run.getBind]
  rcases told g fits with ⟨e, left, right⟩ | ⟨m', g', left, frame, fits, right⟩
  · rw [left, right]
    exact .some _ rfl fits
  · rw [left, right]
    exact .some _ frame fits

theorem blindReply {f : Machine → Machine × Reply} (replies : Replies G f m) :
    Blind G m.frame (do let m ← get; set (f m).1; return (f m).2 : Run Reply) m := by
  intro g fits
  obtain ⟨g', fits', same⟩ := replies.2 g fits
  change Agree G m.frame (some ((f m).2, (f m).1))
    (some ((f (Guise.wear m g)).2, (f (Guise.wear m g)).1))
  rw [same]
  exact .some _ replies.1 fits'

end

class LawfulGuise (G : Type) [Guise G] : Prop where
  outer : ∀ {g : G} {m : Machine}, Guise.Fits g m →
    Guise.wear m g = m.facing (Guise.wear m g).outside
  core : ∀ {g : G} {m n : Machine}, Guise.Fits g m → n.outside = m.outside → n.frame = m.frame →
    Guise.Fits g n ∧ (Guise.wear n g).outside = (Guise.wear m g).outside
  now : ∀ {g : G} {m : Machine}, Guise.Fits g m → (Guise.wear m g).now = m.now
  enter : ∀ (m : Machine) (entry : Activity), Inert G (·.enter entry) m
  trace : ∀ (m : Machine) (event : TraceEvent), Inert G (·.trace event) m

section
variable {G : Type} [Guise G] [LawfulGuise G] {α β : Type} {m : Machine} {slice : Option Frame}

theorem sameInside {f : Machine → α} (same : ∀ o, f (m.facing o) = f m) {g : G}
    (fits : Guise.Fits g m) : f (Guise.wear m g) = f m := by
  rw [LawfulGuise.outer fits]
  exact same _

theorem wornInside {f : Machine → Machine} (outside : (f m).outside = m.outside)
    (frame : (f m).frame = m.frame) (same : ∀ o, f (m.facing o) = (f m).facing o) {g : G}
    (fits : Guise.Fits g m) :
    Guise.Fits g (f m) ∧ f (Guise.wear m g) = Guise.wear (f m) g := by
  obtain ⟨fits', kept⟩ := LawfulGuise.core fits outside frame
  refine ⟨fits', ?_⟩
  rw [LawfulGuise.outer fits, same, ← kept]
  exact (LawfulGuise.outer fits').symm

theorem inertInside {f : Machine → Machine} (outside : (f m).outside = m.outside)
    (frame : (f m).frame = m.frame) (same : ∀ o, f (m.facing o) = (f m).facing o) :
    Inert G f m :=
  ⟨frame, fun g fits => ⟨g, wornInside outside frame same fits⟩⟩

theorem getInside {f : Machine → Run α} (same : ∀ o, f (m.facing o) = f m)
    (rest : Blind G slice (f m) m) : Blind G slice (get >>= f) m :=
  blindGet (fun _ fits => sameInside same fits) rest

theorem lookInside {f : Machine → Reply} (same : ∀ o, f (m.facing o) = f m) :
    Blind G m.frame (look f) m :=
  blindLook fun _ fits => sameInside same fits

theorem readInside {ε : Type} {x : Machine → Except ε β} {k : Machine → β → Except ε Machine}
    (same : ∀ o, x (m.facing o) = x m) (rest : ∀ b, x m = .ok b → Told G (k · b) m) :
    Told G (fun m => x m >>= k m) m :=
  toldRead (fun _ fits => sameInside same fits) rest

theorem errorInside {ε : Type} (e : Machine → ε) (same : ∀ o, e (m.facing o) = e m) :
    Told G (fun m => .error (e m)) m :=
  toldError e fun _ fits => sameInside same fits

theorem repliesInside {f : Machine → Machine × Reply} (outside : (f m).1.outside = m.outside)
    (frame : (f m).1.frame = m.frame)
    (same : ∀ o, f (m.facing o) = ((f m).1.facing o, (f m).2)) : Replies G f m := by
  refine ⟨frame, fun g fits => ⟨g, ?_⟩⟩
  obtain ⟨fits', kept⟩ := LawfulGuise.core fits outside frame
  refine ⟨fits', ?_⟩
  rw [LawfulGuise.outer fits, same, ← kept]
  exact congrArg (·, (f m).2) (LawfulGuise.outer fits').symm

theorem inertAt {f : Time → Machine → Machine} (inert : Inert G (f m.now) m) :
    Inert G (fun m => f m.now m) m := by
  refine ⟨inert.1, fun g fits => ?_⟩
  dsimp only
  rw [LawfulGuise.now fits]
  exact inert.2 g fits

theorem repliesAt {f : Time → Machine → Machine × Reply} (replies : Replies G (f m.now) m) :
    Replies G (fun m => f m.now m) m := by
  refine ⟨replies.1, fun g fits => ?_⟩
  dsimp only
  rw [LawfulGuise.now fits]
  exact replies.2 g fits

theorem inertUnit (m : Machine) (index : Nat) (f : Processor → Processor) :
    Inert G (·.modifyUnit index f) m :=
  inertInside rfl rfl fun _ => rfl

theorem inertUnitAt (m : Machine) (index : Nat) (f : Time → Processor → Processor) :
    Inert G (fun m => m.modifyUnit index (f m.now)) m :=
  inertAt (f := fun now m => m.modifyUnit index (f now)) (inertUnit m index (f m.now))

theorem inertEnterAll (m : Machine) (entries : List Activity) :
    Inert G (·.enterAll entries) m := by
  induction entries generalizing m with
  | nil => exact inertSame m
  | cons entry rest ih => exact inertThen (LawfulGuise.enter m entry) (ih (m.enter entry))

theorem yieldInside (m : Machine) :
    m.requestYield.outside = m.outside ∧ m.requestYield.frame = m.frame ∧
      ∀ o, (m.facing o).requestYield = m.requestYield.facing o := by
  have same : ∀ o, (m.facing o).frame = m.frame := fun _ => rfl
  unfold requestYield
  simp only [same]
  split <;> exact ⟨rfl, rfl, fun _ => rfl⟩

theorem inertYield (m : Machine) : Inert G requestYield m :=
  inertInside (yieldInside m).1 (yieldInside m).2.1 (yieldInside m).2.2

def yieldWhen (c : Frame → Prop) [DecidablePred c] (m : Machine) : Machine :=
  match m.frame with
  | some f => if c f then m.requestYield else m
  | none => m

theorem yieldWhenInside (c : Frame → Prop) [DecidablePred c] (m : Machine) :
    (yieldWhen c m).outside = m.outside ∧ (yieldWhen c m).frame = m.frame ∧
      ∀ o, yieldWhen c (m.facing o) = (yieldWhen c m).facing o := by
  have same : ∀ o, (m.facing o).frame = m.frame := fun _ => rfl
  unfold yieldWhen
  simp only [same]
  split
  · split
    · exact yieldInside m
    · exact ⟨rfl, rfl, fun _ => rfl⟩
  · exact ⟨rfl, rfl, fun _ => rfl⟩

theorem inertYieldWhen (c : Frame → Prop) [DecidablePred c] (m : Machine) :
    Inert G (yieldWhen c) m :=
  inertInside (yieldWhenInside c m).1 (yieldWhenInside c m).2.1 (yieldWhenInside c m).2.2

theorem toldUnits {ε : Type} {f h : Machine → Except ε Machine}
    (same : ∀ m' : Machine, m'.units = m.units → f m' = h m') (told : Told G h m) :
    Told G f m := by
  intro g fits
  rw [same m rfl, same _ (sameInside (f := Machine.units) (fun _ => rfl) fits)]
  exact told g fits

theorem toldSuspend (device : DeviceId) (reasons : Suspension) (m : Machine) :
    Told G (·.suspend device reasons) m := by
  refine readInside (fun _ => rfl) fun row _ => toldOk ?_
  exact inertThen
    (inertThen (inertUnit m row.1 _) (inertIf (inertSame _) (LawfulGuise.trace _ _)))
    (inertYieldWhen (fun f => f.unit = row.1) _)

theorem toldResume (device : DeviceId) (reasons : Suspension) (m : Machine) :
    Told G (·.resume device reasons) m := by
  refine readInside (fun _ => rfl) fun row _ => ?_
  obtain ⟨index, unit⟩ := row
  refine toldIf (toldOk (inertSame m)) (toldOk ?_)
  let wake (now : Time) (p : Processor) : Processor :=
    let p := { p with suspension := unit.suspension.diff reasons }
    if (unit.suspension.diff reasons).isEmpty then p.catchUp now else p
  exact inertThen (inertUnitAt m index wake) (LawfulGuise.trace _ _)

theorem toldDriveLine (device : DeviceId) (line : Nat) (state : LineState) (vector : Option Nat)
    (m : Machine) : Told G (·.driveLine device line state vector) m := by
  refine readInside (fun _ => rfl) fun row _ => ?_
  obtain ⟨index, unit⟩ := row
  dsimp only
  cases unit.lines.set? line state vector with
  | none =>
    exact errorInside (fun m => AccessError.unknownInputLine (m.tree.tag device) line) fun _ => rfl
  | some lines =>
    have driven := inertThen (G := G) (inertUnit m index fun p => { p with lines })
      (LawfulGuise.trace _ (.inputLineChanged device line state))
    have woken : ∀ m, Told G (fun m => if (state.isActive && unit.suspension.spin) = true then
        m.resume device { spin := true } else .ok m) m :=
      fun m => toldIf (toldResume _ _ m) (toldOk (inertSame m))
    exact toldAfter driven (woken _)

theorem toldSpin (device : DeviceId) (m : Machine) : Told G (·.spinUntilInterrupt device) m := by
  refine readInside (fun _ => rfl) fun row _ => ?_
  exact toldIf (toldOk (inertSame m)) (toldSuspend _ _ _)

theorem toldReset (index : Nat) (m : Machine) : Told G (·.resetUnit index) m := by
  cases row : m.units[index]? with
  | none =>
    refine toldUnits (h := .ok) (fun m' units => ?_) (toldOk (inertSame m))
    unfold resetUnit
    rw [units, row]
  | some unit =>
    let placed (m : Machine) (d : Device) : Machine :=
      ((m.withDevice unit.device d.resetUnit.1).enterAll d.resetUnit.2).modifyUnit index fun p =>
        { p with lines := p.lines.clear, suspension := p.suspension.diff { trapped := true } }
    refine toldUnits (h := fun m => m.idle unit.device >>= fun d => .ok (placed m d))
      (fun m' units => ?_) (readInside (fun _ => rfl) fun d _ => toldOk ?_)
    · unfold resetUnit
      rw [units, row]
      rfl
    · exact inertThen (inertThen (inertInside (f := (·.withDevice unit.device d.resetUnit.1))
        rfl rfl fun _ => rfl) (inertEnterAll _ _)) (inertUnit _ _ _)

theorem toldDriveReset (device : DeviceId) (asserted : Bool) (m : Machine) :
    Told G (·.driveReset device asserted) m := by
  refine toldIf (toldSuspend _ _ _) (readInside (fun _ => rfl) fun row _ => ?_)
  exact toldIf (toldOk (inertSame m)) (toldBind (toldReset _ _) fun m' _ => toldResume _ _ m')

theorem toldRegister (device : DeviceId) (id : RegisterId) (value : Nat) (m : Machine) :
    Told G (·.setRegister device id value) m := by
  have refused : Told G (fun m => .error (AccessError.notExecutionUnit (m.tree.tag device))) m :=
    errorInside _ fun _ => rfl
  refine readInside (fun _ => rfl) fun d _ => toldIf refused ?_
  dsimp only
  cases d.setRegister id value with
  | error e => exact toldError (fun _ => _) fun _ _ => rfl
  | ok d => exact toldOk (inertInside rfl rfl fun _ => rfl)

theorem repliesSchedule (owner : DeviceId) (delay : Machine → Time) (period : Time) (param : Nat)
    (same : ∀ o, delay (m.facing o) = delay m) :
    Replies G (fun m => (m.schedule owner (delay m) period param).1.issue
      (m.schedule owner (delay m) period param).2) m := by
  let arm (now : Time) (m : Machine) : Machine × Reply :=
    let row := m.timers.scheduleAt owner (now + delay m) period param
    ({ m with timers := row.1 }.cutBefore (now + delay m)).issue row.2
  refine repliesAt (f := arm) ?_
  have kept := yieldWhenInside (fun f => m.now + delay m < f.finish)
    { m with timers := (m.timers.scheduleAt owner (m.now + delay m) period param).1 }
  refine repliesInside kept.1 kept.2.1 fun o => ?_
  simp only [arm, same]
  exact congrArg (·.issue (m.timers.scheduleAt owner (m.now + delay m) period param).2)
    (kept.2.2 o)

theorem repliesAdjust (id : Timer.Id) (delay period : Time) (m : Machine) :
    Replies G (fun m => ((m.adjustTimer id delay period).1,
      .flag (m.adjustTimer id delay period).2)) m := by
  let adjust (now : Time) (m : Machine) : Machine × Reply :=
    let row := m.timers.adjustAt id (now + delay) period
    if row.2 then ({ m with timers := row.1 }.cutBefore (now + delay), .flag true)
    else (m, .flag false)
  have adjusts : Replies G (adjust m.now) m := by
    have queued : ∀ o, (m.facing o).timers = m.timers := fun _ => rfl
    rcases moved : m.timers.adjustAt id (m.now + delay) period with ⟨timers, _ | _⟩
    · refine repliesInside ?_ ?_ fun o => ?_ <;> simp [adjust, queued, moved]
    · have kept := yieldWhenInside (fun f => m.now + delay < f.finish) { m with timers }
      refine repliesInside ?_ ?_ fun o => ?_ <;> simp only [adjust, queued, moved, if_true]
      · exact kept.1
      · exact kept.2.1
      · exact congrArg (·, Reply.flag true) (kept.2.2 o)
  have same : ∀ m : Machine, ((m.adjustTimer id delay period).1,
      Reply.flag (m.adjustTimer id delay period).2) = adjust m.now m := by
    intro m
    simp only [adjustTimer, adjust]
    rcases m.timers.adjustAt id (m.now + delay) period with ⟨timers, _ | _⟩ <;> rfl
  simp only [same]
  exact repliesAt adjusts

theorem blindOnTimer {f : Machine → Timer.Id → Machine × Reply} (position : Nat)
    (replies : ∀ id, Replies G (f · id) m) : Blind G m.frame (onTimer position f) m := by
  intro g fits
  unfold onTimer
  rw [Run.getBind, Run.getBind, sameInside (f := fun m => m.handles[position]?) (fun _ => rfl) fits]
  cases m.handles[position]? with
  | none => exact .some _ rfl fits
  | some id => exact blindReply (replies id) g fits

theorem blindOnSpace {route : Route} {f : SpaceId → Run Reply}
    (rest : ∀ id, m.resolve route = .ok id → Blind G m.frame (f id) m) :
    Blind G m.frame (onSpace route f) m := by
  refine getInside (fun _ => rfl) ?_
  cases routed : m.resolve route with
  | ok id => exact rest id routed
  | error e => exact blindPure _ rfl

theorem blindMap {call : Callback} {override : Bool} {route : Route} {first last : Nat}
    {target : Target Port} (told : ∀ id handler, m.resolve route = .ok id →
      Told G (·.map override id first last handler) m) :
    Blind G m.frame ((Command.map override route first last target).run call) m := by
  unfold Command.run
  refine blindOnSpace fun id routed g fits => ?_
  have named := sameInside (f := fun m => m.handler? target) (fun _ => rfl) fits
  rw [Run.getBind, Run.getBind, named]
  cases m.handler? target with
  | none => exact .some _ rfl fits
  | some handler =>
    rcases told id handler routed g fits with
      ⟨e, left, right⟩ | ⟨m', g', left, frame, fits, right⟩
    · dsimp only at left right ⊢
      rw [left, right]
      exact .some _ rfl fits
    · dsimp only at left right ⊢
      rw [left, right]
      exact .some _ frame fits

theorem blindReplace (changed : Except BankError Memory) (m : Machine) :
    Blind G m.frame (replaceMemory changed) m := by
  cases changed with
  | error e => exact blindPure _ rfl
  | ok memory =>
    exact blindBind (blindModify (inertInside rfl rfl fun _ => rfl)) fun _ _ => blindPure _

theorem blindInner {call : Callback} {command : Command} (plain : command.isPlain = true)
    (inner : command.isOuter = false) : Blind G m.frame (command.run call) m := by
  have stored : ∀ {reply : Reply} (block : Memory.BlockId) (offset : Nat) (bytes : List UInt8),
      Blind G m.frame (do
        modify fun m => { m with memory := m.memory.write block offset bytes }
        return reply) m := fun _ _ _ =>
    blindBind (blindModify (inertInside rfl rfl fun _ => rfl)) fun _ _ => blindPure _
  cases command with
  | borrow => cases plain
  | read | write | map | freeze | ranges | rangeAt | floating | describeSpace | counters =>
    cases inner
  | poke block offset value =>
    unfold Command.run
    refine getInside (fun _ => rfl) ?_
    cases m.memory.blockId? block with
    | none => exact blindPure _ rfl
    | some id => exact getInside (fun _ => rfl) (stored id offset [value])
  | load block offset bytes =>
    unfold Command.run
    refine getInside (fun _ => rfl) ?_
    cases m.memory.blockId? block with
    | none => exact blindPure _ rfl
    | some id => exact getInside (fun _ => rfl) (stored id offset bytes)
  | selectBank tag index =>
    unfold Command.run
    refine getInside (fun _ => rfl) ?_
    dsimp only
    cases m.memory.bankId? tag with
    | none => exact blindPure _ rfl
    | some bank => exact blindReplace _ m
  | switchBank tag index =>
    unfold Command.run
    exact getInside (fun _ => rfl) (blindReplace _ m)
  | schedule owner delay period param =>
    unfold Command.run
    exact blindReply (repliesSchedule owner (fun _ => delay) period param fun _ => rfl)
  | scheduleCycles owner cycles param =>
    unfold Command.run
    let delay (m : Machine) : Time := ((m.tree.get? owner).elim ⟨0⟩ (·.clock)).span cycles
    exact blindReply (repliesSchedule owner delay .zero param fun _ => rfl)
  | allocateTimer owner param =>
    unfold Command.run
    exact blindReply (f := fun m => (m.allocateTimer owner param).1.issue
      (m.allocateTimer owner param).2) (repliesInside rfl rfl fun _ => rfl)
  | adjustTimer position delay period =>
    unfold Command.run
    exact blindOnTimer position fun id => repliesAdjust id delay period m
  | cancelTimer | removeTimer | timerEnabled | timerFireTime =>
    unfold Command.run
    exact blindOnTimer _ fun _ => repliesInside rfl rfl fun _ => rfl
  | driveLine device line state vector =>
    unfold Command.run
    exact blindAttempt (toldDriveLine device line state vector m)
  | suspend device reasons =>
    unfold Command.run
    exact blindAttempt (toldSuspend device reasons m)
  | resume device reasons =>
    unfold Command.run
    exact blindAttempt (toldResume device reasons m)
  | spinUntilInterrupt device =>
    unfold Command.run
    exact blindAttempt (toldSpin device m)
  | driveReset device asserted =>
    unfold Command.run
    exact blindAttempt (toldDriveReset device asserted m)
  | setRegister device id value =>
    unfold Command.run
    exact blindAttempt (toldRegister device id value m)
  | requestYield =>
    unfold Command.run
    exact blindBind (blindModify (inertYield m)) fun _ _ => blindPure _
  | boostInterleave quantum duration =>
    unfold Command.run
    let boost (now : Time) (m : Machine) : Machine :=
      { m with boost := some ⟨quantum, now + duration⟩ }
    have boosted : Inert G (fun m => (boost m.now m).requestYield) m :=
      inertAt (f := fun now m => (boost now m).requestYield)
        (inertThen (inertInside rfl rfl fun _ => rfl) (inertYield (boost m.now m)))
    exact blindBind (blindModify boosted) fun _ _ => blindPure _
  | hold id =>
    unfold Command.run
    refine getInside (fun _ => rfl) ?_
    cases m.idle id with
    | error e => exact blindPure _ rfl
    | ok d =>
      exact blindBind (blindModify (inertInside rfl rfl fun _ => rfl)) fun _ _ => blindPure _
  | emit event =>
    unfold Command.run
    exact blindBind (blindModify (LawfulGuise.trace m event)) fun _ _ => blindPure _
  | note entry =>
    unfold Command.run
    exact blindBind (blindModify (LawfulGuise.enter m entry)) fun _ _ => blindPure _
  | newCell =>
    unfold Command.run
    exact blindReply (f := fun m => (m.newCell.1, .count m.newCell.2))
      (repliesInside rfl rfl fun _ => rfl)
  | setCell cell value =>
    unfold Command.run
    exact blindBind (blindModify (inertInside rfl rfl fun _ => rfl)) fun _ _ => blindPure _
  | now =>
    unfold Command.run
    exact blindLook fun _ fits => congrArg Reply.time (LawfulGuise.now fits)
  | describePort =>
    unfold Command.run
    exact blindPure _ rfl
  | peek | dump | describeBlock | describeBank | describeTarget | executing | settings
  | untilNextTimer | lineState | quantumAt | unitTime | unitCycles | suspension | units
  | getRegister | runState | findDevice | requireDevice | describeDevice | deviceCount | getCell =>
    unfold Command.run
    exact lookInside fun _ => rfl

theorem blindLend {id : DeviceId} {x : Run α} {f : α → Run β} {m : Machine}
    (inner : ∀ m, Blind G m.frame x m) (rest : ∀ a m, Blind G m.frame (f a) m) :
    Blind G m.frame (do
      modify (·.setBusy id true)
      let a ← x
      modify (·.setBusy id false)
      f a) m := by
  refine blindBind (blindModify (inertInside rfl rfl fun _ => rfl)) fun _ m₁ frame => ?_
  rw [← frame]
  refine blindBind (inner m₁) fun a m₂ frame => ?_
  rw [← frame]
  exact blindBind (blindModify (inertInside rfl rfl fun _ => rfl)) fun _ m₃ frame =>
    frame ▸ rest a m₃

end

class BusGuise (G : Type) [Guise G] : Prop extends LawfulGuise G where
  count : ∀ (m : Machine) (f : Diag → Diag), Inert G (·.count f) m
  drive : ∀ (m : Machine) (id : SpaceId) (value : Nat), Inert G (·.modifySpace id (·.drive value)) m
  countRead : ∀ (m : Machine) (id : SpaceId), Inert G (·.modifySpace id (·.countRead)) m
  countWrite : ∀ (m : Machine) (id : SpaceId), Inert G (·.modifySpace id (·.countWrite)) m
  freeze : ∀ (m : Machine) (id : SpaceId), Inert G (·.modifySpace id (·.freeze)) m
  floating : ∀ {g : G} {m : Machine}, Guise.Fits g m → ∀ id address width,
    ((Guise.wear m g).space? id).map (·.floating address width) =
      (m.space? id).map (·.floating address width)

section
variable {G : Type} [Guise G] [BusGuise G] {call : Callback}

theorem inertUnmapped (m : Machine) (kind : Bus.SpaceKind) (address : Nat) (write : Bool) :
    Inert G (·.noteUnmapped kind address write) m := by
  have executing : ∀ {g : G}, Guise.Fits g m → (Guise.wear m g).executing? = m.executing? :=
    fun fits => sameInside (f := executing?) (fun _ => rfl) fits
  have noted := inertThen (G := G) (BusGuise.count m (·.unmapped write))
    (LawfulGuise.trace _ (.unmappedAccess m.executing? kind address write))
  refine ⟨noted.1, fun g fits => ?_⟩
  unfold noteUnmapped
  dsimp only
  rw [executing fits]
  exact noted.2 g fits

theorem blindReadHandler (order : Bus.ByteOrder) (region : Bus.Region Port) (address : Nat)
    (width : Bus.Width) (m : Machine) (calls : ∀ port, region.handler = .port port →
      ∀ offset, Blind G m.frame (call (port.onRead offset width)) m) :
    Blind G m.frame (readHandler call order region address width) m := by
  unfold readHandler
  cases handler : region.handler with
  | ram | rom | bank => exact getInside (fun _ => rfl) (blindPure _ rfl)
  | unmapped => exact blindPure _ rfl
  | port port =>
    dsimp only
    split
    · exact blindBind (calls port handler _) fun _ _ frame => blindPure _ frame
    · exact blindPure _ rfl

theorem blindReadRegion (id : SpaceId) (space : Bus.Space Port) (region : Bus.Region Port)
    (address : Nat) (width : Bus.Width) (m : Machine) (calls : ∀ port, region.handler = .port port →
      ∀ offset, Blind G m.frame (call (port.onRead offset width)) m) :
    Blind G m.frame (readRegion call id space region address width) m := by
  refine blindBind (blindReadHandler _ _ _ _ m calls) fun value m' frame => ?_
  rw [← frame]
  cases value with
  | some value => exact blindBind (blindModify (BusGuise.drive m' id value)) fun _ _ => blindPure _
  | none =>
    have noted := inertThen (BusGuise.countRead m' id)
      (inertUnmapped (G := G) _ space.shape.kind address false)
    have shown : ∀ row : Option (Bus.Space Port), row.elim 0 (·.floating address width) =
        (row.map (·.floating address width)).getD 0 := fun row => by cases row <;> rfl
    refine blindBind (blindModify noted) fun _ m frame =>
      blindGet (fun g fits => ?_) (blindPure _ frame)
    rw [shown, BusGuise.floating fits, ← shown]

theorem blindWriteHandler (id : SpaceId) (space : Bus.Space Port) (region : Bus.Region Port)
    (address : Nat) (width : Bus.Width) (value : Nat) (m : Machine)
    (calls : ∀ port, region.handler = .port port →
      ∀ offset, Blind G m.frame (call (port.onWrite offset width value)) m) :
    Blind G m.frame (writeHandler call id space region address width value) m := by
  have stored : ∀ (order : Bus.ByteOrder) (block : Memory.BlockId) (offset : Nat),
      Blind G m.frame (modify (·.writeMemory order block offset width value)) m :=
    fun _ _ _ => blindModify (inertInside rfl rfl fun _ => rfl)
  unfold writeHandler
  cases handler : region.handler with
  | ram => exact stored _ _ _
  | rom => exact blindPure _ rfl
  | bank bank =>
    refine getInside (fun _ => rfl) ?_
    split
    · split
      · exact stored _ _ _
      · exact blindPure _ rfl
    · exact blindPure _ rfl
  | port port =>
    dsimp only
    split
    · exact blindDiscard (calls port handler _)
    · exact blindPure _ rfl
  | unmapped =>
    exact blindModify (inertThen (BusGuise.countWrite m id)
      (inertUnmapped _ space.shape.kind address true))

theorem blindWriteRegion (id : SpaceId) (space : Bus.Space Port) (region : Bus.Region Port)
    (address : Nat) (width : Bus.Width) (value : Nat) (m : Machine)
    (calls : ∀ port, region.handler = .port port →
      ∀ offset m, Blind G m.frame (call (port.onWrite offset width value)) m) :
    Blind G m.frame (writeRegion call id space region address width value) m :=
  blindBind (blindModify (BusGuise.drive m id value)) fun _ m' frame =>
    frame ▸ blindWriteHandler _ _ _ _ _ _ m' fun port handler offset => calls port handler offset m'

end

structure Shrouds (G : Type) [Guise G] (rule : Rule) : Prop where
  same : ∀ {g : G} {m : Machine} (command : Command), Guise.Fits g m →
    rule (Guise.wear m g) command = rule m command
  outer : ∀ {call : Callback} {command : Command} {m : Machine},
    (∀ s m, Blind G m.frame (call s) m) → command.isOuter = true → rule m command = true →
      Blind G m.frame (command.run call) m

namespace Shrouds
variable {G : Type} [Guise G] {rule : Rule} {call : Callback}

theorem obeys (shrouds : Shrouds G rule) {command : Command} {x : Run Reply} {m : Machine}
    (allowed : rule m command = true → Blind G m.frame x m) :
    Blind G m.frame (obeying rule command x) m := by
  intro g fits
  unfold obeying
  rw [shrouds.same command fits]
  split
  · rename_i free
    exact allowed free g fits
  · exact .none

mutual

theorem command [LawfulGuise G] (shrouds : Shrouds G rule)
    (calls : ∀ s m, Blind G m.frame (call s) m) (command : Command) (m : Machine) :
    Blind G m.frame (command.runUnder rule call) m := by
  by_cases outer : command.isOuter = true
  · rw [runUnderLone fun _ _ _ lent => by rw [lent] at outer; cases outer]
    exact shrouds.obeys (shrouds.outer calls outer)
  by_cases plain : command.isPlain = true
  · rw [runUnderLone fun _ _ _ lent => by rw [lent] at plain; cases plain]
    exact shrouds.obeys fun _ => blindInner plain (Bool.not_eq_true _ ▸ outer)
  match command, outer, plain with
  | .borrow id as body, _, _ =>
    unfold Command.runUnder
    refine shrouds.obeys fun _ => getInside (fun _ => rfl) ?_
    cases m.borrowable id as with
    | error e => exact blindPure _ rfl
    | ok device => exact blindLend (shrouds.script calls body) fun _ _ => blindPure _ rfl
  | .read .., outer, _ | .write .., outer, _ => exact absurd rfl outer

theorem script [LawfulGuise G] (shrouds : Shrouds G rule)
    (calls : ∀ s m, Blind G m.frame (call s) m) (s : Script) (m : Machine) :
    Blind G m.frame (s.runUnder rule call) m := by
  match s with
  | .done reply =>
    unfold Script.runUnder
    exact blindPure _ rfl
  | .step first next =>
    unfold Script.runUnder
    exact blindBind (shrouds.command calls first m) fun reply m' frame =>
      frame ▸ shrouds.script calls (next reply) m'

end

theorem invoke [LawfulGuise G] (shrouds : Shrouds G rule) (depth : Nat) (s : Script)
    (m : Machine) : Blind G m.frame (invokeUnder rule depth s) m := by
  induction depth generalizing s m with
  | zero => exact blindNone
  | succ depth ih => exact shrouds.script ih s m

end Shrouds

end Machine

end Lockstep
