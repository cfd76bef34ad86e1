import Lockstep.Proofs.Cabling
import Lockstep.Proofs.History
import Mathlib.Data.Fintype.Sum
import Mathlib.Tactic.DeriveFintype

/-! One set of books. A machine counts its work, so do its processors and its spaces, and its sink
hears of it. The scheduler, the bus and the interrupts each keep some of these counts, but as long
as no callback tells the sink anything itself, every event comes with what it adds to each of them
and nothing is added without one. -/
namespace Lockstep

inductive Meter where
  | cycles
  | slices
  | timers
  | interrupts
  | traps
  | unmapped (write : Bool)
  deriving DecidableEq, Repr, Fintype

def Diag.meter (d : Diag) : Meter → Nat
  | .cycles => d.cycles
  | .slices => d.slices
  | .timers => d.timersFired
  | .interrupts => d.interruptsAccepted
  | .traps => d.traps
  | .unmapped write => if write then d.unmappedWrites else d.unmappedReads

def Bus.Space.unmapped {κ : Type} (s : Space κ) (write : Bool) : Nat :=
  if write then s.unmappedWrites else s.unmappedReads

def TraceEvent.adds : TraceEvent → Meter → Nat
  | .sliceEnd _ _ consumed, .cycles => consumed
  | .sliceEnd .., .slices | .timerFired .., .timers | .interruptAccepted .., .interrupts
  | .unitTrapped .., .traps => 1
  | .unmappedAccess _ _ _ write, .unmapped other => if write = other then 1 else 0
  | _, _ => 0

def added (events : List TraceEvent) (meter : Meter) : Nat := (events.map (·.adds meter)).sum

def silent : Rule := fun _ command =>
  match command with
  | .emit _ => false
  | .note entry => entry.event?.isNone
  | _ => true

@[simp] theorem addedSingle (event : TraceEvent) (meter : Meter) :
    added [event] meter = event.adds meter := by simp [added]

theorem addedAppend (first rest : List TraceEvent) (meter : Meter) :
    added (first ++ rest) meter = added first meter + added rest meter := by simp [added]

theorem TraceEvent.controlAdds {event : TraceEvent} (control : event.isControl = true)
    (meter : Meter) : event.adds meter = 0 := by
  cases event <;> cases meter <;> first | rfl | cases control

def Climbs (n x y : Nat) : Prop := y < Word.largest → y = x + n

namespace Climbs
variable {n k x y z : Nat}

theorem refl (x : Nat) : Climbs 0 x x := fun _ => rfl

theorem trans (first : Climbs n x y) (rest : Climbs k y z) : Climbs (n + k) x z := by
  intro short
  have last := rest short
  have here := first (by omega)
  omega

theorem add (x n : Nat) : Climbs n x (Word.add x n) := by
  unfold Climbs Word.add Word.clamp
  omega

end Climbs

namespace Diag
variable {d d' : Diag}

def Counts (event : TraceEvent) (d d' : Diag) : Prop :=
  ∀ meter, Climbs (event.adds meter) (d.meter meter) (d'.meter meter)

theorem sliceCounts {unit : DeviceId} {time : Time} (d : Diag) (requested consumed : Nat) :
    d.Counts (.sliceEnd unit time consumed) (d.slice requested consumed) := by
  intro meter
  cases meter with
  | cycles | slices => exact .add _ _
  | _ => exact .refl _

theorem Counts.yielded {event : TraceEvent} (counts : d.Counts event d') (yields : Bool) :
    d.Counts event (if yields = true then d'.yielded else d') := by
  cases yields with
  | false => exact counts
  | true =>
    intro meter
    have same : d'.yielded.meter meter = d'.meter meter := by cases meter <;> rfl
    exact same ▸ counts meter

theorem timerCounts {owner : DeviceId} {param : Nat} {time : Time} (d : Diag) :
    d.Counts (.timerFired owner param time) d.timer := by
  intro meter
  cases meter with
  | timers => exact .add _ _
  | _ => exact .refl _

theorem interruptCounts {unit : DeviceId} {line : Nat} {vector : Option Nat} {time : Time}
    (d : Diag) : d.Counts (.interruptAccepted unit line vector time) d.interrupt := by
  intro meter
  cases meter with
  | interrupts => exact .add _ _
  | _ => exact .refl _

theorem trapCounts {unit : DeviceId} {cause : Trap} {time : Time} (d : Diag) :
    d.Counts (.unitTrapped unit cause time) d.trap := by
  intro meter
  cases meter with
  | traps => exact .add _ _
  | _ => exact .refl _

theorem unmappedCounts {unit : Option DeviceId} {kind : Bus.SpaceKind} {address : Nat} (d : Diag)
    (write : Bool) : d.Counts (.unmappedAccess unit kind address write) (d.unmapped write) := by
  intro meter
  cases meter with
  | unmapped other => cases write <;> cases other <;> first | exact .refl _ | exact .add _ _
  | _ => cases write <;> exact .refl _

end Diag

namespace Bus.Space
variable {κ : Type}

theorem countReadClimbs (s : Space κ) (write : Bool) :
    Climbs (if false = write then 1 else 0) (s.unmapped write) (s.countRead.unmapped write) := by
  cases write
  · exact .add _ _
  · exact .refl _

theorem countWriteClimbs (s : Space κ) (write : Bool) :
    Climbs (if true = write then 1 else 0) (s.unmapped write) (s.countWrite.unmapped write) := by
  cases write
  · exact .refl _
  · exact .add _ _

end Bus.Space

inductive Rises : Nat → List Nat → List Nat → Prop where
  | nil : Rises 0 [] []
  | cons {k n x y xs ys} (here : Climbs k x y) (rest : Rises n xs ys) :
      Rises (k + n) (x :: xs) (y :: ys)

namespace Rises
variable {n k : Nat} {xs ys zs : List Nat}

theorem refl (xs : List Nat) : Rises 0 xs xs := by
  induction xs with
  | nil => exact .nil
  | cons x xs ih => exact .cons (.refl x) ih

theorem trans (first : Rises n xs ys) (rest : Rises k ys zs) : Rises (n + k) xs zs := by
  induction first generalizing k zs with
  | nil =>
    cases rest
    exact .nil
  | cons here _ ih =>
    cases rest with
    | cons there rest =>
      rw [Nat.add_add_add_comm]
      exact .cons (here.trans there) (ih rest)

theorem length (h : Rises n xs ys) : ys.length = xs.length := by
  induction h with
  | nil => rfl
  | cons _ _ ih => rw [List.length_cons, List.length_cons, ih]

theorem sum (h : Rises n xs ys) (short : ∀ y ∈ ys, y < Word.largest) : ys.sum = xs.sum + n := by
  induction h with
  | nil => rfl
  | cons here _ ih =>
    have first := here (short _ (List.mem_cons_self ..))
    have rest := ih fun y mem => short y (List.mem_cons_of_mem _ mem)
    rw [List.sum_cons, List.sum_cons, first, rest]
    omega

theorem modify {α : Type} {view : α → Nat} {f : α → α}
    (climbs : ∀ x, Climbs n (view x) (view (f x))) {rows : Array α} {index : Nat}
    (inside : index < rows.size) :
    Rises n (rows.toList.map view) ((rows.modify index f).toList.map view) := by
  rw [Array.toList_modify]
  rw [← Array.length_toList] at inside
  generalize rows.toList = rows at inside ⊢
  induction rows generalizing index with
  | nil => cases inside
  | cons x rows ih =>
    cases index with
    | zero => exact .cons (climbs x) (.refl _)
    | succ index =>
      rw [← Nat.zero_add n]
      exact .cons (.refl _) (ih (Nat.lt_of_succ_lt_succ inside))

end Rises

namespace Machine

def events (m : Machine) : List TraceEvent := m.journal.toList.filterMap (·.event?)

def totals (m : Machine) : List Nat := m.units.toList.map (·.totalCycles)

def misses (m : Machine) (write : Bool) : List Nat := m.spaces.toList.map (·.unmapped write)

structure Unsaturated (m : Machine) : Prop where
  diag : ∀ meter, m.diag.meter meter < Word.largest
  totals : ∀ total ∈ m.totals, total < Word.largest
  misses : ∀ write, ∀ count ∈ m.misses write, count < Word.largest

instance (m : Machine) : Decidable m.Unsaturated :=
  decidable_of_iff ((∀ meter, m.diag.meter meter < Word.largest) ∧
    (∀ total ∈ m.totals, total < Word.largest) ∧
      ∀ write, ∀ count ∈ m.misses write, count < Word.largest)
    ⟨fun h => ⟨h.1, h.2.1, h.2.2⟩, fun h => ⟨h.diag, h.totals, h.misses⟩⟩

def books (m : Machine) :=
  (m.config, m.sink, m.diag, m.totals, m.misses, m.events)

structure Recording (units spaces : Nat) (m : Machine) : Prop where
  tracing : m.config.tracing = true
  sink : m.sink ≠ none
  units : m.totals.length = units
  spaces : ∀ write, (m.misses write).length = spaces

structure Booked (events : List TraceEvent) (a b : Machine) : Prop where
  told : b.events = a.events ++ events
  diag : ∀ meter, Climbs (added events meter) (a.diag.meter meter) (b.diag.meter meter)
  totals : Rises (added events .cycles) a.totals b.totals
  misses : ∀ write, Rises (added events (.unmapped write)) (a.misses write) (b.misses write)

structure Agrees (units spaces : Nat) (a b : Machine) : Prop where
  out : Recording units spaces a → Recording units spaces b ∧ ∃ events, Booked events a b

section
variable {units spaces : Nat} {a b c m m' : Machine}

theorem Recording.unitCount (recording : Recording units spaces m) : m.units.size = units := by
  simpa [totals] using recording.units

theorem Recording.spaceCount (recording : Recording units spaces m) : m.spaces.size = spaces := by
  simpa [misses] using recording.spaces true

theorem eventsEnter (m : Machine) (entry : Activity) :
    (m.enter entry).events = m.events ++ entry.event?.toList := by
  unfold events enter
  rw [Array.toList_push, List.filterMap_append]
  cases own : entry.event? <;> simp [own]

namespace Agrees

theorem still (same : b.books = a.books) : Agrees units spaces a b := by
  simp only [books, Prod.mk.injEq] at same
  obtain ⟨config, sink, diag, totals, misses, events⟩ := same
  refine ⟨fun h => ⟨⟨config ▸ h.tracing, sink ▸ h.sink, totals ▸ h.units, misses ▸ h.spaces⟩, [],
    ?_, fun meter => ?_, ?_, fun write => ?_⟩⟩
  · rw [events, List.append_nil]
  · rw [diag]
    exact .refl _
  · rw [totals]
    exact .refl _
  · rw [misses]
    exact .refl _

theorem refl (m : Machine) : Agrees units spaces m m := still rfl

theorem during (h : Recording units spaces a → Agrees units spaces a b) : Agrees units spaces a b :=
  ⟨fun recording => (h recording).out recording⟩

theorem trans (first : Agrees units spaces a b) (rest : Agrees units spaces b c) :
    Agrees units spaces a c := by
  refine ⟨fun recording => ?_⟩
  obtain ⟨recording, events, one⟩ := first.out recording
  obtain ⟨recording, more, two⟩ := rest.out recording
  refine ⟨recording, events ++ more, ?_, fun meter => ?_, ?_, fun write => ?_⟩
  · rw [two.told, one.told, List.append_assoc]
  · rw [addedAppend]
    exact (one.diag meter).trans (two.diag meter)
  · rw [addedAppend]
    exact one.totals.trans two.totals
  · rw [addedAppend]
    exact (one.misses write).trans (two.misses write)

theorem told {event : TraceEvent} (config : b.config = a.config) (sink : b.sink = a.sink)
    (events : b.events = a.events)
    (diag : a.diag.Counts event b.diag) (totals : Rises (event.adds .cycles) a.totals b.totals)
    (misses : ∀ write, Rises (event.adds (.unmapped write)) (a.misses write) (b.misses write)) :
    Agrees units spaces a (b.trace event) := by
  refine ⟨fun h => ?_⟩
  obtain ⟨name, installed⟩ := Option.ne_none_iff_exists'.mp h.sink
  have entered : b.trace event = b.enter (.traced name event) := by
    simp only [trace, config, h.tracing, sink, installed, if_true]
  rw [entered]
  refine ⟨⟨config ▸ h.tracing, sink ▸ h.sink, totals.length.trans h.units,
    fun write => (misses write).length.trans (h.spaces write)⟩, [event], ?_, ?_, ?_, ?_⟩
  · rw [eventsEnter, events]
    rfl
  · intro meter
    rw [addedSingle]
    exact diag meter
  · rw [addedSingle]
    exact totals
  · intro write
    rw [addedSingle]
    exact misses write

theorem mentioned {event : TraceEvent} (nothing : ∀ meter, event.adds meter = 0) (m : Machine) :
    Agrees units spaces m (m.trace event) := by
  refine told rfl rfl rfl (fun meter => ?_) ?_ fun write => ?_ <;> rw [nothing]
  · exact .refl _
  · exact .refl _
  · exact .refl _

theorem entered {entry : Activity} (own : entry.event? = none) (m : Machine) :
    Agrees units spaces m (m.enter entry) := by
  refine still ?_
  have events : (m.enter entry).events = m.events := by
    rw [eventsEnter, own]
    exact List.append_nil _
  unfold books
  rw [events]
  rfl

theorem modifyUnit (m : Machine) (index : Nat) {f : Processor → Processor}
    (same : ∀ p, (f p).totalCycles = p.totalCycles) :
    Agrees units spaces m (m.modifyUnit index f) := by
  refine still ?_
  have totals : (m.modifyUnit index f).totals = m.totals := by
    have rows := congrArg Array.toList (mapModify same m.units index)
    rw [Array.toList_map, Array.toList_map] at rows
    exact rows
  unfold books
  rw [totals]
  rfl

theorem modifySpace (m : Machine) (id : SpaceId) {f : Bus.Space Port → Bus.Space Port}
    (same : ∀ s, m.space? id = some s → ∀ write, (f s).unmapped write = s.unmapped write) :
    Agrees units spaces m (m.modifySpace id f) := by
  refine still ?_
  have misses : (m.modifySpace id f).misses = m.misses := by
    funext write
    unfold Machine.misses Machine.modifySpace
    rw [← Array.toList_map, ← Array.toList_map]
    refine congrArg Array.toList (Array.ext_getElem? fun i => ?_)
    simp only [Array.getElem?_map, Array.getElem?_modify]
    split
    · rename_i here
      subst here
      cases found : m.spaces[id.index]? with
      | none => rfl
      | some s => exact congrArg some (same s found write)
    · rfl
  unfold books
  rw [misses]
  rfl

theorem missed (m : Machine) {id : SpaceId} {f : Bus.Space Port → Bus.Space Port} {write : Bool}
    (counts : ∀ s other, Climbs (if write = other then 1 else 0) (s.unmapped other)
      ((f s).unmapped other))
    (inside : id.index < spaces) (kind : Bus.SpaceKind) (address : Nat) :
    Agrees units spaces m ((m.modifySpace id f).noteUnmapped kind address write) := by
  refine during fun recording => ?_
  rw [← recording.spaceCount] at inside
  exact told rfl rfl rfl (Diag.unmappedCounts _ write) (.refl _) fun other =>
    .modify (fun s => counts s other) inside

theorem ended {unit : Nat} {p : Processor} (found : m.units[unit]? = some p) (localTime : Time)
    (cycles consumed : Nat) : Agrees units spaces m
      ((((m.modifyUnit unit fun q =>
        { q with
          localTime
          totalCycles := Word.add q.totalCycles consumed
          yieldRequested := false }).count (·.slice cycles consumed)).count fun d =>
            if p.yieldRequested = true then d.yielded else d).trace
        (.sliceEnd p.device localTime consumed)) := by
  have present : unit < m.units.size := (Array.getElem?_eq_some_iff.mp found).1
  exact told rfl rfl rfl ((Diag.sliceCounts _ cycles consumed).yielded _)
    (.modify (fun q => .add q.totalCycles consumed) present) fun _ => .refl _

theorem settle (m : Machine) (unit cycles consumed : Nat) (trap : Option Trap) (start : Time) :
    Agrees units spaces m (m.settle unit cycles consumed trap start) := by
  have counted : ∀ (yielded : Bool) (x : Machine),
      (if yielded = true then x.count (·.yielded) else x) =
        x.count fun d => if yielded = true then d.yielded else d := by
    intro yielded x
    cases yielded <;> rfl
  unfold Machine.settle
  cases found : m.units[unit]? with
  | none => exact refl m
  | some p =>
    dsimp only
    rw [counted]
    generalize start + p.period.scale (if consumed = 0 then cycles else consumed) = localTime
    refine trans (ended found localTime cycles consumed) ?_
    generalize Machine.trace _ _ = m₁
    cases trap with
    | none => exact refl m₁
    | some cause =>
      dsimp only
      split
      · exact refl m₁
      · have marked : Agrees units spaces m₁ (m₁.modifyUnit unit fun q =>
            { q with suspension := q.suspension.union { trapped := true } }) :=
          modifyUnit m₁ unit fun _ => rfl
        exact trans marked (told rfl rfl rfl (Diag.trapCounts _) (.refl _) fun _ => .refl _)

theorem noteInterrupt (m : Machine) {unit : Nat} (inside : unit < units) (line : Nat)
    (vector : Option Nat) : Agrees units spaces m (m.noteInterrupt unit line vector) := by
  refine during fun recording => ?_
  rw [← recording.unitCount] at inside
  have found : (m.count (·.interrupt)).units[unit]? = some m.units[unit] :=
    Array.getElem?_eq_getElem inside
  unfold Machine.noteInterrupt
  simp only [found]
  exact told rfl rfl rfl (Diag.interruptCounts _) (.refl _) fun _ => .refl _

theorem restarts : Restarts (Agrees units spaces) where
  refl := refl
  trans := trans
  unit index _ same := modifyUnit _ index same
  control control := mentioned (TraceEvent.controlAdds control) _
  enter own := entered own _
  place _ _ := still rfl

theorem contact (h : Contact (·.index < spaces) a b) : Agrees units spaces a b := by
  cases h with
  | drive => exact modifySpace a _ fun _ _ _ => rfl
  | store => exact still rfl
  | missRead inside kind address => exact missed a (·.countReadClimbs) inside kind address
  | missWrite inside kind address => exact missed a (·.countWriteClimbs) inside kind address

theorem stroke {unit : Nat} (inside : unit < units) (h : Stroke unit a b) :
    Agrees units spaces a b := by
  cases h with
  | enter own => exact entered own a
  | publish | accept => exact modifyUnit a unit fun _ => rfl
  | interrupt line vector => exact noteInterrupt a inside line vector
  | charge => exact still rfl

theorem freeze (m : Machine) : Agrees units spaces m { m with spaces := m.spaces.map (·.freeze) } := by
  refine still ?_
  have misses : ({ m with spaces := m.spaces.map (·.freeze) } : Machine).misses = m.misses := by
    funext write
    simp only [Machine.misses, Array.toList_map, List.map_map]
    rfl
  unfold books
  rw [misses]
  rfl

theorem chore (h : Chore a b) : Agrees units spaces a b := by
  cases h with
  | place | grant | close => exact still rfl
  | ready unit | disable unit => exact modifyUnit a unit fun _ => rfl
  | opened => exact mentioned (fun meter => by cases meter <;> rfl) a
  | settle unit cycles consumed trap start => exact settle a unit cycles consumed trap start
  | fired => exact told rfl rfl rfl (Diag.timerCounts _) (.refl _) fun _ => .refl _
  | restart now index => exact restarts.restart now a index
  | freeze => exact freeze a

theorem handles : Handles (Agrees units spaces) where
  refl := refl
  trans := trans
  chore := chore
  lent {a b id _} _ inner :=
    trans (still (b := a.setBusy id true) rfl) (trans inner (still (b := b.setBusy id false) rfl))

theorem cut (m : Machine) (timers : Timer.Queue) (time : Time) :
    Agrees units spaces m ({ m with timers }.cutBefore time) :=
  trans (still (b := { m with timers }) rfl) (restarts.cut ..)

theorem adjusted (m : Machine) (id : Timer.Id) (delay period : Time) :
    Agrees units spaces m (m.adjustTimer id delay period).1 := by
  unfold adjustTimer
  dsimp only
  split
  · exact cut ..
  · exact refl m

theorem deed {command : Command} (allowed : silent a command = true) (deed : Deed command a b) :
    Agrees units spaces a b := by
  cases deed with
  | emit => cases allowed
  | note entry => exact entered (Option.isNone_iff_eq_none.mp allowed) a
  | map _ _ ok =>
    obtain rfl | ⟨s, entries, found, rfl⟩ := mapInv ok
    · exact refl _
    · refine modifySpace a _ fun t here write => ?_
      cases found.symm.trans here
      rfl
  | freeze => exact modifySpace a _ fun _ _ _ => rfl
  | schedule owner delay period param =>
    exact trans (b := (a.schedule owner delay period param).1) (cut ..) (still rfl)
  | scheduleCycles owner cycles param =>
    exact trans (b := (a.scheduleCycles owner cycles param).1) (cut ..) (still rfl)
  | adjustTimer delay period => exact adjusted a _ delay period
  | driveLine ok => exact restarts.driveLine ok
  | requestYield => exact restarts.yield a
  | suspend ok => exact restarts.suspend ok
  | resume ok => exact restarts.resume ok
  | spin ok => exact restarts.spin ok
  | driveReset ok => exact restarts.driveReset ok
  | boostInterleave quantum duration =>
    have boosted : Agrees units spaces a { a with boost := some ⟨quantum, a.now + duration⟩ } :=
      still rfl
    exact trans boosted (restarts.yield _)
  | setRegister ok =>
    obtain ⟨d, d', -, -, rfl⟩ := setRegisterInv ok
    exact still rfl
  | _ => exact still rfl

section
variable {α : Type}

theorem serves : Serves (·.index < spaces) fun _ x _ m => Run.Keeps (Agrees units spaces) x m where
  pure a := Run.keepsPure refl a
  bind first rest := Run.keepsBind (R := Agrees units spaces) trans first fun a m _ => rest a m
  get h := h
  known {_ m id _ _ _} found inner a m' ran := by
    refine during fun recording => inner ?_ a m' ran
    rw [← recording.spaceCount]
    exact (Array.getElem?_eq_some_iff.mp found).1
  contact h := Run.keepsModify (contact h)

theorem works {unit : Nat} (inside : unit < units) :
    Works (·.index < spaces) unit fun _ x _ m => Run.Keeps (Agrees units spaces) x m where
  toServes := serves
  stroke h := Run.keepsModify (stroke inside h)

theorem minds : Minds silent (·.index < spaces) fun _ x _ m =>
    Run.Keeps (Agrees units spaces) x m where
  toServes := serves
  fails := fun _ _ h => by cases h
  plain {command call m} plain reply m' ran := by
    obtain ⟨allowed, ran⟩ := obeyingInv ran
    exact deed allowed (plainDeed plain m reply m' ran)
  barred _ h reply m' ran := h reply m' (obeyingInv ran).2
  lend idle inner rest := (handles.lend idle (fun m => Run.followsSame (inner m))
    fun a m => Run.followsSame (rest a m)).keeps

theorem invoked (depth : Nat) (s : Script) (m : Machine) :
    Run.Follows (Agrees units spaces) (invokeUnder silent depth s) (invokeUnder silent depth s) m :=
  Run.followsSame (minds.invoke depth s m)

theorem runSlice (depth : Nat) {unit : Nat} {p : Processor} (target : Time)
    (found : m.units[unit]? = some p) : Run.Follows (Agrees units spaces)
      (runSlice (invokeUnder silent depth) unit target)
      (Machine.runSlice (invokeUnder silent depth) unit target) m := by
  refine Run.followsSame fun u m' ran => during fun recording => ?_
  have inside : unit < units := by
    rw [← recording.unitCount]
    exact (Array.getElem?_eq_some_iff.mp found).1
  have device : ∀ cycles id d m,
      Run.Keeps (Agrees units spaces) (runDevice (invokeUnder silent depth) unit cycles id d) m :=
    @Works.runDevice _ _ _ (works inside) _ (invoke depth) (minds.invoke depth)
  exact (handles.runSlice (fun cycles id d m => Run.followsSame (device cycles id d m)) target m u
    m' ran).2

end

end Agrees

end

inductive Errand (call : Callback) : Machine → Machine → Prop where
  | script {m m' reply} (s : Script) (ran : call s m = some (reply, m')) : Errand call m m'
  | reset {m m'} (ran : reset call m = some ((), m')) : Errand call m m'
  | run {m m'} (target : Time) (fuel : Nat) (ran : runUntil call target fuel m = some ((), m')) :
      Errand call m m'

def Errands (call : Callback) : Machine → Machine → Prop := Relation.ReflTransGen (Errand call)

section
variable {depth : Nat} {a b m m' : Machine}

theorem errandAgrees {units spaces : Nat} (errand : Errand (invokeUnder silent depth) a b) :
    Errand (invoke depth) a b ∧ Agrees units spaces a b := by
  have calls := invokeSteps silent depth
  have agree : ∀ s m, Run.Follows (Agrees units spaces) (invokeUnder silent depth s)
      (invokeUnder silent depth s) m := Agrees.invoked depth
  cases errand with
  | script s ran => exact ⟨.script s (calls s a _ b ran).1, (agree s a _ b ran).2⟩
  | reset ran =>
    exact ⟨.reset ((stepsCarries silent).reset calls a () b ran).1,
      (Agrees.handles.reset agree a () b ran).2⟩
  | run target fuel ran =>
    refine ⟨.run target fuel ((stepsCarries silent).runUntil calls (fun due => .single (.pop due))
      (fun none => .single (.wait none)) target fuel a () b ran).1, ?_⟩
    exact (Agrees.handles.runUntil agree (fun found => Agrees.runSlice depth target found)
      (fun _ => .still rfl) (fun _ => .still rfl) fuel a () b ran).2

theorem errandsAgree {units spaces : Nat} (errands : Errands (invokeUnder silent depth) a b) :
    Errands (invoke depth) a b ∧ Agrees units spaces a b := by
  induction errands with
  | refl => exact ⟨.refl, .refl a⟩
  | tail _ last ih =>
    obtain ⟨errand, agrees⟩ := errandAgrees last
    exact ⟨ih.1.tail errand, ih.2.trans agrees⟩

/-- From when a sink is installed, what the machine counts, what its processors and its spaces
count between them and what the sink hears is all the same. -/
theorem countersAgree {name : String} (tracing : m.config.tracing = true)
    (errands : Errands (invokeUnder silent depth) (m.setSink (some name)).1 m')
    (short : m'.Unsaturated) :
    Errands (invoke depth) (m.setSink (some name)).1 m' ∧
    ∃ events, m'.events = m.events ++ events ∧
      (∀ meter, m'.diag.meter meter = m.diag.meter meter + added events meter) ∧
      m'.totals.sum = m.totals.sum + added events .cycles ∧
      ∀ write, (m'.misses write).sum = (m.misses write).sum + added events (.unmapped write) := by
  have recording : Recording m.units.size m.spaces.size (m.setSink (some name)).1 :=
    ⟨tracing, Option.some_ne_none name, by simp [totals, setSink],
      fun _ => by simp [misses, setSink]⟩
  obtain ⟨plain, agrees⟩ := errandsAgree errands
  obtain ⟨-, events, booked⟩ := agrees.out recording
  exact ⟨plain, events, booked.told, fun meter => booked.diag meter (short.diag meter),
    booked.totals.sum short.totals, fun write => (booked.misses write).sum (short.misses write)⟩

end

def toll : Assembly :=
  ((Assembly.new { quantum := .ofMicros 10, tracing := true } .builtin).extend "timer" ⟨0⟩
    (.peripheral
      { name := "timer"
        start := fun id => .perform (.schedule id (.ofMicros 3) (.ofMicros 40) 0)
        timer := fun _ _ => .step (.write (.owned ⟨1⟩ .program) 0x10 .word 7) fun _ =>
          .perform (.resume ⟨1⟩ { trapped := true }) })).extend
    "cpu" (.ofMhz 1) (.acc8 (.new "cpu" { resetPc := some 0x200, illegalFatal := true }))

theorem tollAssembled : Assembled toll := ((Assembled.new _ _).extend _ _ _).extend _ _ _

def knock : Script :=
  .step (.setRegister ⟨1⟩ Acc8.flagsId 4) fun _ =>
    .perform (.driveLine ⟨1⟩ Acc8.irqLine .assert none)

def tollCounts : Bool :=
  match toll.build (invoke 3) with
  | some (none, origin) =>
      match invokeUnder silent 2 knock (origin.setSink (some "log")).1 with
      | some (_, m) =>
          match runUntil (invokeUnder silent 2) (.ofMicros 8) 20 m with
          | some (_, m') => origin.config.tracing && decide origin.OnlyAcc8 &&
              decide m'.Unsaturated && decide (∀ meter, origin.diag.meter meter < m'.diag.meter meter)
          | none => false
      | none => false
  | _ => false

theorem tollAgrees : ∃ origin m', Built (invoke 3) origin ∧ origin.OnlyAcc8 ∧
    origin.config.tracing = true ∧
    Errands (invokeUnder silent 2) (origin.setSink (some "log")).1 m' ∧ m'.Unsaturated ∧
    Errands (invoke 2) (origin.setSink (some "log")).1 m' ∧
    ∃ events, m'.events = origin.events ++ events ∧ (∀ meter, 0 < added events meter) ∧
      (∀ meter, m'.diag.meter meter = origin.diag.meter meter + added events meter) ∧
      m'.totals.sum = origin.totals.sum + added events .cycles ∧
      ∀ write, (m'.misses write).sum =
        (origin.misses write).sum + added events (.unmapped write) := by
  have counts : tollCounts = true := by decide +kernel
  unfold tollCounts at counts
  split at counts
  · rename_i origin started
    split at counts
    · rename_i reply m knocked
      split at counts
      · rename_i u m' ran
        simp only [Bool.and_eq_true, decide_eq_true_eq] at counts
        obtain ⟨⟨⟨tracing, only⟩, short⟩, moved⟩ := counts
        have errands : Errands (invokeUnder silent 2) (origin.setSink (some "log")).1 m' :=
          (Relation.ReflTransGen.single (.script knock knocked)).tail (.run (.ofMicros 8) 20 ran)
        obtain ⟨plain, events, told, counted, worked, missed⟩ :=
          countersAgree tracing errands short
        refine ⟨origin, m', ⟨toll, tollAssembled, started⟩, only, tracing, errands, short, plain,
          events, told, fun meter => ?_, counted, worked, missed⟩
        have := moved meter
        have := counted meter
        omega
      · cases counts
    · cases counts
  · cases counts

end Machine

end Lockstep
