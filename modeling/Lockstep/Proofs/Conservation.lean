import Lockstep.Proofs.Completion
import Lockstep.Proofs.Entry
import Lockstep.Proofs.Ledger
import Lockstep.Proofs.Ways

/-! No simulated time is lost or gained by slicing. The local time of an acc8 that enters at a
fixed point and is never suspended is its work in cycles, at its clock: however its slices are
cut short, overrun, yield or idle, each is booked for what its work costs, and nothing else
moves the local time. -/
namespace Lockstep

theorem Time.scaleAdd (t : Time) (n k : Nat) : t.scale n + t.scale k = t.scale (n + k) := by
  apply Time.ext
  simp only [Time.attos_add, Time.attos_scale, Nat.mul_add]
  omega

theorem Word.addClamp (n k : Nat) : Word.add (Word.clamp n) k = Word.clamp (n + k) := by
  unfold Word.add Word.clamp
  omega

namespace Processor

def Idles (p p' : Processor) : Prop :=
  p'.device = p.device ∧ p'.clock = p.clock ∧ p'.localTime = p.localTime ∧
    p'.totalCycles = p.totalCycles ∧ p'.isLive = true

theorem Idles.trans {p q r : Processor} (first : Idles p q) (rest : Idles q r) : Idles p r := by
  obtain ⟨device, clock, time, cycles, -⟩ := first
  obtain ⟨device', clock', time', cycles', live⟩ := rest
  exact ⟨device'.trans device, clock'.trans clock, time'.trans time, cycles'.trans cycles, live⟩

end Processor

namespace Machine

def awake (m : Machine) (index : Nat) : Bool := (m.units[index]?).any (·.isLive)

def wakeful (index : Nat) : Rule := fun m command =>
  !command.isPlain || (command.run (fun _ _ => none) m).all fun row => row.2.awake index

structure Spares (index : Nat) (a b : Machine) : Prop where
  row : ∀ {p : Processor}, a.units[index]? = some p → p.isLive = true →
    ∃ p', b.units[index]? = some p' ∧ p.Idles p'

section
variable {index : Nat} {a b c m m' : Machine}

namespace Spares

theorem same (units : b.units = a.units) : Spares index a b := ⟨fun {p} found live =>
  ⟨p, units ▸ found, rfl, rfl, rfl, rfl, live⟩⟩

theorem refl (m : Machine) : Spares index m m := same rfl

theorem trans (first : Spares index a b) (rest : Spares index b c) : Spares index a c := by
  refine ⟨fun {p} found live => ?_⟩
  obtain ⟨q, found, idles⟩ := first.row found live
  obtain ⟨r, found, idles'⟩ := rest.row found idles.2.2.2.2
  exact ⟨r, found, idles.trans idles'⟩

theorem other {i : Nat} (away : i ≠ index) {f : Processor → Processor}
    (units : b.units = (a.modifyUnit i f).units) : Spares index a b := by
  refine ⟨fun {p} found live => ⟨p, ?_, rfl, rfl, rfl, rfl, live⟩⟩
  rw [units]
  simp only [modifyUnit, Array.getElem?_modify, if_neg away, found]

theorem unit {i : Nat} {f : Processor → Processor} (units : b.units = (a.modifyUnit i f).units)
    (idles : ∀ p : Processor, p.isLive = true → p.Idles (f p)) : Spares index a b := by
  by_cases here : i = index
  · subst here
    refine ⟨fun {p} found live => ⟨f p, ?_, idles p live⟩⟩
    rw [units]
    exact unitModified found f
  · exact other here units

end Spares

theorem deedSpares {command : Command} (deed : Deed command a b) (after : b.awake index = true) :
    Spares index a b := by
  refine ⟨fun {p} found live => ?_⟩
  obtain ⟨p', found', move⟩ := (deedMoved (show free a command = true from rfl) deed).each found
  have empty := Suspension.emptyIff.mp live
  have live' : p'.isLive = true := by
    unfold awake at after
    rwa [found'] at after
  refine ⟨p', found', ?_⟩
  cases move with
  | same | yields | drive | suspend | spin => exact ⟨rfl, rfl, rfl, rfl, live'⟩
  | wake ok active spins =>
    rw [empty] at spins
    cases spins
  | release ok held =>
    rw [empty] at held
    cases held
  | @resume reasons ok =>
    -- nothing is removed from a processor that has no reasons
    have unmoved : b.units[index]? = some p := by
      obtain ⟨i, q, unit, ⟨-, rfl⟩ | ⟨meets, units⟩⟩ := resumeUnits ok
      · exact found
      · by_cases here : i = index
        · subst here
          rw [(unitInv unit).2] at found
          cases found
          simp [empty, Suspension.intersects, Suspension.inter, Suspension.zip,
            Suspension.isEmpty] at meets
        · rw [units]
          simp only [modifyUnit, Array.getElem?_modify, if_neg here, found]
    rw [unmoved] at found'
    rw [← Option.some.inj found']
    exact ⟨rfl, rfl, rfl, rfl, live⟩

theorem touchSpares (h : Touch a b) : Spares index a b := by
  cases h with
  | unmapped kind address write => exact .same (traceUnits ..)
  | drive | countRead | countWrite | store => exact .same rfl

theorem pulseSpares (h : Pulse a b) : Spares index a b := by
  cases h with
  | enter | count | charge => exact .same rfl
  | publish => exact .unit rfl fun p live => ⟨rfl, rfl, rfl, rfl, live⟩
  | accept => exact .unit rfl fun p live => ⟨rfl, rfl, rfl, rfl, live⟩

theorem sparesPlays (index : Nat) : Plays fun _ => Run.Follows (Spares index) :=
  playsFollows .refl .trans touchSpares pulseSpares

theorem sparesObeys (index : Nat) : Obeys (wakeful index) fun _ => Run.Follows (Spares index) where
  toBears := (sparesPlays index).toBears
  fails _ _ h := by cases h
  plain {command call m} plain reply m' ran := by
    obtain ⟨allowed, ran⟩ := obeyingInv ran
    refine ⟨ran, deedSpares (plainDeed plain m reply m' ran) ?_⟩
    rw [plainSame plain call fun _ _ => none] at ran
    simpa [wakeful, plain, ran] using allowed
  barred _ h reply m' ran := h reply m' (obeyingInv ran).2
  lend {_ _ m id d x y f g} _ inner rest := by
    refine Run.followsBind .trans (Run.followsSame (Run.keepsModify (.same rfl))) fun _ m => ?_
    refine Run.followsBind .trans (inner m) fun a m => ?_
    exact Run.followsBind .trans (Run.followsSame (Run.keepsModify (.same rfl))) fun _ m => rest a m

theorem grantSpares {depth unit cycles : Nat} {id : DeviceId} :
    Run.Keeps (Spares index) (grant (invokeUnder (wakeful index) depth) unit cycles id) m := by
  have calls := (sparesObeys index).invoke depth
  intro outcome m' ran
  rcases grantInv ran with ⟨-, rfl⟩ | ⟨device, out, m₁, -, runs, placed⟩
  · exact .refl _
  have inner := ((sparesPlays index).runDevice calls unit cycles id device _ out m₁ runs).2
  have taken : Spares index m (m.setBusy id true) := .same rfl
  have freed : Spares index m₁ (m₁.setBusy id false) := .same rfl
  have back := (taken.trans inner).trans freed
  rcases placed with ⟨-, -, rfl⟩ | ⟨device', count, -, -, rfl⟩
  · exact back
  · exact back.trans (.same rfl)

theorem sliceSpares {depth : Nat} {g : Grant} {u : Unit} (away : g.unit ≠ index)
    (ran : runSlice (invokeUnder (wakeful index) depth) g.unit g.target g.machine =
      some (u, m')) : Spares index g.machine m' := by
  obtain ⟨outcome, m₁, granted, rfl⟩ := sliceInv ran
  have opened : Spares index g.machine g.opened := .other away (traceUnits ..)
  have runs := opened.trans (grantSpares outcome m₁ granted)
  have closed : Spares index g.machine { m₁ with frame := none } := runs.trans (.same rfl)
  cases outcome with
  | none => exact closed.trans (.other away rfl)
  | some row => exact closed.trans (.other away (settleUnits ..))

structure Tallied (origin : Processor) (index n : Nat) (m : Machine) : Prop where
  idle : m.frame = none
  sound : m.timers.Sound
  direct : Direct origin.device m
  row : ∃ p, m.units[index]? = some p ∧ p.device = origin.device ∧ p.clock = origin.clock ∧
    p.localTime = origin.period.scale n ∧ p.totalCycles = Word.clamp n
  behind : m.timers.now ≤ origin.period.scale n

variable {origin : Processor} {n depth : Nat}

theorem talliedKept (t : Tallied origin index n m) (kept : Kept m m')
    (direct : StaysDirect origin.device m m') : Tallied origin index n m' := by
  refine ⟨kept.frame.trans t.idle, kept.sound t.sound, direct t.direct, ?_, ?_⟩
  · obtain ⟨p, found, device, clock, time, cycles⟩ := t.row
    obtain ⟨q, row, same⟩ := kept.each found
    refine ⟨q, row, same.device.trans device, same.clock.trans clock, ?_, same.cycles.trans cycles⟩
    have forward := same.forward
    have within := same.within
    have behind := t.behind
    rw [idleNow t.idle] at within
    rw [time] at forward within
    apply Time.ext
    rw [Time.le_def] at forward behind
    omega
  · rw [kept.clock]
    exact t.behind

theorem talliedEffect (t : Tallied origin index n m) (acts : Effect m m') :
    Tallied origin index n m' :=
  talliedKept t (effectKept acts) (effectDirect acts)

theorem talliedTimers (t : Tallied origin index n m) {timers : Timer.Queue} (sound : timers.Sound)
    (behind : timers.now ≤ origin.period.scale n) : Tallied origin index n { m with timers } :=
  ⟨t.idle, sound, directTree rfl t.direct, t.row, behind⟩

theorem awakeInv (live : m.awake index = true) :
    ∃ p, m.units[index]? = some p ∧ p.isLive = true := by
  unfold awake at live
  cases found : m.units[index]? with
  | none =>
    rw [found] at live
    cases live
  | some p =>
    rw [found] at live
    exact ⟨p, rfl, live⟩

theorem talliedOther {g : Grant} {u : Unit} (t : Tallied origin index n g.machine)
    (away : g.unit ≠ index) (live : g.machine.awake index = true)
    (ran : runSlice (invoke depth) g.unit g.target g.machine = some (u, m'))
    (spared : runSlice (invokeUnder (wakeful index) depth) g.unit g.target g.machine = some (u, m')) :
    Tallied origin index n m' := by
  have acts := invokeActs depth
  obtain ⟨p, found, device, clock, time, cycles⟩ := t.row
  obtain ⟨q, row, live⟩ := awakeInv live
  rw [found] at row
  cases row
  obtain ⟨q, row, device', clock', time', cycles', -⟩ := (sliceSpares away spared).row found live
  refine ⟨sliceIdle ran t.idle, sliceSound acts t.sound ran, sliceDirect acts u m' ran t.direct,
    ⟨q, row, device'.trans device, clock'.trans clock, time'.trans time, cycles'.trans cycles⟩, ?_⟩
  rw [(slicePaused acts ran).2]
  exact t.behind

theorem talliedOwn {g : Grant} {u : Unit} (t : Tallied origin g.unit n g.machine)
    (short : g.cycles ≤ budgetLimit)
    (ran : runSlice (invoke depth) g.unit g.target g.machine = some (u, m'))
    (live : m'.awake g.unit = true) :
    Tallied origin g.unit (n + cost (g.ledger (invoke depth))) m' := by
  have acts := invokeActs depth
  obtain ⟨p, found, device, clock, time, cycles⟩ := t.row
  have same : p = g.processor := by
    rw [g.found] at found
    exact (Option.some.inj found).symm
  subst same
  obtain ⟨cpu, own, direct⟩ := t.direct
  rw [← device] at own
  obtain ⟨p', after, live⟩ := awakeInv live
  have acc8 : g.machine.classOf? g.processor.device ≠ some .sequencer := by
    rw [classCpu.mpr ⟨cpu, own⟩]
    exact nofun
  rcases g.seatedOr (invoke depth) acc8 with ⟨cpu', w, seated⟩ | ⟨-, rests⟩
  swap
  · exact absurd live (ne_true_of_eq_false (rests u m' p' ran after))
  cases idleCpu seated.idle own
  obtain ⟨cpu', m, shut, within, low, paid, works⟩ := g.seatedDone acts seated ran
  have positive := works direct.fetched
  have consumed : m.consumed = cost (g.ledger (invoke depth)) := by
    unfold Machine.consumed consumedIn
    rw [within.frame, Option.elim_some]
    unfold Grant.frame Word.clamp Word.largest
    unfold budgetLimit at *
    dsimp only
    omega
  obtain ⟨q, row, kept⟩ := within.each g.found
  have booked : (g.shut cpu' m).units[g.unit]? = some _ := g.shutOwn row
  rw [← shut, consumed, if_neg (by omega)] at booked
  have period : q.period = origin.period := by
    rw [Processor.period, Processor.period, kept.clock, clock]
  refine ⟨sliceIdle ran t.idle, sliceSound acts t.sound ran, sliceDirect acts u m' ran t.direct,
    ⟨_, booked, kept.device.trans device, kept.clock.trans clock, ?_, ?_⟩, ?_⟩
  · change g.start + q.period.scale _ = _
    rw [period, Grant.start, time]
    exact Time.scaleAdd ..
  · change Word.add q.totalCycles _ = _
    rw [kept.cycles, cycles]
    exact Word.addClamp ..
  · rw [(slicePaused acts ran).2]
    exact Nat.le_trans t.behind (Time.scaleMono _ (Nat.le_add_right ..))

end

end Machine

namespace Event
open Machine

/-- The processor is awake, and no command in a slice of another one suspends it. -/
def Steady (depth index : Nat) (e : Event) : Prop :=
  e.machine.awake index = true ∧
    match e with
    | .slice g _ => g.unit = index ∨ ∀ m',
        runSlice (invoke depth) g.unit g.target g.machine = some ((), m') →
          runSlice (invokeUnder (wakeful index) depth) g.unit g.target g.machine = some ((), m')
    | _ => True

def work (call : Callback) (index : Nat) : Event → Nat
  | .slice g _ => if g.unit = index then cost (g.ledger call) else 0
  | _ => 0

end Event

namespace Machine

def workDone (call : Callback) (index : Nat) (events : List Event) : Nat :=
  (events.map (·.work call index)).sum

def Traced (call : Callback) (origin : Processor) (index : Nat) :
    Nat → List Event → Option Machine → Prop
  | n, [], r => ∀ m, r = some m → Tallied origin index n m
  | n, e :: rest, r =>
      Tallied origin index n e.machine ∧ Traced call origin index (n + e.work call index) rest r

namespace Traced
variable {call : Callback} {origin : Processor} {index n : Nat} {events rest : List Event}
  {r r' : Option Machine} {m : Machine}

theorem stuck : Traced call origin index n [] none := fun _ none => by cases none

theorem stop (t : Tallied origin index n m) : Traced call origin index n [] (some m) :=
  fun _ same => by cases same; exact t

theorem append (first : Traced call origin index n events r)
    (more : Traced call origin index (n + workDone call index events) rest r') :
    Traced call origin index n (events ++ rest) r' := by
  induction events generalizing n with
  | nil => exact more
  | cons e events ih =>
    refine ⟨first.1, ih first.2 ?_⟩
    rwa [workDone, List.map_cons, List.sum_cons, ← Nat.add_assoc] at more

theorem ends (h : Traced call origin index n events (some m)) :
    Tallied origin index (n + workDone call index events) m := by
  induction events generalizing n with
  | nil => exact h m rfl
  | cons e events ih =>
    rw [workDone, List.map_cons, List.sum_cons, ← Nat.add_assoc]
    exact ih h.2

theorem each {e : Event} {before after : List Event}
    (h : Traced call origin index n (before ++ e :: after) r) :
    Tallied origin index (n + workDone call index before) e.machine := by
  induction before generalizing n with
  | nil => exact h.1
  | cons x before ih =>
    rw [workDone, List.map_cons, List.sum_cons, ← Nat.add_assoc]
    exact ih h.2

end Traced

section
variable {origin : Processor} {depth index n : Nat} {m m' : Machine}

theorem talliedGrant {g : Grant} {starts : List Start} {u : Unit} (t : Tallied origin index n g.machine)
    (steady : (Event.slice g starts).Steady depth index) (short : (Event.slice g starts).Short index)
    (ran : watchGranted (invoke depth) g g.machine = (starts, some (u, m')))
    (after : m'.awake index = true) :
    Tallied origin index (n + workDone (invoke depth) index [.slice g starts]) m' := by
  obtain ⟨live, spared⟩ := steady
  have ran : runSlice (invoke depth) g.unit g.target g.machine = some (u, m') :=
    (grantedSlice (invoke depth) g).symm.trans (congrArg Prod.snd ran)
  change Tallied origin index
    (n + ((if g.unit = index then cost (g.ledger (invoke depth)) else 0) + 0)) m'
  rw [Nat.add_zero]
  by_cases own : g.unit = index
  · subst own
    rw [if_pos rfl]
    exact talliedOwn t (short rfl) ran after
  · rw [if_neg own]
    exact talliedOther t own live ran ((spared.resolve_left own) m' ran)

theorem talliedTurn (target : Time) (t : Tallied origin index n m) (live : m.awake index = true) :
    (∀ {fired timers}, m.timers.popDue (m.horizon target) = some (fired, timers) →
      Tallied origin index n { m with timers }) ∧
    (m.timers.popDue (m.horizon target) = none →
      Tallied origin index n { m with timers := m.timers.setNow (m.horizon target) }) := by
  have reaches : m.horizon target ≤ origin.period.scale n := by
    obtain ⟨p, found, live⟩ := awakeInv live
    obtain ⟨q, row, -, -, time, -⟩ := t.row
    rw [found] at row
    cases row
    exact time ▸ horizonLive target found live
  refine ⟨fun {fired timers} due => ?_, fun quiet => ?_⟩
  · obtain ⟨sound, now, -, due, -⟩ := Timer.Queue.popInv t.sound due
    exact talliedTimers t sound (now ▸ Nat.le_trans due reaches)
  · have armed := Timer.Queue.popNone t.sound.toFiled quiet
    refine talliedTimers t (Timer.Queue.soundSetNow t.sound armed) ?_
    have behind := t.behind
    rw [Timer.Queue.nowSetNow, Time.le_def, Time.attos_max]
    rw [Time.le_def] at behind reaches
    omega

theorem watchedTraced {target : Time} {events : List Event} {r : Option (Unit × Machine)}
    (watched : Watched (invoke depth) target m events r)
    (t : m.awake index = true → Tallied origin index n m)
    (steady : ∀ e ∈ events, e.Steady depth index ∧ e.Short index) :
    Traced (invoke depth) origin index n events (r.map Prod.snd) := by
  induction watched generalizing n with
  | stuck => exact .stuck
  | lost due _ =>
    obtain ⟨⟨⟨live, -⟩, -⟩, -⟩ := List.forall_mem_cons.mp steady
    exact ⟨t live, (talliedTurn target (t live) live).1 due, .stuck⟩
  | fires due ran _ ih =>
    obtain ⟨⟨⟨live, -⟩, -⟩, steady⟩ := List.forall_mem_cons.mp steady
    have t₁ := (talliedTurn target (t live) live).1 due
    have t₂ := talliedEffect t₁ (dispatchActs (invokeActs depth) _ _ _ _ ran)
    exact ⟨t live, t₁, ih (fun _ => t₂) (List.forall_mem_cons.mp steady).2⟩
  | rests quiet level =>
    obtain ⟨⟨⟨live, -⟩, -⟩, -⟩ := List.forall_mem_cons.mp steady
    have t₁ := (talliedTurn target (t live) live).2
    rw [horizonLevel level] at t₁
    exact ⟨t live, t₁ quiet, .stop (t₁ quiet)⟩
  | breaks next ran =>
    obtain ⟨⟨⟨live, -⟩, -⟩, -⟩ := List.forall_mem_cons.mp steady
    have t₁ := (talliedTurn target (t live) live).2
    rw [next.horizon] at t₁
    exact ⟨t live, t₁ next.quiet, .stuck⟩
  | slices next ran _ ih =>
    obtain ⟨⟨⟨live, -⟩, -⟩, steady⟩ := List.forall_mem_cons.mp steady
    obtain ⟨⟨own, short⟩, steady⟩ := List.forall_mem_cons.mp steady
    have t₁ := (talliedTurn target (t live) live).2
    rw [next.horizon] at t₁
    have t₂ := talliedGrant (g := next.grant) (t₁ next.quiet) own short ran
    exact ⟨t live, t₁ next.quiet, ih t₂ steady⟩

theorem historyTraced {machine : Machine} {events : List Event} {r : Option Machine}
    (t : Tallied origin index 0 machine) (h : History (invoke depth) machine events r)
    (steady : ∀ e ∈ events, e.Steady depth index ∧ e.Short index) :
    Traced (invoke depth) origin index 0 events r := by
  have acts := invokeActs depth
  induction h with
  | start => exact ⟨t, .stop t⟩
  | effect _ acts ih =>
    have so := ih fun e mem => steady e (List.mem_append_left _ mem)
    have t := talliedEffect so.ends acts
    exact so.append ⟨t, .stop t⟩
  | reset _ done ih =>
    have so := ih fun e mem => steady e (List.mem_append_left _ mem)
    have t := talliedKept so.ends (resetKept acts done) (resetDirect acts done)
    exact so.append ⟨t, .stop t⟩
  | run target fuel _ ih =>
    have so := ih fun e mem => steady e (List.mem_append_left _ mem)
    have ran := watchedTraced (untilWatched (invoke depth) target fuel _) fun _ => so.ends
    exact so.append (ran fun e mem => steady e (List.mem_append_right _ mem))

def Unworked (m : Machine) : Prop :=
  ∀ (i : Nat) (p : Processor), m.units[i]? = some p → p.totalCycles = 0

theorem unworkedKept (unworked : Unworked m) (kept : Kept m m') : Unworked m' := by
  intro i p found
  obtain ⟨q, row, same⟩ := kept.back found
  exact same.cycles.trans (unworked i q row)

theorem instanceUnworked {a b : Assembly} {tag typeName : String} {clock : ClockRate}
    {parent : Option DeviceId} {device : Device} {id : DeviceId} (unworked : Unworked a.machine)
    (added : a.addInstance tag typeName clock parent device = .ok (b, id)) :
    Unworked b.machine := by
  intro i p found
  rcases unitAdded added found with found | rfl
  · exact unworked i p found
  · rfl

theorem assembledUnworked {a : Assembly} (h : Assembled a) : Unworked a.machine := by
  refine h.keeps (fun config => ?_) (fun memory unworked => unworked) (fun acts unworked => ?_)
    (fun index source unworked => ?_) fun _ => instanceUnworked
  · exact fun i p found => by cases found
  · exact unworkedKept unworked (effectKept acts)
  · exact unworkedKept unworked (.modifyUnit fun p _ => .still rfl rfl rfl rfl id)

theorem builtTallied {machine : Machine} (built : Built (invoke depth) machine)
    (found : machine.units[index]? = some origin) {cpu : Acc8}
    (idle : machine.idle origin.device = .ok (.acc8 cpu))
    (fixed : cpu.options.resetPc.isSome = true) : Tallied origin index 0 machine := by
  have direct := builtDirect built found idle fixed
  obtain ⟨a, assembled, started⟩ := built
  have kept := buildKept (invokeActs depth) started
  have fresh := freshKept (assembledFresh assembled) kept
  obtain ⟨q, row, same⟩ := kept.back found
  refine ⟨fresh.idle, fresh.sound, direct, ⟨origin, found, rfl, rfl, ?_, ?_⟩, ?_⟩
  · rw [fresh.still found]
    exact Time.ext (Nat.zero_min _).symm
  · rw [same.cycles, assembledUnworked assembled index q row]
    rfl
  · rw [fresh.clock]
    exact Nat.zero_le _

end

/-- However a run is sliced, the local time of a processor that enters at a fixed point and is
never suspended is its work at its clock, and the cycles it counts are that work: what its
instructions and interrupt entries cost, and the cycles it idles. So it is at every point
between slices, in the middle of what hosts and callbacks do there, as long as no slice of it is
granted two to the sixty-third cycles, whatever its handlers, the other processors, the timers
and the quantum do. -/
theorem workIsTime {depth index : Nat} {origin m : Machine} {r : Option Machine}
    {events before after : List Event} {e : Event} {p : Processor} {cpu : Acc8}
    (built : Built (invoke depth) origin) (found : origin.units[index]? = some p)
    (idle : origin.idle p.device = .ok (.acc8 cpu))
    (fixed : cpu.options.resetPc.isSome = true)
    (h : History (invoke depth) origin events r)
    (steady : ∀ e ∈ events, e.Steady depth index ∧ e.Short index)
    (split : events = before ++ e :: after) (acts : Effect e.machine m) :
    ∃ q, m.units[index]? = some q ∧ q.clock = p.clock ∧
      q.localTime = q.period.scale (workDone (invoke depth) index before) ∧
      q.totalCycles = Word.clamp (workDone (invoke depth) index before) ∧
      (workDone (invoke depth) index before ≤ Word.largest →
        q.period.attos * workDone (invoke depth) index before ≤ Time.last →
          q.totalCycles = workDone (invoke depth) index before ∧
            q.localTime.attos = q.period.attos * q.totalCycles) := by
  have traced := historyTraced (builtTallied built found idle fixed) h steady
  rw [split] at traced
  have t := talliedEffect traced.each acts
  rw [Nat.zero_add] at t
  obtain ⟨q, row, -, clock, time, cycles⟩ := t.row
  have period : q.period = p.period := by rw [Processor.period, Processor.period, clock]
  rw [← period] at time
  refine ⟨q, row, clock, time, cycles, fun word last => ?_⟩
  rw [Word.clamp_of_le word] at cycles
  refine ⟨cycles, ?_⟩
  rw [cycles, time, Time.attos_scale]
  exact Nat.min_eq_left last

def steadyAt (depth index : Nat) (e : Event) : Bool :=
  e.machine.awake index &&
    match e with
    | .slice g _ => (decide (g.unit = index) && decide (g.cycles ≤ budgetLimit)) ||
        (decide (g.unit ≠ index) &&
          (runSlice (invokeUnder (wakeful index) depth) g.unit g.target g.machine).isSome)
    | _ => true

theorem steadyOf {depth index : Nat} {e : Event} (h : steadyAt depth index e = true) :
    e.Steady depth index ∧ e.Short index := by
  obtain ⟨live, rest⟩ := Bool.and_eq_true_iff.mp h
  cases e with
  | rest | fired => exact ⟨⟨live, trivial⟩, trivial⟩
  | slice g starts =>
    rcases Bool.or_eq_true_iff.mp rest with own | other
    · obtain ⟨own, short⟩ := Bool.and_eq_true_iff.mp own
      exact ⟨⟨live, .inl (of_decide_eq_true own)⟩, fun _ => of_decide_eq_true short⟩
    · obtain ⟨away, runs⟩ := Bool.and_eq_true_iff.mp other
      refine ⟨⟨live, .inr fun m' ran => ?_⟩, fun own => absurd own (of_decide_eq_true away)⟩
      obtain ⟨⟨u, m⟩, spared⟩ := Option.isSome_iff_exists.mp runs
      have same := ((stepsCarries (wakeful index)).runSlice (invokeSteps (wakeful index) depth)
        g.unit g.target g.machine u m spared).1
      rw [same] at ran
      cases ran
      exact spared

def pairWorks : Bool :=
  match pair.build (invoke 3) with
  | some (none, origin) =>
      match origin.units[0]? with
      | some p =>
          match origin.idle p.device with
          | .ok (.acc8 cpu) =>
              let events := (watchUntil (invoke 3) (.ofMicros 12) 40 origin).1
              cpu.options.resetPc.isSome && origin.awake 0 && events.all (steadyAt 3 0) &&
                decide (0 < workDone (invoke 3) 0 events.dropLast) &&
                decide (workDone (invoke 3) 0 events.dropLast ≤ Word.largest) &&
                decide (p.period.attos * workDone (invoke 3) 0 events.dropLast ≤ Time.last)
          | _ => false
      | none => false
  | _ => false

theorem pairConserves : ∃ origin events last p q, Built (invoke 3) origin ∧
    origin.units[0]? = some p ∧ History (invoke 3) origin (events ++ [last])
      ((runUntil (invoke 3) (.ofMicros 12) 40 origin).map Prod.snd) ∧
    0 < workDone (invoke 3) 0 events ∧ last.machine.units[0]? = some q ∧ q.clock = p.clock ∧
    q.totalCycles = workDone (invoke 3) 0 events ∧
    q.localTime.attos = q.period.attos * q.totalCycles := by
  have runs : pairWorks = true := by decide +kernel
  unfold pairWorks at runs
  split at runs
  · rename_i origin started
    split at runs
    · rename_i p found
      split at runs
      · rename_i cpu idle
        simp only [Bool.and_eq_true, decide_eq_true_eq, List.all_eq_true] at runs
        obtain ⟨⟨⟨⟨⟨fixed, live⟩, steady⟩, works⟩, word⟩, last⟩ := runs
        have built : Built (invoke 3) origin := ⟨pair, pairAssembled, started⟩
        have first : History (invoke 3) origin [.rest origin] (some origin) := .start
        have history := first.run (.ofMicros 12) 40
        generalize (watchUntil (invoke 3) (.ofMicros 12) 40 origin).1 = events at *
        have some_ : events ≠ [] := by
          rintro rfl
          exact absurd works (by decide)
        have split : [.rest origin] ++ events =
            (.rest origin :: events.dropLast) ++ [events.getLast some_] := by
          rw [List.cons_append, List.cons_append, List.dropLast_append_getLast, List.nil_append]
        have awake : steadyAt 3 0 (.rest origin) = true := by
          unfold steadyAt Event.machine
          rw [live]
          rfl
        have all : ∀ e ∈ [.rest origin] ++ events, e.Steady 3 0 ∧ e.Short 0 := by
          intro e mem
          rcases List.mem_cons.mp mem with rfl | mem
          · exact steadyOf awake
          · exact steadyOf (steady e mem)
        have rest : workDone (invoke 3) 0 (.rest origin :: events.dropLast) =
            workDone (invoke 3) 0 events.dropLast := Nat.zero_add _
        obtain ⟨q, row, clock, -, -, exact⟩ :=
          workIsTime built found idle fixed history all split (.refl _)
        have period : q.period = p.period := by rw [Processor.period, Processor.period, clock]
        rw [rest, period] at exact
        obtain ⟨cycles, time⟩ := exact word last
        rw [← period] at time
        refine ⟨origin, .rest origin :: events.dropLast, events.getLast some_, p, q, built, found, ?_,
          rest ▸ works, row, clock, rest ▸ cycles, time⟩
        rw [← split]
        exact history
      · cases runs
    · cases runs
  · cases runs

end Machine

end Lockstep
