import Lockstep.Proofs.Delivery

/-! What a run to a target has done when it ends. Its last pass found no timer due and every
live processor at the target, so the clock has come there exactly, however far slices went
beyond it, and a second run that goes no further finds nothing left to do. -/
namespace Lockstep

theorem Time.scaleSucc (t p : Time) (n : Nat) : t + p + p.scale n = t + p.scale (n + 1) := by
  apply Time.ext
  simp only [Time.attos_add, Time.attos_scale, Nat.mul_succ]
  omega

theorem Time.scaleZero (t p : Time) : t + p.scale 0 = t := by
  apply Time.ext
  have := t.bounded
  simp only [Time.attos_add, Time.attos_scale]
  omega

namespace Machine

def Paused (a b : Machine) : Prop := b.config = a.config ∧ b.timers.now = a.timers.now

def runFrames (call : Callback) : List Nat → Run Unit
  | [] => return
  | fuel :: rest => do
      runFrame call fuel
      runFrames call rest

section
variable {a b m m' : Machine}

def pace (m : Machine) : Config × Option Boost := (m.config, m.boost)

@[simp] theorem countPace (m : Machine) (f : Diag → Diag) : (m.count f).pace = m.pace := rfl

@[simp] theorem unitPace (m : Machine) (index : Nat) (f : Processor → Processor) :
    (m.modifyUnit index f).pace = m.pace := rfl

@[simp] theorem tracePace (m : Machine) (event : TraceEvent) : (m.trace event).pace = m.pace := by
  unfold trace
  split
  · split <;> rfl
  · rfl

theorem settlePace (m : Machine) (unit cycles consumed : Nat) (trap : Option Trap)
    (start : Time) : (m.settle unit cycles consumed trap start).pace = m.pace := by
  unfold settle
  dsimp only
  repeat' split
  all_goals simp only [tracePace, countPace, unitPace]

theorem paceRestarts : Restarts fun a b => b.pace = a.pace where
  refl _ := rfl
  trans first rest := rest.trans first
  unit _ _ _ := rfl
  control _ := tracePace ..
  enter _ := rfl
  place _ _ := rfl

theorem tickPace (h : Tick a b) : b.pace = a.pace := by
  cases h with
  | pulse h => cases h <;> rfl
  | settle unit cycles consumed trap start => exact settlePace ..
  | restart now index => exact paceRestarts.restart ..
  | place | grant | ready | close | disable | freeze | sink => rfl

theorem touchPace (h : Touch a b) : b.pace = a.pace := by
  cases h with
  | unmapped kind address write => exact tracePace ..
  | drive | countRead | countWrite | store => rfl

theorem tickConfig (h : Tick a b) : b.config = a.config := congrArg Prod.fst (tickPace h)

theorem touchConfig (h : Touch a b) : b.config = a.config := congrArg Prod.fst (touchPace h)

theorem pausedCarries : Carries Paused where
  refl _ := ⟨rfl, rfl⟩
  trans first rest := ⟨rest.1.trans first.1, rest.2.trans first.2⟩
  touch h := ⟨touchConfig h, by rw [(touchQuiet h).timers]⟩
  tick h := ⟨tickConfig h, by rw [(tickQuiet h).timers]⟩
  lent _ inner := inner

theorem effectPaused (h : Effect a b) : Paused a b := ⟨(effectKept h).config, (effectKept h).clock⟩

theorem setNowSame {q : Timer.Queue} {limit : Time} (reached : limit ≤ q.now) :
    q.setNow limit = q := if_neg (Nat.not_lt.mpr reached)

theorem popNothing {q : Timer.Queue} {limit : Time} (later : ∀ key ∈ q.order, limit < key.time) :
    q.popDue limit = none := by
  unfold Timer.Queue.popDue
  cases order : q.order with
  | nil => rfl
  | cons key rest => exact if_pos (later key (order ▸ List.mem_cons_self ..))

theorem idleNow (idle : m.frame = none) : m.now = m.timers.now := by
  unfold now
  rw [idle]

structure Abreast (target : Time) (m : Machine) : Prop where
  sound : m.timers.Sound
  clock : target ≤ m.timers.now
  armed : ∀ key ∈ m.timers.order, target < key.time
  level : ∀ {i : Nat} {p : Processor}, m.units[i]? = some p → p.isLive = true →
    target ≤ p.localTime

theorem abreastArmed {target time : Time} {id : Timer.Id} (abreast : Abreast target m)
    (armed : m.timers.fireTime? id = some time) : target < time := by
  obtain ⟨key, mem, rfl⟩ := Timer.Queue.armedKey abreast.sound.toFiled armed
  exact abreast.armed key mem

theorem abreastAgain {call : Callback} {target limit : Time} (abreast : Abreast target m)
    (within : limit ≤ target) (fuel : Nat) :
    runUntil call limit (fuel + 1) m = some ((), m) := by
  have quiet : m.timers.popDue limit = none :=
    popNothing fun key mem => Nat.lt_of_le_of_lt within (abreast.armed key mem)
  have still : m.timers.setNow limit = m.timers := setNowSame (Nat.le_trans within abreast.clock)
  have here : m.horizon limit = limit :=
    horizonLevel fun found live => Nat.le_trans within (abreast.level found live)
  unfold runUntil
  rw [Run.getBind]
  dsimp only
  rw [show m.leastAdvanced?.elim limit (fun row => min row.2 limit) = limit from here, quiet]
  dsimp only
  rw [still]
  cases least : m.leastAdvanced? with
  | none => rfl
  | some row =>
    obtain ⟨unit, time⟩ := row
    obtain ⟨⟨p, found, live, rfl⟩, -⟩ := leastInv least
    have level : limit ≤ p.localTime := Nat.le_trans within (abreast.level found live)
    rw [Run.setBind]
    dsimp only
    rw [if_pos level]
    rfl

structure Arrives (target : Time) (m m' : Machine) : Prop where
  abreast : Abreast target m'
  config : m'.config = m.config
  idle : m.frame = none → m'.frame = none
  least : m.timers.now ≤ m'.timers.now
  most : m'.timers.now ≤ max m.timers.now target

namespace Arrives
variable {target : Time}

theorem rest (sound : m.timers.Sound) (quiet : m.timers.popDue target = none)
    (level : ∀ {i : Nat} {p : Processor}, m.units[i]? = some p → p.isLive = true →
      target ≤ p.localTime) : Arrives target m { m with timers := m.timers.setNow target } := by
  have later := Timer.Queue.popNone sound.toFiled quiet
  have now := Timer.Queue.nowSetNow (q := m.timers) target
  refine ⟨⟨Timer.Queue.soundSetNow sound later, ?_, ?_, level⟩, rfl, id, ?_, ?_⟩
  · rw [now, Time.le_def, Time.attos_max]
    exact Nat.le_max_right ..
  · rwa [Timer.Queue.orderSetNow]
  · rw [now, Time.le_def, Time.attos_max]
    exact Nat.le_max_left ..
  · exact Nat.le_of_eq (congrArg Time.attos now)

theorem after (config : b.config = m.config) (idle : m.frame = none → b.frame = none)
    (least : m.timers.now ≤ b.timers.now) (most : b.timers.now ≤ max m.timers.now target)
    (h : Arrives target b m') : Arrives target m m' := by
  refine ⟨h.abreast, h.config.trans config, fun open_ => h.idle (idle open_),
    Nat.le_trans least h.least, ?_⟩
  have rest := h.most
  simp only [Time.le_def, Time.attos_max] at *
  omega

theorem now (h : Arrives target m m') (idle : m.frame = none) : m'.now = max m.now target := by
  have clock := h.abreast.clock
  have least := h.least
  have most := h.most
  rw [idleNow (h.idle idle), idleNow idle]
  apply Time.ext
  simp only [Time.le_def, Time.attos_max] at *
  omega

end Arrives

section
variable {call : Callback} (calls : ∀ s m, Acts (call s) m)
include calls

theorem slicePaused {unit : Nat} {target : Time} {u : Unit}
    (ran : runSlice call unit target m = some (u, m')) : Paused m m' :=
  (pausedCarries.runSlice
    (fun s m => Run.followsSame fun r m' h => effectPaused (calls s m r m' h)) unit target m u m'
      ran).2

theorem sliceSound {unit : Nat} {target : Time} {u : Unit} (sound : m.timers.Sound)
    (ran : runSlice call unit target m = some (u, m')) : m'.timers.Sound :=
  (motionSound (motionDrives.carries.runSlice (callMotion calls) unit target m u m' ran).2 sound).1

theorem untilArrives {target : Time} {fuel : Nat} {u : Unit} (sound : m.timers.Sound)
    (ran : runUntil call target fuel m = some (u, m')) : Arrives target m m' := by
  refine untilPasses (P := fun m m' => m.timers.Sound → Arrives target m m') ?_ ?_ ran sound
  · intro m m' last sound
    obtain _ | ⟨quiet, level⟩ := last
    exact .rest sound quiet level
  intro m m₁ m' first arrives sound
  cases first with
  | fires due ran =>
    have kept := effectKept (dispatchActs calls _ _ _ m₁ ran)
    obtain ⟨sound', now, behind, due, -⟩ := Timer.Queue.popInv sound due
    have clock := kept.clock.trans now
    have bounded := horizonTarget m target
    refine .after kept.config kept.frame.trans ?_ ?_ (arrives (kept.sound sound'))
    · rw [clock]
      exact behind
    · rw [clock]
      simp only [Time.le_def, Time.attos_max] at *
      omega
  | @slices unit p _ next ran =>
    have later := Timer.Queue.popNone sound.toFiled next.quiet
    have now := Timer.Queue.nowSetNow (q := m.timers) p.localTime
    obtain ⟨config, clock⟩ := slicePaused calls ran
    have waited := sliceSound calls (Timer.Queue.soundSetNow sound later) ran
    have before := next.before
    refine .after config (fun idle => sliceIdle ran idle) ?_ ?_ (arrives waited)
    · rw [clock]
      change m.timers.now ≤ (m.timers.setNow p.localTime).now
      rw [now, Time.le_def, Time.attos_max]
      exact Nat.le_max_left ..
    · rw [clock]
      change (m.timers.setNow p.localTime).now ≤ max m.timers.now target
      rw [now]
      simp only [Time.le_def, Time.lt_def, Time.attos_max] at *
      omega

theorem historyIdle {origin : Machine} {events : List Event} (built : Built call origin)
    (h : History call origin events (some m)) : m.frame = none ∧ m.timers.Sound := by
  generalize same : some m = r at h
  induction h generalizing m with
  | start =>
    cases same
    have fair := builtFair calls built
    exact ⟨fair.idle, fair.sound⟩
  | effect _ acts ih =>
    cases same
    obtain ⟨idle, sound⟩ := ih rfl
    exact ⟨(effectKept acts).frame.trans idle, (effectKept acts).sound sound⟩
  | reset _ done ih =>
    cases same
    obtain ⟨idle, sound⟩ := ih rfl
    have kept := resetKept calls done
    exact ⟨kept.frame.trans idle, kept.sound sound⟩
  | run target fuel _ ih =>
    obtain ⟨idle, sound⟩ := ih rfl
    obtain ⟨⟨u, m'⟩, ran, rfl⟩ := Option.map_eq_some_iff.mp same.symm
    have arrives := untilArrives calls sound ran
    exact ⟨arrives.idle idle, arrives.abreast.sound⟩

theorem framesNow {fuels : List Nat} {u : Unit} (idle : m.frame = none) (sound : m.timers.Sound)
    (ran : runFrames call fuels m = some (u, m')) :
    m'.now = m.now + m.config.framePeriod.scale fuels.length := by
  induction fuels generalizing m with
  | nil =>
    obtain ⟨-, rfl⟩ := Run.pureInv ran
    exact (Time.scaleZero ..).symm
  | cons fuel rest ih =>
    obtain ⟨v, m₁, frame, ran⟩ := Run.bindInv ran
    have arrives := untilArrives calls sound frame
    have now : m₁.now = m.now + m.config.framePeriod := by
      rw [arrives.now idle]
      have bounded := m.now.bounded
      apply Time.ext
      simp only [Time.attos_max, Time.attos_add]
      omega
    rw [ih (arrives.idle idle) arrives.abreast.sound ran, now, arrives.config, List.length_cons,
      Time.scaleSucc]

end

end

/-- A run that ends has come to its target, or stays where it was if it was beyond it. Then no
live processor is behind the target and nothing is armed up to it, and another run that goes
no further changes nothing at all. So any number of frames take exactly their length, however
far the slices in them went. -/
theorem runsComplete {depth : Nat} {origin m : Machine} {events : List Event}
    (built : Built (invoke depth) origin) (h : History (invoke depth) origin events (some m)) :
    (∀ target fuel m', runUntil (invoke depth) target fuel m = some ((), m') →
      m'.now = max m.now target ∧
        (∀ (index : Nat) (p : Processor), m'.units[index]? = some p → p.isLive = true →
          target ≤ p.localTime) ∧
        (∀ id time, m'.timers.fireTime? id = some time → target < time) ∧
        ∀ limit more, limit ≤ target →
          runUntil (invoke depth) limit (more + 1) m' = some ((), m')) ∧
      ∀ fuels m', runFrames (invoke depth) fuels m = some ((), m') →
        m'.now = m.now + m.config.framePeriod.scale fuels.length := by
  have acts := invokeActs depth
  obtain ⟨idle, sound⟩ := historyIdle acts built h
  refine ⟨fun target fuel m' ran => ?_, fun fuels m' ran => framesNow acts idle sound ran⟩
  have arrives := untilArrives acts sound ran
  exact ⟨arrives.now idle, fun index p found live => arrives.abreast.level found live,
    fun id time armed => abreastArmed arrives.abreast armed,
    fun limit more within => abreastAgain arrives.abreast within more⟩

def strobe : Assembly :=
  ((Assembly.new { quantum := .ofMicros 10, framePeriod := .ofMicros 7 } .builtin).extend
    "timer" ⟨0⟩ (.peripheral
      { name := "timer", start := fun id => .perform (.schedule id (.ofMicros 3) (.ofMicros 4) 0) })
    ).extend "left" (.ofMhz 1) (.acc8 (.new "left" { resetPc := some 0x200 }))

theorem strobeAssembled : Assembled strobe := ((Assembled.new _ _).extend _ _ _).extend _ _ _

def strobeRuns : Bool :=
  match strobe.build (invoke 3) with
  | some (none, origin) =>
      match runUntil (invoke 3) (.ofNanos 5500) 40 origin with
      | some (_, m) => decide (m.units.any fun p => p.isLive && decide (.ofNanos 5500 < p.localTime)) &&
          (runFrames (invoke 3) [40, 40] m).isSome
      | none => false
  | _ => false

theorem strobeCompletes : ∃ origin m m', Built (invoke 3) origin ∧
    runUntil (invoke 3) (.ofNanos 5500) 40 origin = some ((), m) ∧
    m.units.any (fun p => p.isLive && decide (.ofNanos 5500 < p.localTime)) = true ∧
    m.now = max origin.now (.ofNanos 5500) ∧
    runUntil (invoke 3) (.ofNanos 5000) 1 m = some ((), m) ∧
    runFrames (invoke 3) [40, 40] m = some ((), m') ∧
    m'.now = m.now + m.config.framePeriod.scale 2 := by
  have runs : strobeRuns = true := by decide +kernel
  unfold strobeRuns at runs
  split at runs
  · rename_i origin started
    split at runs
    · rename_i u m ran
      obtain ⟨beyond, frames⟩ := Bool.and_eq_true_iff.mp runs
      obtain ⟨⟨v, m'⟩, framed⟩ := Option.isSome_iff_exists.mp frames
      have built : Built (invoke 3) origin := ⟨strobe, strobeAssembled, started⟩
      have first : History (invoke 3) origin [.rest origin] (some origin) := .start
      have next := first.run (.ofNanos 5500) 40
      rw [ran] at next
      obtain ⟨now, -, -, again⟩ := (runsComplete built first).1 _ _ m ran
      exact ⟨origin, m, m', built, ran, of_decide_eq_true beyond, now,
        again _ 0 (by decide), framed, (runsComplete built next).2 _ m' framed⟩
    · cases runs
  · cases runs

end Machine

end Lockstep
