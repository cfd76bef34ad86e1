import Lockstep.Proofs.Instruments

/-! Runs and resets of machines that differ in their records only. A slice gets a budget of its
own as it is granted, so what an earlier one left over does not matter to it. -/
namespace Lockstep.Machine

section
variable {α : Type} {m : Machine} {r : Records}

theorem inertUnits {g h : Machine → Machine}
    (same : ∀ m' : Machine, m'.units = m.units → g m' = h m') (inert : Inert Records h m) :
    Inert Records g m := by
  refine ⟨(congrArg Machine.frame (same m rfl)).trans inert.1, fun r fits => ?_⟩
  rw [same m rfl, same (Guise.wear m r) rfl]
  exact inert.2 r fits

theorem inertNoted (unit line : Nat) (vector : Option Nat) (m : Machine) :
    Inert Records (·.noteInterrupt unit line vector) m := by
  cases row : m.units[unit]? with
  | none =>
    refine inertUnits (h := (·.count (·.interrupt))) (fun m' units => ?_) (inertCount m _)
    have found : (m'.count (·.interrupt)).units[unit]? = none := (congrArg (·[unit]?) units).trans row
    simp only [noteInterrupt, found]
  | some p =>
    let note (now : Time) (m : Machine) : Machine :=
      (m.count (·.interrupt)).trace (.interruptAccepted p.device line vector now)
    refine inertUnits (h := fun m => note m.now m) (fun m' units => ?_)
      (inertAt (inertThen (inertCount m _) (inertTrace _ _)))
    have found : (m'.count (·.interrupt)).units[unit]? = some p :=
      (congrArg (·[unit]?) units).trans row
    simp only [noteInterrupt, found]
    rfl

theorem blindCharge (charge : Int → Int) (running : m.frame ≠ none) :
    Blind Records m.frame (modify fun m => { m with budget := charge m.budget }) m :=
  blindShift rfl fun r fits => ⟨{ r with budget := charge r.budget },
    fun _ => congrArg charge (fits running), rfl⟩

theorem blindConsume (cycles : Nat) (running : m.frame ≠ none) :
    Blind Records m.frame (consume cycles) m :=
  blindCharge (fun left => max (left - (min cycles budgetLimit : Nat)) (-(budgetLimit + 1 : Nat)))
    running

theorem blindPublish (unit : Nat) (read : RegisterId → Option Nat) :
    Blind Records m.frame (publish unit read) m :=
  blindModify (inertUnit m unit _)

theorem recordingStop (fits : r.Fits m) (running : m.frame ≠ none) (unit : Nat) :
    (Guise.wear m r).mustStop unit = m.mustStop unit := by
  change (m.recording r).mustStop unit = _
  unfold mustStop
  rw [← fits running]
  rfl

theorem recordingConsumed (fits : r.Fits m) : (Guise.wear m r).consumed = m.consumed := by
  unfold consumed
  change m.frame.elim 0 (Guise.wear m r).consumedIn = _
  cases frame : m.frame with
  | none => rfl
  | some f => exact recordingConsumedIn fits frame

theorem inertSettle (unit cycles consumed : Nat) (trap : Option Trap) (start : Time) (m : Machine) :
    Inert Records (·.settle unit cycles consumed trap start) m := by
  cases row : m.units[unit]? with
  | none =>
    refine inertUnits (h := fun m => m) (fun m' units => ?_) (inertSame m)
    simp only [settle, units, row]
  | some p =>
    let charged := if consumed = 0 then cycles else consumed
    let localTime := start + p.period.scale charged
    let book (m : Machine) : Machine :=
      (m.modifyUnit unit fun p =>
        { p with
          localTime
          totalCycles := Word.add p.totalCycles consumed
          yieldRequested := false }).count (·.slice cycles consumed)
    let note (m : Machine) : Machine :=
      (if p.yieldRequested then m.count (·.yielded) else m).trace
        (.sliceEnd p.device localTime consumed)
    have booked : Inert Records (fun m => note (book m)) m :=
      inertThen (inertThen (inertUnit m unit _) (inertCount _ _))
        (inertThen (inertIf (inertCount _ _) (inertSame _)) (inertTrace _ _))
    let catch_ (cause : Trap) (m : Machine) : Machine :=
      if p.suspension.trapped then m
      else ((m.modifyUnit unit fun p =>
        { p with suspension := p.suspension.union { trapped := true } }).count (·.trap)).trace
          (.unitTrapped p.device cause localTime)
    have caught : ∀ cause m, Inert Records (catch_ cause) m := fun cause m =>
      inertIf (inertSame m) (inertThen (inertThen (inertUnit m unit _) (inertCount _ _))
        (inertTrace _ _))
    cases trap with
    | none =>
      refine inertUnits (fun m' units => ?_) booked
      simp only [settle, units, row]
      rfl
    | some cause =>
      refine inertUnits (fun m' units => ?_) (inertThen booked (caught cause _))
      simp only [settle, units, row]
      rfl

theorem inertRestart (now : Time) (index : Nat) (m : Machine) :
    Inert Records (restartUnit now · index) m := by
  have restarts : ∀ r : Records, r.Fits m → (restartUnit now m index).frame = m.frame ∧
      ∃ r' : Records, r'.Fits (restartUnit now m index) ∧
        restartUnit now (Guise.wear m r) index = (restartUnit now m index).recording r' := by
    intro r fits
    rcases toldReset index m r fits with ⟨e, left, right⟩ | ⟨m', r', left, frame, fits, right⟩
    · dsimp only at left right
      simp only [restartUnit, left, right]
      exact ⟨trivial, r, fits, rfl⟩
    · dsimp only at left right
      simp only [restartUnit, left, right]
      exact ⟨frame, r', fits, rfl⟩
  let own : Records := ⟨m.diag, m.sink, m.journal, fun _ => (0, 0), m.budget⟩
  exact ⟨(restarts own fun _ => rfl).1, fun r fits => (restarts r fits).2⟩

theorem inertRestarts (m : Machine) :
    Inert Records (fun m => (List.range m.units.size).foldl (restartUnit m.now) m) m := by
  have restarts : ∀ (now : Time) (indices : List Nat) (m : Machine),
      Inert Records (indices.foldl (restartUnit now) ·) m := by
    intro now indices
    induction indices with
    | nil => exact inertSame
    | cons index rest ih => exact fun m => inertThen (inertRestart now index m) (ih _)
  refine inertAt (f := fun now m => (List.range m.units.size).foldl (restartUnit now) m) ?_
  exact inertUnits (fun m' units => by rw [units]) (restarts m.now (List.range m.units.size) m)

section
variable {call : Callback} (calls : ∀ s m, Blind Records m.frame (call s) m)
include calls

theorem blindAcknowledge (unit line : Nat) (m : Machine) :
    Blind Records m.frame (acknowledge call unit line) m := by
  have noted : ∀ (vector : Option Nat) (m : Machine), Blind Records m.frame
      (do modify (·.noteInterrupt unit line vector); return vector : Run (Option Nat)) m :=
    fun vector m => blindBind (blindModify (inertNoted unit line vector m)) fun _ _ => blindPure _
  unfold acknowledge
  refine blindGet (fun _ _ => rfl) ?_
  cases (m.units[unit]?).bind (·.lines.acknowledge? line) with
  | none => exact noted none m
  | some row =>
    obtain ⟨lines, answer⟩ := row
    refine blindBind (blindModify (inertUnit m unit _)) fun _ m₁ frame => ?_
    rw [← frame]
    cases answer with
    | stored vector => exact noted vector m₁
    | ask source => exact blindBind (calls _ m₁) fun _ m₂ frame => frame ▸ noted _ m₂

theorem blindPort (program io : SpaceId) :
    Acc8.Port.Related (fun _ x _ => ∀ m, Blind Records m.frame x m) (acc8Port call program io)
      (acc8Port call program io) where
  pure a _ := blindPure a rfl
  bind first rest m := blindBind (first m) fun a m' frame => frame ▸ rest a m'
  read _ m := blindBind (blindReadRank calls program 0 _ m) fun _ _ => blindPure _
  write _ _ m := blindWriteRank calls program 0 _ _ m
  input _ m := blindBind (blindReadRank calls io 0 _ m) fun _ _ => blindPure _
  output _ _ m := blindWriteRank calls io 0 _ _ m

theorem blindLoop (unit : Nat) {port : Acc8.Port Run}
    (ports : Acc8.Port.Related (fun _ x _ => ∀ m, Blind Records m.frame x m) port port)
    (bound : Nat) (cpu : Acc8) (m : Machine) (running : m.frame ≠ none) :
    Blind Records m.frame (acc8Loop call unit port bound cpu) m := by
  induction bound generalizing cpu m with
  | zero => exact blindPure _ rfl
  | succ bound ih =>
    refine blindGet (fun r fits => by rw [recordingStop fits running]) ?_
    split
    · exact blindPure _ rfl
    refine blindBind (blindPublish unit _) fun _ m₁ frame₁ => ?_
    have goes : ∀ (cpu : Acc8) (cycles : Nat) (m₂ : Machine), m₂.frame = m.frame →
        Blind Records m.frame (do
          consume cycles
          if cpu.runState.isTrapped then return cpu
          acc8Loop call unit port bound cpu) m₂ := by
      intro cpu cycles m₂ frame₂
      rw [← frame₂] at running ⊢
      refine blindBind (blindConsume cycles running) fun _ m₃ frame₃ => ?_
      split
      · exact blindPure _ frame₃
      · rw [← frame₃] at running ⊢
        exact ih cpu m₃ running
    rw [← frame₁] at running goes ⊢
    refine blindGet (fun r fits => ?_) ?_
    · rw [show (Guise.wear m₁ r).budget = m₁.budget from fits running]
      rfl
    rcases cpu.pending (m₁.lineActive unit Acc8.nmiLine) (m₁.lineActive unit Acc8.irqLine) with
      ⟨cpu, _ | line⟩
    · dsimp only
      split
      · exact blindBind (blindConsume _ running) fun _ _ => blindPure _
      · exact blindBind (Acc8.stepRelated ports cpu m₁) fun row m₂ => goes row.1 row.2 m₂
    · refine blindBind (blindAcknowledge calls unit line m₁) fun vector m₂ frame₂ => ?_
      rw [← frame₂] at goes ⊢
      exact blindBind (Acc8.enterRelated ports _ cpu m₂) fun cpu m₃ => goes cpu _ m₃

theorem blindRunAcc8 (unit cycles : Nat) {port : Acc8.Port Run}
    (ports : Acc8.Port.Related (fun _ x _ => ∀ m, Blind Records m.frame x m) port port) (cpu : Acc8)
    (m : Machine) (running : m.frame ≠ none) :
    Blind Records m.frame (runAcc8 call unit cycles port cpu) m := by
  have ends : ∀ (cpu : Acc8) (m₁ : Machine), m₁.frame = m.frame → Blind Records m.frame (do
      let cpu ← acc8Loop call unit port (min cycles budgetLimit) cpu
      return (cpu, consumed (← get)) : Run (Acc8 × Nat)) m₁ := by
    intro cpu m₁ frame₁
    rw [← frame₁] at running ⊢
    refine blindBind (blindLoop calls unit ports _ cpu m₁ running) fun _ m₂ frame₂ => ?_
    exact blindGet (fun r fits => by rw [recordingConsumed fits]) (blindPure _ frame₂)
  unfold runAcc8
  split
  · exact blindPure _ rfl
  refine blindBind (blindPublish unit _) fun _ m₁ frame₁ => ?_
  dsimp only
  split
  · rw [← frame₁] at ends ⊢
    exact blindBind (Acc8.readWordRelated ports _ m₁) fun _ m₂ => ends _ m₂
  · exact ends _ m₁ frame₁

theorem blindInquire (unit : Nat) (inquiry : Inquiry) (m : Machine) (running : m.frame ≠ none) :
    Blind Records m.frame (inquire call unit inquiry) m := by
  cases inquiry with
  | consumeUntilStop cycles =>
    refine blindGet (fun r fits => ?_) ?_
    · rw [show (Guise.wear m r).roundsUntilStop unit cycles = m.roundsUntilStop unit cycles by
        unfold roundsUntilStop
        rw [recordingStop fits running, show (Guise.wear m r).budget = m.budget from fits running]]
    · exact blindBind (blindCharge (· - (m.roundsUntilStop unit cycles * min cycles budgetLimit : Nat))
        running) fun _ _ => blindPure _
  | status =>
    refine blindLook fun r fits => ?_
    unfold sliceStatus
    rw [recordingStop fits running, recordingConsumed fits, recordingNow fits,
      show (Guise.wear m r).budget = m.budget from fits running]
    rfl
  | acknowledge line =>
    exact blindBind (blindAcknowledge calls unit line m) fun _ _ => blindPure _

theorem blindBeats (unit : Nat) (beats : List Beat) (s : Sequencer) (m : Machine)
    (running : m.frame ≠ none) : Blind Records m.frame (playBeats call unit beats s) m := by
  induction beats generalizing s m with
  | nil => exact blindGet (fun r fits => by rw [recordingConsumed fits]) (blindPure _ rfl)
  | cons beat rest ih =>
    have onward : ∀ (s : Sequencer) (m₁ : Machine), m₁.frame = m.frame →
        Blind Records m.frame (playBeats call unit rest s) m₁ := by
      intro s m₁ frame₁
      rw [← frame₁] at running ⊢
      exact ih s m₁ running
    have entered : ∀ (entry : Activity) (m₁ : Machine), m₁.frame = m.frame →
        Blind Records m.frame (do
          modify (·.enter entry)
          playBeats call unit rest s) m₁ := by
      intro entry m₁ frame₁
      rw [← frame₁] at onward ⊢
      exact blindBind (blindModify (inertEnter m₁ entry)) fun _ m₂ => onward s m₂
    cases beat with
    | consume cycles => exact blindBind (blindConsume cycles running) fun _ => onward s
    | publish => exact blindBind (blindPublish unit _) fun _ => onward s
    | setRegister id value => exact onward _ m rfl
    | setRunState state => exact onward _ m rfl
    | finish cycles => exact blindPure _ rfl
    | inquire name inquiry =>
      exact blindBind (blindInquire calls unit inquiry m running) fun _ => entered _
    | perform task => exact blindBind (calls _ m) fun _ => entered _

theorem blindDevice (unit cycles : Nat) (id : DeviceId) (device : Device) (m : Machine)
    (running : m.frame ≠ none) :
    Blind Records m.frame (runDevice call unit cycles id device) m := by
  cases device with
  | peripheral p => exact blindPure _ rfl
  | acc8 cpu =>
    refine blindGet (fun _ _ => rfl) ?_
    dsimp only
    cases m.ownedSpace id .program with
    | error e => exact blindPure _ rfl
    | ok program =>
      cases m.ownedSpace id .io with
      | error e => exact blindPure _ rfl
      | ok io =>
        exact blindBind (blindRunAcc8 calls unit cycles (blindPort calls _ _) cpu m running)
          fun _ _ => blindPure _
  | sequencer s =>
    simp only [runDevice]
    split
    · refine blindBind (blindBind (blindModify (inertEnter m _)) fun _ m₁ frame₁ => ?_)
        fun _ _ => blindPure _
      rw [← frame₁] at running ⊢
      exact blindBeats calls unit _ _ m₁ running
    · exact blindPure _ rfl

theorem blindGrant (unit cycles : Nat) (id : DeviceId) (m : Machine) (running : m.frame ≠ none) :
    Blind Records m.frame (grant call unit cycles id) m := by
  refine blindGet (fun _ _ => rfl) ?_
  cases m.idle id with
  | error e => exact blindPure _ rfl
  | ok device =>
    refine blindBind (blindModify (inertInside rfl rfl fun _ => rfl)) fun _ m₁ frame₁ => ?_
    rw [← frame₁] at running ⊢
    refine blindBind (blindDevice calls unit cycles id device m₁ running) fun outcome m₂ frame₂ => ?_
    rw [← frame₂]
    refine blindBind (blindModify (inertInside rfl rfl fun _ => rfl)) fun _ m₃ frame₃ => ?_
    rw [← frame₃]
    cases outcome with
    | none => exact blindPure _ rfl
    | some row =>
      exact blindBind (blindModify (inertInside rfl rfl fun _ => rfl)) fun _ _ => blindPure _

theorem blindSlice (unit : Nat) (target : Time) (m : Machine) (idle : m.frame = none) :
    Blind Records none (runSlice call unit target) m := by
  refine blindGet (fun _ _ => rfl) ?_
  cases m.units[unit]? with
  | none => exact blindPure _ idle
  | some p =>
    dsimp only
    generalize m.sliceEnd p.localTime target = finish
    generalize max (p.clock.cyclesCovering (finish - p.localTime)) 1 = cycles
    let f : Frame := ⟨unit, p.localTime, cycles, finish⟩
    let full : Int := (min cycles budgetLimit : Nat)
    have opened : Blind Records (some f)
        (modify fun m => { m with frame := some f, budget := full }) m :=
      blindShift rfl fun r _ => ⟨{ r with budget := full }, fun _ => rfl, rfl⟩
    have closed : ∀ m, Blind Records none (modify fun m => { m with frame := none }) m := fun m =>
      blindShift rfl fun r _ => ⟨r, fun running => absurd rfl running, rfl⟩
    refine blindBind opened fun _ m₁ frame₁ => ?_
    refine blindBind (blindModify (inertUnit m₁ unit _)) fun _ m₂ frame₂ => ?_
    refine blindBind (blindModify (inertTrace m₂ _)) fun _ m₃ frame₃ => ?_
    have running : m₃.frame ≠ none := by
      rw [frame₃, frame₂, frame₁]
      exact Option.some_ne_none f
    refine blindBind (blindGrant calls unit cycles p.device m₃ running) fun outcome m₄ _ => ?_
    refine blindBind (closed m₄) fun _ m₅ frame₅ => ?_
    rw [← frame₅]
    cases outcome with
    | none => exact blindModify (inertUnit m₅ unit _)
    | some row => exact blindModify (inertSettle unit cycles row.1 row.2 p.localTime m₅)

theorem blindDispatch (fired : Timer.Fired) (m : Machine) :
    Blind Records m.frame (dispatch call fired) m := by
  have rung := inertThen (inertCount m (·.timer))
    (inertTrace _ (.timerFired fired.owner fired.param fired.time))
  refine blindBind (blindModify rung) fun _ m₁ frame₁ => ?_
  rw [← frame₁]
  refine blindGet (fun _ _ => rfl) ?_
  dsimp only
  cases m₁.idle fired.owner with
  | error e => exact blindPure _ rfl
  | ok device =>
    cases device with
    | peripheral p =>
      exact blindLend (f := fun _ => pure PUnit.unit) (fun m => blindDiscard (calls _ m))
        fun _ _ => blindPure _ rfl
    | acc8 | sequencer =>
      exact blindLend (f := fun _ => pure PUnit.unit) (fun _ => blindPure () rfl)
        fun _ _ => blindPure _ rfl

theorem blindUntil (target : Time) (fuel : Nat) (m : Machine) (idle : m.frame = none) :
    Blind Records none (runUntil call target fuel) m := by
  induction fuel generalizing m with
  | zero => exact blindNone
  | succ fuel ih =>
    intro r fits
    unfold runUntil
    rw [Run.getBind, Run.getBind]
    dsimp only
    rw [show (Guise.wear m r).leastAdvanced? = m.leastAdvanced? from rfl,
      show (Guise.wear m r).timers = m.timers from rfl]
    generalize m.leastAdvanced?.elim target (fun row => min row.2 target) = limit
    cases m.timers.popDue limit with
    | some row =>
      have pops : Blind Records none (do dispatch call row.1; runUntil call target fuel)
          { m with timers := row.2 } :=
        blindBind (blindDispatch calls row.1 _) fun _ m₁ frame₁ => ih m₁ (frame₁.trans idle)
      exact pops r fits
    | none =>
      generalize m.timers.setNow limit = timers
      cases m.leastAdvanced? with
      | none => exact blindPure (m := { m with timers }) _ idle r fits
      | some row =>
        dsimp only
        split
        · exact blindPure (m := { m with timers }) _ idle r fits
        · have slice : Blind Records none (do runSlice call row.1 target; runUntil call target fuel)
              { m with timers } :=
            blindBind (blindSlice calls row.1 target _ idle) fun _ => ih
          exact slice r fits

theorem blindResetDevices (ids : List DeviceId) (m : Machine) :
    Blind Records m.frame (resetDevices call ids) m := by
  induction ids generalizing m with
  | nil => exact blindPure _ rfl
  | cons id rest ih =>
    refine blindGet (fun _ _ => rfl) ?_
    cases m.idle id with
    | error e => exact ih m
    | ok device =>
      cases device with
      | peripheral p => exact blindLend (fun m => blindDiscard (calls _ m)) fun _ m => ih m
      | acc8 | sequencer =>
        exact blindLend (f := fun _ => resetDevices call rest) (fun _ => blindPure () rfl)
          fun _ m => ih m

theorem blindReset (m : Machine) : Blind Records m.frame (reset call) m := by
  refine blindGet (fun _ _ => rfl) (blindBind (blindResetDevices calls _ m) fun _ m₁ frame₁ => ?_)
  rw [← frame₁]
  exact blindModify (inertRestarts m₁)

end

end

end Lockstep.Machine
