import Lockstep.Proofs.Alarms
import Lockstep.Proofs.Lived

/-! Timers that fire on a plain machine. A callback carries out the action of its timer, so
that its processor does on its own what the action says, and no other notices. -/
namespace Lockstep

namespace Machine
variable {m m' a b c : Machine} {plan : Plan} {index : Nat} {p : Processor} {f g : Solo → Solo}

structure Moves (plan : Plan) (index : Nat) (f : Solo → Solo) (m m' : Machine) : Prop where
  beside : Beside index m m'
  frame : m'.frame = m.frame
  solo : ∀ {s}, m.solo plan index = some s → m'.solo plan index = some (f s)

namespace Moves

theorem noted (h : Noted m m') : Moves plan index id m m' := by
  refine ⟨besideNoted h, ?_, fun alone => (soloNoted h).trans alone⟩
  obtain ⟨diag, journal, rfl⟩ := h
  rfl

theorem still (m : Machine) : Moves plan index id m m := noted ⟨m.diag, m.journal, rfl⟩

theorem trans (first : Moves plan index f a b) (rest : Moves plan index g b c) :
    Moves plan index (g ∘ f) a c :=
  ⟨first.beside.trans rest.beside, rest.frame.trans first.frame,
    fun alone => rest.solo (first.solo alone)⟩

theorem noting (first : Moves plan index f a b) (rest : Noted b c) : Moves plan index f a c :=
  first.trans (noted rest)

theorem same (h : Moves plan index f m m')
    (agree : ∀ s, m.solo plan index = some s → f s = g s) : Moves plan index g m m' :=
  ⟨h.beside, h.frame, fun {s} alone => agree s alone ▸ h.solo alone⟩

theorem stays (found : m.units[index]? = some p)
    (shows : ∀ cpu w, f (m.soloOf plan p cpu w) = m.soloOf plan p cpu w) :
    Moves plan index f m m := by
  refine ⟨.refl index m, rfl, fun {s} alone => ?_⟩
  obtain ⟨cpu, w, seated, wired, rfl⟩ := soloSeen found alone
  rw [shows]
  exact alone

theorem unit (found : m.units[index]? = some p) {change : Processor → Processor}
    (fixed : (change p).fixed = p.fixed)
    (shows : ∀ cpu w, m.soloOf plan (change p) cpu w = f (m.soloOf plan p cpu w)) :
    Moves plan index f m (m.modifyUnit index change) := by
  refine ⟨besideUnit fun q row => ?_, rfl, fun {s} alone => ?_⟩
  · rw [found] at row
    cases row
    exact fixed
  · obtain ⟨cpu, w, seated, wired, rfl⟩ := soloSeen found alone
    have device := (processorFixed fixed).1
    rw [← shows]
    exact soloFound (unitModified found change) (by rw [device]; exact seated)
      (by rw [device]; exact wired)

theorem device {seat : Seat} {cpu : Acc8} (found : m.units[index]? = some p)
    (seated : m.seat? p.device = some seat) (kind : seat.device = .acc8 cpu) (cpu' : Acc8)
    (shows : ∀ w, m.soloOf plan p cpu' w = f (m.soloOf plan p cpu w)) :
    Moves plan index f m (m.withDevice p.device (.acc8 cpu')) := by
  have beside := besideDevice found seated kind cpu'
  refine ⟨beside, rfl, fun {s} alone => ?_⟩
  obtain ⟨cpu₀, w, before, wired, rfl⟩ := soloSeen found alone
  rw [cpuFound seated kind] at before
  cases before
  have after := seatModify m p.device (fun s => { s with device := .acc8 cpu' }) p.device
  rw [if_pos rfl, seated] at after
  rw [← shows]
  exact soloFound found (cpuFound after rfl) ((beside.wiring _).trans wired)

end Moves

theorem attemptInv {change : Machine → Except AccessError Machine} {reply : Reply}
    (h : attempt change m = some (reply, m')) :
    change m = .ok m' ∨ (∃ e, change m = .error e) ∧ m' = m := by
  unfold attempt at h
  rw [Run.getBind] at h
  cases ran : change m with
  | ok s =>
    rw [ran] at h
    cases h
    exact .inl rfl
  | error e =>
    rw [ran] at h
    cases h
    exact .inr ⟨⟨e, rfl⟩, rfl⟩

theorem yieldIdle (idle : m.frame = none) : m.requestYield = m := by
  unfold requestYield
  rw [idle]

theorem nowMoves (idle : m.frame = none) (h : Moves plan index f m m') : m'.now = m.now := by
  unfold Machine.now
  rw [h.frame, idle, h.beside.timers]

theorem caughtUpFixed (p : Processor) (t : Time) : (p.catchUp t).fixed = p.fixed := by
  unfold Processor.catchUp
  split <;> rfl

theorem unitBeside (h : Beside index m m') {device : DeviceId} {p' : Processor}
    (unit : m.unit device = .ok (index, p)) (found : m'.units[index]? = some p') :
    m'.unit device = .ok (index, p') := by
  refine unitDevices (Array.ext_getElem? fun i => ?_) unit found
  simp only [Array.getElem?_map]
  by_cases here : i = index
  · subst here
    have fixed := congrArg (Option.map Prod.fst) h.fixed
    rw [Option.map_map, Option.map_map] at fixed
    exact fixed
  · rw [h.others here]

section
variable {device : DeviceId} {reasons : Suspension} (idle : m.frame = none)
  (unit : m.unit device = .ok (index, p))
include idle unit

theorem suspendMoves (ok : m.suspend device reasons = .ok m') :
    Moves plan index (Solo.suspend reasons) m m' := by
  obtain ⟨i, q, same, changed⟩ := suspendInv ok
  rw [unit] at same
  cases same
  have marked : Moves plan index (Solo.suspend reasons) m (m.modifyUnit index fun q =>
      { q with suspension := p.suspension.union reasons }) :=
    .unit (unitInv unit).2 rfl fun _ _ => rfl
  have quiet : ∀ {s : Machine}, Moves plan index (Solo.suspend reasons) m s →
      m' = s ∨ m' = s.requestYield → Moves plan index (Solo.suspend reasons) m m' := by
    intro s moves changed
    rw [yieldIdle (moves.frame.trans idle), or_self] at changed
    rw [changed]
    exact moves
  dsimp only at changed
  split at changed
  · exact quiet marked changed
  · exact quiet (marked.noting (notedTrace _ (.suspended device reasons))) changed

omit idle in
theorem resumeMoves (ok : m.resume device reasons = .ok m') :
    Moves plan index (Solo.resume m.now reasons) m m' := by
  obtain ⟨i, q, same, ⟨apart, rfl⟩ | ⟨meet, rfl⟩⟩ := resumeInv ok
  · rw [unit] at same
    cases same
    exact .stays (unitInv unit).2 fun _ _ => if_neg (ne_true_of_eq_false apart)
  · rw [unit] at same
    cases same
    refine (Moves.unit (unitInv unit).2 ?_ fun cpu w => ?_).noting (notedTrace _ _)
    · split
      · exact caughtUpFixed _ _
      · rfl
    · refine Eq.trans ?_ (if_pos meet).symm
      dsimp only
      change _ = if (p.suspension.diff reasons).isEmpty = true then _ else _
      split
      · unfold Processor.catchUp Solo.catchUp
        change _ = if p.localTime < m.now then _ else _
        dsimp only
        split <;> rfl
      · rfl

theorem resumeAfter {s : Machine} (first : Moves plan index f m s)
    (ok : s.resume device reasons = .ok m') :
    Moves plan index (Solo.resume m.now reasons ∘ f) m m' := by
  obtain ⟨p', found, -⟩ := first.beside.forth (unitInv unit).2
  rw [← nowMoves idle first]
  exact first.trans (resumeMoves (unitBeside first.beside unit found) ok)

omit idle in
theorem drivenMoves {line : Nat} {state : LineState} {vector : Option Nat}
    {lines : InputLines (Nat → Script)} (driven : p.lines.set? line state vector = some lines) :
    Moves plan index (fun s => { s with lines }) m
      ((m.modifyUnit index fun q => { q with lines }).trace
        (.inputLineChanged device line state)) := by
  have source : lines.source = p.lines.source := by
    unfold InputLines.set? at driven
    split at driven
    · cases driven
      rfl
    · cases driven
  exact (Moves.unit (unitInv unit).2 (by simp only [Processor.fixed, source])
    fun _ _ => rfl).noting (notedTrace _ _)

theorem driveMoves {line : Nat} {state : LineState} {vector : Option Nat}
    (ok : m.driveLine device line state vector = .ok m') :
    Moves plan index (Solo.drive m.now line state vector) m m' := by
  obtain ⟨i, q, lines, same, driven, rest⟩ := driveLineInv ok
  rw [unit] at same
  cases same
  have found := (unitInv unit).2
  have shows : ∀ s, m.solo plan index = some s → s.lines.set? line state vector = some lines ∧
      s.suspension = p.suspension := by
    intro s alone
    obtain ⟨cpu, w, -, -, rfl⟩ := soloSeen found alone
    exact ⟨driven, rfl⟩
  dsimp only at rest
  split at rest
  · rename_i spins
    refine (resumeAfter idle unit (drivenMoves unit driven) rest).same fun s alone => ?_
    obtain ⟨taken, reasons⟩ := shows s alone
    unfold Solo.drive
    rw [taken]
    dsimp only [Function.comp]
    rw [reasons, if_pos spins]
  · rename_i calm
    subst rest
    refine (drivenMoves unit driven).same fun s alone => ?_
    obtain ⟨taken, reasons⟩ := shows s alone
    unfold Solo.drive
    rw [taken]
    dsimp only
    rw [reasons, if_neg calm]

omit idle in
theorem restartMoves {seat : Seat} {cpu : Acc8} {s : Machine}
    (seated : m.seat? p.device = some seat) (kind : seat.device = .acc8 cpu)
    (reset : m.resetUnit index = .ok s) : Moves plan index Solo.restart m s := by
  have found := (unitInv unit).2
  rcases resetUnitInv reset with ⟨none, -⟩ | ⟨q, d, row, free, rfl⟩
  · rw [found] at none
    cases none
  · rw [found] at row
    cases row
    obtain ⟨node, row, rfl, -⟩ := idleInv free
    unfold seat? at seated
    rw [row] at seated
    cases seated
    rw [kind]
    have placed : Moves plan index (fun s => { s with cpu := s.cpu.reset }) m
        (m.withDevice p.device (.acc8 cpu.reset)) :=
      .device found (by rw [seat?, row]; rfl) kind cpu.reset fun _ => rfl
    exact placed.trans (.unit (m := m.withDevice p.device (.acc8 cpu.reset)) (f := fun s =>
      { s with
        lines := s.lines.clear
        suspension := s.suspension.diff { trapped := true } }) found rfl fun _ _ => rfl)

theorem resetMoves {seat : Seat} {cpu : Acc8} (seated : m.seat? p.device = some seat)
    (kind : seat.device = .acc8 cpu) {asserted : Bool}
    (ok : m.driveReset device asserted = .ok m') :
    Moves plan index (Solo.perform m.now · (.reset asserted)) m m' := by
  have found := (unitInv unit).2
  rcases driveResetInv ok with ⟨rfl, ok⟩ | ⟨rfl, i, q, same, rest⟩
  · exact suspendMoves idle unit ok
  · rw [unit] at same
    cases same
    rcases rest with ⟨released, rfl⟩ | ⟨held, s, reset, ok⟩
    · exact .stays found fun _ _ => if_neg (ne_true_of_eq_false released)
    · refine (resumeAfter idle unit (restartMoves unit seated kind reset) ok).same fun s alone => ?_
      obtain ⟨cpu, w, -, -, rfl⟩ := soloSeen found alone
      exact (if_pos held).symm

theorem spinMoves (ok : m.spinUntilInterrupt device = .ok m') :
    Moves plan index (Solo.perform m.now · .spin) m m' := by
  have found := (unitInv unit).2
  unfold spinUntilInterrupt at ok
  rw [unit] at ok
  change (if p.lines.anyActive then Except.ok m else m.suspend device { spin := true }) = _ at ok
  split at ok
  · rename_i active
    cases ok
    exact .stays found fun _ _ => if_pos active
  · rename_i calm
    refine (suspendMoves idle unit ok).same fun s alone => ?_
    obtain ⟨cpu, w, -, -, rfl⟩ := soloSeen found alone
    exact (if_neg calm).symm

omit idle in
theorem suspendFails {e : AccessError} : m.suspend device reasons ≠ .error e := by
  unfold suspend
  rw [unit]
  intro same
  cases same

omit idle in
theorem resumeFails {e : AccessError} : m.resume device reasons ≠ .error e := by
  unfold resume
  rw [unit]
  intro failed
  change (if !p.suspension.intersects reasons then _ else _) = _ at failed
  split at failed <;> cases failed

omit idle in
theorem driveFails {line : Nat} {state : LineState} {vector : Option Nat} {e : AccessError}
    (failed : m.driveLine device line state vector = .error e) :
    p.lines.set? line state vector = none := by
  cases driven : p.lines.set? line state vector with
  | none => rfl
  | some lines =>
    have marked : Moves (fun _ _ => none) index (fun s => { s with lines }) m
        ((m.modifyUnit index fun q => { q with lines }).trace
          (.inputLineChanged device line state)) := drivenMoves unit driven
    obtain ⟨p', found, -⟩ := marked.beside.forth (unitInv unit).2
    have wakes := unitBeside marked.beside unit found
    unfold driveLine at failed
    rw [unit] at failed
    simp only [bind, Except.bind, driven] at failed
    split at failed
    · exact absurd failed (resumeFails wakes)
    · cases failed

omit idle in
theorem spinFails {e : AccessError} : m.spinUntilInterrupt device ≠ .error e := by
  unfold spinUntilInterrupt
  rw [unit]
  intro failed
  change (if p.lines.anyActive then _ else _) = _ at failed
  split at failed
  · cases failed
  · exact suspendFails unit failed

omit idle in
theorem resetFails {seat : Seat} {cpu : Acc8} (seated : m.seat? p.device = some seat)
    (kind : seat.device = .acc8 cpu) (free : seat.busy = false) {asserted : Bool}
    {e : AccessError} : m.driveReset device asserted ≠ .error e := by
  unfold driveReset
  intro failed
  split at failed
  · exact suspendFails unit failed
  · rw [unit] at failed
    change (if !p.suspension.reset then _ else _) = _ at failed
    split at failed
    · cases failed
    · cases reset : m.resetUnit index with
      | error e =>
        unfold resetUnit at reset
        rw [(unitInv unit).2] at reset
        dsimp only at reset
        rw [idleSeat seated free] at reset
        cases reset
      | ok s =>
        rw [reset] at failed
        have restarted : Moves (fun _ _ => none) index Solo.restart m s :=
          restartMoves unit seated kind reset
        obtain ⟨p', found, -⟩ := restarted.beside.forth (unitInv unit).2
        exact resumeFails (unitBeside restarted.beside unit found) failed

theorem actionMoves {seat : Seat} {cpu : Acc8} (seated : m.seat? p.device = some seat)
    (kind : seat.device = .acc8 cpu) (free : seat.busy = false) {call : Callback} (action : Action)
    {reply : Reply} (h : Command.run call (action.command device) m = some (reply, m')) :
    Moves plan index (Solo.perform m.now · action) m m' := by
  have found := (unitInv unit).2
  cases action with
  | drive line state vector =>
    rcases attemptInv h with ok | ⟨⟨e, failed⟩, rfl⟩
    · exact driveMoves idle unit ok
    · refine .stays found fun cpu w => ?_
      have unknown : (m'.soloOf plan p cpu w).lines.set? line state vector = none :=
        driveFails unit failed
      simp only [Solo.perform, Solo.drive, unknown]
  | suspend reasons =>
    rcases attemptInv h with ok | ⟨⟨e, failed⟩, -⟩
    · exact suspendMoves idle unit ok
    · exact absurd failed (suspendFails unit)
  | resume reasons =>
    rcases attemptInv h with ok | ⟨⟨e, failed⟩, -⟩
    · exact resumeMoves unit ok
    · exact absurd failed (resumeFails unit)
  | spin =>
    rcases attemptInv h with ok | ⟨⟨e, failed⟩, -⟩
    · exact spinMoves idle unit ok
    · exact absurd failed (spinFails unit)
  | reset asserted =>
    rcases attemptInv h with ok | ⟨⟨e, failed⟩, -⟩
    · exact resetMoves idle unit seated kind ok
    · exact absurd failed (resetFails unit seated kind free)

end

theorem actionMissing {device : DeviceId} {e : AccessError} (missing : m.unit device = .error e)
    {call : Callback} (action : Action) {reply : Reply}
    (h : Command.run call (action.command device) m = some (reply, m')) : m' = m := by
  have fails : ∀ {change : Machine → Except AccessError Machine},
      attempt change m = some (reply, m') → (∃ e, change m = .error e) → m' = m := by
    rintro change ran ⟨e, failed⟩
    rcases attemptInv ran with ok | ⟨-, same⟩
    · rw [failed] at ok
      cases ok
    · exact same
  have suspends : ∀ reasons, m.suspend device reasons = .error e := by
    intro reasons
    unfold suspend
    rw [missing]
    rfl
  cases action with
  | drive line state vector =>
    refine fails h ⟨e, ?_⟩
    unfold driveLine
    rw [missing]
    rfl
  | suspend reasons => exact fails h ⟨e, suspends reasons⟩
  | resume reasons =>
    refine fails h ⟨e, ?_⟩
    unfold resume
    rw [missing]
    rfl
  | spin =>
    refine fails h ⟨e, ?_⟩
    unfold spinUntilInterrupt
    rw [missing]
    rfl
  | reset asserted =>
    refine fails h ⟨e, ?_⟩
    unfold driveReset
    split
    · exact suspends _
    · rw [missing]
      rfl

theorem notedEnter (m : Machine) (entry : Activity) : Noted m (m.enter entry) :=
  ⟨m.diag, m.journal.push entry, rfl⟩

def CarriesOut (call : Callback) (m m' : Machine) : Option Command → Prop
  | none => Noted m m'
  | some command => ∃ a b reply, Noted m a ∧ Command.run call command a = some (reply, b) ∧
      Noted b m'

theorem performsInv {call : Callback} {command : Option Command} {script : Script}
    (performs : Performs command script) {reply : Reply}
    (h : Script.run call script m = some (reply, m')) : CarriesOut call m m' command := by
  induction performs generalizing m with
  | done reply =>
    cases h
    exact ⟨m'.diag, m'.journal, rfl⟩
  | @now command next rest ih =>
    exact ih m.now h
  | @note command entry next rest ih =>
    have entered := notedEnter m entry
    have rest := ih (m := m.enter entry) h
    cases command with
    | none => exact notedTrans entered rest
    | some command =>
      obtain ⟨a, b, reply, first, ran, last⟩ := rest
      exact ⟨a, b, reply, notedTrans entered first, ran, last⟩
  | @act command next rest ih =>
    obtain ⟨reply, b, ran, h⟩ := Run.bindInv h
    exact ⟨m, b, reply, ⟨m.diag, m.journal, rfl⟩, ran, ih reply h⟩

theorem soloBusy (m : Machine) (id : DeviceId) (busy : Bool) :
    (m.setBusy id busy).solo plan index = m.solo plan index := by
  have cpu : ∀ other, (m.setBusy id busy).cpu? other = m.cpu? other := by
    intro other
    unfold cpu?
    rw [busySeen (fun _ => rfl) m id other]
  unfold solo
  simp only [cpu, busyWiring]
  rfl

theorem busyMoves {id : DeviceId} (free : ∀ {seat}, m.seat? id = some seat → seat.busy = false)
    (h : Moves plan index f (m.setBusy id true) m') :
    Moves plan index f m (m'.setBusy id false) := by
  refine ⟨besideBusy free h.beside, h.frame, fun {s} alone => ?_⟩
  rw [soloBusy]
  exact h.solo ((soloBusy m id true).trans alone)

theorem unitNone {device : DeviceId} {e : AccessError} (missing : m.unit device = .error e) {i : Nat}
    {q : Processor} (found : m.units[i]? = some q) : q.device ≠ device := by
  intro same
  have place : m.unitIndex? device ≠ none := by
    intro none
    have away := Array.findIdx?_eq_none_iff.mp none q (Array.mem_of_getElem? found)
    simp [same] at away
  obtain ⟨j, place⟩ := Option.ne_none_iff_exists'.mp place
  have inside := Array.of_findIdx?_eq_some place
  unfold Machine.unit at missing
  rw [place, Option.bind_some] at missing
  cases row : m.units[j]? with
  | none =>
    rw [row] at inside
    cases inside
  | some q =>
    rw [row] at missing
    cases missing

theorem carriedMoves {call : Callback} {device : DeviceId} {action : Action} (idle : m.frame = none)
    (ready : ∀ {i : Nat} {q : Processor}, m.units[i]? = some q → ∃ seat cpu,
      m.seat? q.device = some seat ∧ seat.device = .acc8 cpu ∧ seat.busy = false)
    (h : CarriesOut call m m' (some (action.command device))) :
    (∃ index p, m.units[index]? = some p ∧ p.device = device ∧
      Moves plan index (Solo.perform m.now · action) m m') ∨
    (∀ {i : Nat} {q : Processor}, m.units[i]? = some q → q.device ≠ device) ∧
      ∀ i, Moves plan i id m m' := by
  obtain ⟨a, b, reply, ⟨diag, journal, rfl⟩, ran, last⟩ := h
  have first : Noted m { m with diag, journal } := ⟨diag, journal, rfl⟩
  cases unit : m.unit device with
  | error e =>
    have same := actionMissing (m := { m with diag, journal }) unit action ran
    subst same
    exact .inr ⟨unitNone unit, fun i => .noted (notedTrans first last)⟩
  | ok row =>
    obtain ⟨index, p⟩ := row
    have found := (unitInv unit).2
    obtain ⟨seat, cpu, seated, kind, free⟩ := ready found
    have moved : Moves plan index (Solo.perform m.now · action) { m with diag, journal } b :=
      actionMoves (m := { m with diag, journal }) idle unit seated kind free action ran
    exact .inl ⟨index, p, found, unitFound unit, ((Moves.noted first).trans moved).noting last⟩

theorem unplanned (plain : Plain plan m) {owner : DeviceId} {param : Nat}
    (other : ∀ p, m.idle owner ≠ .ok (.peripheral p)) : plan owner param = none := by
  by_contra planned
  obtain ⟨seat, p, found, kind⟩ := plain.only planned
  have taken := idleSeat found (plain.free found)
  rw [kind] at taken
  exact other p taken

theorem aimedNone {owner : DeviceId} {param : Nat} (free : plan owner param = none)
    (device : DeviceId) : plan.aimed device owner param = none := by
  simp [Plan.aimed, free]

theorem readyBusy (plain : Plain plan m) {owner : DeviceId} {seat : Seat} {p : Peripheral}
    (owned : m.seat? owner = some seat) (kind : seat.device = .peripheral p) {i : Nat}
    {q : Processor} (found : m.units[i]? = some q) : ∃ seat cpu,
      (m.setBusy owner true).seat? q.device = some seat ∧ seat.device = .acc8 cpu ∧
        seat.busy = false := by
  obtain ⟨-, ⟨cpu, seated⟩, -⟩ := plain.unit found
  obtain ⟨seat', found', kind'⟩ := cpuInv seated
  have away : q.device ≠ owner := by
    intro same
    rw [same, owned] at found'
    cases found'
    rw [kind] at kind'
    cases kind'
  refine ⟨seat', cpu, ?_, kind', plain.free found'⟩
  rw [setBusy, seatModify, if_neg away]
  exact found'

theorem dispatchMoves (plain : Plain plan m) (idle : m.frame = none) {depth : Nat}
    {fired : Timer.Fired} {u : Unit} (h : dispatch (invoke depth) fired m = some (u, m')) :
    (∃ index p action, m.units[index]? = some p ∧
      plan fired.owner fired.param = some (p.device, action) ∧
        Moves plan index (Solo.perform m.now · action) m m') ∨
    (∀ {i : Nat} {q : Processor}, m.units[i]? = some q →
      plan.aimed q.device fired.owner fired.param = none) ∧ ∀ i, Moves plan i id m m' := by
  unfold dispatch at h
  rw [Run.modifyBind] at h
  have noted := notedTrans (notedCount m (·.timer))
    (notedTrace _ (.timerFired fired.owner fired.param fired.time))
  obtain ⟨diag, journal, same⟩ := noted
  rw [same, Run.getBind] at h
  have noted : Noted m { m with diag, journal } := ⟨diag, journal, rfl⟩
  have beside : Beside 0 m { m with diag, journal } := besideNoted noted
  have plain₀ := plainBeside plain beside
  cases taken : ({ m with diag, journal } : Machine).idle fired.owner with
  | error e =>
    rw [taken] at h
    cases h
    have none : plan fired.owner fired.param = none := unplanned plain₀ fun p => by
      rw [taken]
      intro same
      cases same
    exact .inr ⟨fun _ => aimedNone none _, fun i => .noted noted⟩
  | ok d =>
    rw [taken] at h
    dsimp only at h
    obtain ⟨node, row, rfl, -⟩ := idleInv taken
    have owned : ({ m with diag, journal } : Machine).seat? fired.owner = some node.device := by
      rw [seat?, row]
      rfl
    have free : ∀ {seat}, ({ m with diag, journal } : Machine).seat? fired.owner = some seat →
        seat.busy = false := plain₀.free
    cases kind : node.device.device with
    | peripheral p =>
      rw [kind] at h
      obtain ⟨_, m₁, called, rest⟩ := Run.bindInv h
      cases called
      obtain ⟨_, m₂, called, rest⟩ := Run.bindInv rest
      cases rest
      obtain ⟨reply, m₃, called, rest⟩ := Run.bindInv
        (f := fun _ => (Pure.pure PUnit.unit : Run PUnit)) called
      cases rest
      cases depth with
      | zero => cases called
      | succ depth =>
        have carried := performsInv (plain₀.planned owned kind fired _ rfl) called
        unfold Plan.command at carried
        cases planned : plan fired.owner fired.param with
        | none =>
          rw [planned] at carried
          refine .inr ⟨fun _ => aimedNone planned _, fun i => ?_⟩
          exact (Moves.noted noted).trans (busyMoves free (.noted carried))
        | some goal =>
          obtain ⟨device, action⟩ := goal
          rw [planned] at carried
          rcases carriedMoves (m := Machine.setBusy { m with diag, journal } fired.owner true) idle
            (readyBusy plain₀ owned kind) carried with
            ⟨index, q, found, rfl, moved⟩ | ⟨away, still⟩
          · exact .inl ⟨index, q, action, found, rfl,
              (Moves.noted noted).trans (busyMoves free moved)⟩
          · refine .inr ⟨fun found => ?_, fun i =>
              (Moves.noted noted).trans (busyMoves free (still i))⟩
            simp [Plan.aimed, planned, (away found).symm]
    | acc8 | sequencer =>
      rw [kind] at h
      cases h
      have none : plan fired.owner fired.param = none := unplanned plain₀ fun p => by
        rw [taken, kind]
        intro same
        cases same
      exact .inr ⟨fun _ => aimedNone none _, fun i =>
        (Moves.noted noted).trans (busyMoves free (.still _))⟩

end Machine

end Lockstep
