import Mathlib.Logic.Relation
import Lockstep.Proofs.Processor

/-! A processor on its own: its registers and lines, the bytes it reaches, its time, and
the actions that timers aim at it. It goes on from one boundary to the next, or the next
alarm rings; which of the two is decided by its own time and the target alone. -/
namespace Lockstep

inductive Reach where
  | program (address : UInt16)
  | io (address : UInt8)
  deriving DecidableEq, Repr

abbrev Bytes := Reach → Option UInt8

inductive Action where
  | drive (line : Nat) (state : LineState) (vector : Option Nat)
  | suspend (reasons : Suspension)
  | resume (reasons : Suspension)
  | spin
  | reset (asserted : Bool)
  deriving DecidableEq, Repr

structure Alarm where
  time : Time
  period : Time
  action : Action
  deriving DecidableEq, Repr

def Alarm.insert (a : Alarm) : List Alarm → List Alarm
  | [] => [a]
  | head :: rest => if a.time < head.time then a :: head :: rest else head :: a.insert rest

def Alarm.next (a : Alarm) (rest : List Alarm) : List Alarm :=
  if a.period.isZero then rest else { a with time := a.time + a.period }.insert rest

/-- A processor and what there is of the machine for it. A write at an address changes the
bytes at the addresses that share it. -/
structure Solo where
  clock : ClockRate
  cpu : Acc8
  lines : InputLines (Nat → Script)
  suspension : Suspension
  localTime : Time
  totalCycles : Nat
  bytes : Bytes
  shares : Reach → Reach → Bool
  alarms : List Alarm

namespace Solo

def period (s : Solo) : Time := max (s.clock.period?.getD .never) (.ofAttos 1)

def isLive (s : Solo) : Bool := s.suspension.isEmpty

def poke (shares : Reach → Reach → Bool) (target : Reach) (value : UInt8) (bytes : Bytes) : Bytes :=
  fun other => if shares target other then (bytes other).map fun _ => value else bytes other

def port (shares : Reach → Reach → Bool) : Acc8.Port (StateM Bytes) where
  read a := do return ((← get) (.program a)).getD 0xFF
  write a v := modify (poke shares (.program a) v)
  input a := do return ((← get) (.io a)).getD 0xFF
  output a v := modify (poke shares (.io a) v)

def spend (cycles : Nat) (s : Solo) : Solo :=
  { s with
    localTime := s.localTime + s.period.scale cycles
    totalCycles := Word.add s.totalCycles cycles }

def prepare (s : Solo) : Solo :=
  let cpu :=
    if s.cpu.fetchResetVector then
      { s.cpu with
        fetchResetVector := false
        pc := (Acc8.readWord (port s.shares) Acc8.resetVector s.bytes).1 }
    else s.cpu
  { s with cpu := if cpu.runState = .stopped then { cpu with runState := .running } else cpu }

def accept (lines : InputLines (Nat → Script)) (line : Nat) : Nat × InputLines (Nat → Script) :=
  match lines.acknowledge? line with
  | some (lines, .stored vector) => (vector.getD line, lines)
  | some (lines, .ask _) => (line, lines)
  | none => (line, lines)

def turn (s : Solo) : Solo :=
  match s.cpu.pending (s.lines.isActive Acc8.nmiLine) (s.lines.isActive Acc8.irqLine) with
  | (cpu, some line) =>
      let (vector, lines) := accept s.lines line
      let entered := cpu.enter (port s.shares) vector s.bytes
      { s with cpu := entered.1, lines, bytes := entered.2 }.spend Acc8.interruptCycles
  | (cpu, none) =>
      if cpu.runState = .waiting then { s with cpu }.spend 1
      else
        let stepped := cpu.step (port s.shares) s.bytes
        { s with cpu := stepped.1.1, bytes := stepped.2 }.spend stepped.1.2

def settle (s : Solo) : Solo :=
  if s.cpu.runState.isTrapped then { s with suspension := s.suspension.union { trapped := true } }
  else s

def tick (s : Solo) : Solo := s.prepare.turn.settle

def catchUp (now : Time) (s : Solo) : Solo :=
  if s.localTime < now then { s with localTime := now } else s

def suspend (reasons : Suspension) (s : Solo) : Solo :=
  { s with suspension := s.suspension.union reasons }

def resume (now : Time) (reasons : Suspension) (s : Solo) : Solo :=
  if s.suspension.intersects reasons then
    let t := { s with suspension := s.suspension.diff reasons }
    if t.isLive then t.catchUp now else t
  else s

def drive (now : Time) (line : Nat) (state : LineState) (vector : Option Nat) (s : Solo) : Solo :=
  match s.lines.set? line state vector with
  | none => s
  | some lines =>
      let t := { s with lines }
      if state.isActive && s.suspension.spin then t.resume now { spin := true } else t

def restart (s : Solo) : Solo :=
  { s with
    cpu := s.cpu.reset
    lines := s.lines.clear
    suspension := s.suspension.diff { trapped := true } }

def perform (now : Time) (s : Solo) : Action → Solo
  | .drive line state vector => s.drive now line state vector
  | .suspend reasons => s.suspend reasons
  | .resume reasons => s.resume now reasons
  | .spin => if s.lines.anyActive then s else s.suspend { spin := true }
  | .reset true => s.suspend { reset := true }
  | .reset false =>
      if s.suspension.reset then s.restart.resume now { reset := true } else s

def ring (s : Solo) (a : Alarm) (rest : List Alarm) : Solo :=
  { s.perform a.time a.action with alarms := a.next rest }

def Due (target : Time) (s : Solo) (a : Alarm) : Prop :=
  a.time ≤ target ∧ (s.isLive = true → a.time ≤ s.localTime)

instance (target : Time) (s : Solo) (a : Alarm) : Decidable (s.Due target a) := by
  unfold Due; infer_instance

def advance? (target : Time) (s : Solo) : Option Solo :=
  if s.isLive = true ∧ s.localTime < target then some s.tick else none

def next? (target : Time) (s : Solo) : Option Solo :=
  match s.alarms with
  | [] => s.advance? target
  | a :: rest => if s.Due target a then some (s.ring a rest) else s.advance? target

def Path (target : Time) : Solo → Solo → Prop :=
  Relation.ReflTransGen fun s t => s.next? target = some t

variable {s t u : Solo} {target later : Time}

theorem pathEnds (first : Path target s t) (second : Path target s u)
    (done : t.next? target = none) (done' : u.next? target = none) : t = u := by
  have unique : Relator.RightUnique fun s t : Solo => s.next? target = some t := by
    intro a b c left right
    rw [left] at right
    exact Option.some.inj right
  have stays : ∀ {a b : Solo}, a.next? target = none → Path target a b → a = b := by
    intro a b done path
    cases path.cases_head with
    | inl same => exact same
    | inr step =>
      obtain ⟨c, step, -⟩ := step
      rw [done] at step
      cases step
  rcases first.total_of_right_unique unique second with path | path
  · exact stays done path
  · exact (stays done' path).symm

theorem advanceLater (h : s.advance? target = some t) (before : target ≤ later) :
    s.isLive = true ∧ s.localTime < target ∧ s.advance? later = some t := by
  unfold advance? at h ⊢
  split at h
  · rename_i goes
    obtain ⟨live, early⟩ := goes
    rw [if_pos ⟨live, Nat.lt_of_lt_of_le early before⟩]
    exact ⟨live, early, h⟩
  · cases h

theorem nextLater (h : s.next? target = some t) (before : target ≤ later) :
    s.next? later = some t := by
  unfold next? at h ⊢
  cases alarms : s.alarms with
  | nil =>
    rw [alarms] at h
    exact (advanceLater h before).2.2
  | cons a rest =>
    rw [alarms] at h
    dsimp only at h ⊢
    split at h
    · rename_i due
      rw [if_pos ⟨Nat.le_trans due.1 before, due.2⟩]
      exact h
    · rename_i early
      obtain ⟨live, behind, goes⟩ := advanceLater h before
      -- an alarm that was not due before `target` is not due later: the processor is behind both
      have late : ¬ s.Due later a := by
        intro due
        have first := due.2 live
        exact early ⟨Nat.le_of_lt (Nat.lt_of_le_of_lt first behind), fun _ => first⟩
      rw [if_neg late]
      exact goes

theorem pathLater (path : Path target s t) (before : target ≤ later) : Path later s t := by
  induction path with
  | refl => exact .refl
  | tail _ step ih => exact ih.tail (nextLater step before)

section
variable {next : Acc8} {line : Nat}

theorem turnEnter (accepted : s.cpu.pending (s.lines.isActive Acc8.nmiLine)
    (s.lines.isActive Acc8.irqLine) = (next, some line)) :
    s.turn = { s with
      cpu := (next.enter (port s.shares) (accept s.lines line).1 s.bytes).1
      lines := (accept s.lines line).2
      bytes := (next.enter (port s.shares) (accept s.lines line).1 s.bytes).2 }.spend
        Acc8.interruptCycles := by
  unfold turn
  rw [accepted]

theorem turnWait (accepted : s.cpu.pending (s.lines.isActive Acc8.nmiLine)
    (s.lines.isActive Acc8.irqLine) = (next, none)) (waiting : next.runState = .waiting) :
    s.turn = { s with cpu := next }.spend 1 := by
  unfold turn
  rw [accepted]
  exact if_pos waiting

theorem turnStep (accepted : s.cpu.pending (s.lines.isActive Acc8.nmiLine)
    (s.lines.isActive Acc8.irqLine) = (next, none)) (awake : next.runState ≠ .waiting) :
    s.turn = { s with
      cpu := (next.step (port s.shares) s.bytes).1.1
      bytes := (next.step (port s.shares) s.bytes).2 }.spend
        (next.step (port s.shares) s.bytes).1.2 := by
  unfold turn
  rw [accepted]
  exact if_neg awake

end

theorem addScale (t period : Time) (a b : Nat) :
    t + period.scale a + period.scale b = t + period.scale (a + b) := by
  apply Time.ext
  simp only [Time.attos_add, Time.attos_scale, Nat.mul_add]
  have := t.bounded
  omega

theorem spendSpend (a b : Nat) (s : Solo) : (s.spend a).spend b = s.spend (a + b) := by
  have cycles : Word.add (Word.add s.totalCycles a) b = Word.add s.totalCycles (a + b) := by
    simp only [Word.add, Word.clamp]
    omega
  have time := addScale s.localTime s.period a b
  simp only [spend, period] at *
  rw [time, cycles]

theorem spendTurn (cycles : Nat) (s : Solo) : (s.spend cycles).turn = s.turn.spend cycles := by
  have swap : ∀ (t : Solo) (k : Nat), (t.spend cycles).spend k = (t.spend k).spend cycles := by
    intro t k
    rw [spendSpend, spendSpend, Nat.add_comm]
  unfold turn
  rw [show (s.spend cycles).cpu = s.cpu from rfl, show (s.spend cycles).lines = s.lines from rfl]
  rcases s.cpu.pending (s.lines.isActive Acc8.nmiLine) (s.lines.isActive Acc8.irqLine)
    with ⟨cpu, _ | line⟩
  · dsimp only
    split
    · exact swap { s with cpu } 1
    · exact swap { s with cpu := _, bytes := _ } _
  · exact swap { s with cpu := _, lines := _, bytes := _ } _

theorem turnSpent (s : Solo) : s.turn.spend 0 = s.turn := by
  have again : ∀ (t : Solo) (k : Nat), (t.spend k).spend 0 = t.spend k := fun t k => spendSpend k 0 t
  unfold turn
  rcases s.cpu.pending (s.lines.isActive Acc8.nmiLine) (s.lines.isActive Acc8.irqLine)
    with ⟨cpu, _ | line⟩
  · dsimp only
    split
    · exact again { s with cpu } 1
    · exact again { s with cpu := _, bytes := _ } _
  · exact again { s with cpu := _, lines := _, bytes := _ } _

def Prepared (cpu : Acc8) : Prop := cpu.fetchResetVector = false ∧ cpu.runState ≠ .stopped

theorem preparedPrepare (s : Solo) : Prepared s.prepare.cpu := by
  have started : ∀ cpu : Acc8, cpu.fetchResetVector = false →
      Prepared (if cpu.runState = .stopped then { cpu with runState := .running } else cpu) := by
    intro cpu fetched
    split
    · exact ⟨fetched, fun h => by cases h⟩
    · rename_i going
      exact ⟨fetched, going⟩
  refine started _ ?_
  split
  · rfl
  · rename_i fetched
    simpa using fetched

theorem prepareSane (sane : s.cpu.runState.isTrapped = false) :
    s.prepare.cpu.runState.isTrapped = false := by
  have started : ∀ cpu : Acc8, cpu.runState = s.cpu.runState →
      (if cpu.runState = .stopped then { cpu with runState := .running } else cpu :
        Acc8).runState.isTrapped = false := by
    intro cpu same
    split
    · rfl
    · rw [same]
      exact sane
  refine started _ ?_
  split <;> rfl

theorem prepareId (h : Prepared s.cpu) : s.prepare = s := by
  unfold prepare
  simp [h.1, h.2]

section
variable (shares : Reach → Reach → Bool) (cpu : Acc8) (bytes : Bytes)

theorem fetchAlone : cpu.fetch (port shares) bytes =
    (((bytes (.program cpu.pc)).getD 0xFF, { cpu with pc := cpu.pc + 1 }), bytes) := rfl

theorem executeMode (op : Acc8.Opcode) :
    (cpu.execute (port shares) op bytes).1.1.fetchResetVector = cpu.fetchResetVector ∧
      ((cpu.execute (port shares) op bytes).1.1.runState = cpu.runState ∨
        (cpu.execute (port shares) op bytes).1.1.runState = .waiting) := by
  cases op with
  | bne | beq =>
    simp only [Acc8.execute, bind, StateT.bind, fetchAlone]
    cases cpu.flags.zero <;> exact ⟨rfl, .inl rfl⟩
  | halt => exact ⟨rfl, .inr rfl⟩
  | _ => exact ⟨rfl, .inl rfl⟩

theorem stepPrepared (h : Prepared cpu) : Prepared (cpu.step (port shares) bytes).1.1 := by
  unfold Acc8.step
  simp only [bind, StateT.bind, fetchAlone]
  cases Acc8.Opcode.decode? ((bytes (.program cpu.pc)).getD 0xFF) with
  | none =>
    cases cpu.options.illegalFatal with
    | true => exact ⟨h.1, fun h => by cases h⟩
    | false => exact h
  | some op =>
    obtain ⟨same, kept⟩ := executeMode shares { cpu with pc := cpu.pc + 1 } bytes op
    refine ⟨same.trans h.1, ?_⟩
    change ((Acc8.execute (port shares) op { cpu with pc := cpu.pc + 1 }) bytes).1.1.runState ≠ _
    rcases kept with kept | kept
    · rw [kept]
      exact h.2
    · rw [kept]
      intro same
      cases same

theorem enterPrepared (vector : Nat) (h : Prepared cpu) :
    Prepared (cpu.enter (port shares) vector bytes).1 := by
  unfold Acc8.enter
  split
  · exact ⟨h.1, fun h => by cases h⟩
  · exact ⟨h.1, fun h => by cases h⟩

theorem pendingPrepared (nmi irq : Bool) (h : Prepared cpu) : Prepared (cpu.pending nmi irq).1 := by
  unfold Acc8.pending
  split
  · exact h
  · exact h

theorem pendingTwice {nmi irq : Bool} {cpu' : Acc8} (h : cpu.pending nmi irq = (cpu', none)) :
    cpu'.pending nmi irq = (cpu', none) := by
  unfold Acc8.pending at h ⊢
  split at h
  · cases h
  · rename_i calm
    obtain ⟨rfl, masked⟩ := Prod.mk.inj h
    have again : ¬(nmi && !nmi) = true := by simp
    dsimp only
    rw [if_neg again, masked]

end

theorem turnPrepared (h : Prepared s.cpu) : Prepared s.turn.cpu := by
  have pending := pendingPrepared s.cpu (s.lines.isActive Acc8.nmiLine)
    (s.lines.isActive Acc8.irqLine) h
  unfold turn
  rcases accepted : s.cpu.pending (s.lines.isActive Acc8.nmiLine) (s.lines.isActive Acc8.irqLine)
    with ⟨cpu, _ | line⟩ <;> rw [accepted] at pending
  · dsimp only
    split
    · exact pending
    · exact stepPrepared s.shares cpu s.bytes pending
  · exact enterPrepared s.shares cpu s.bytes _ pending

theorem tickPrepared (h : Prepared s.cpu) : s.tick = s.turn.settle := by
  rw [tick, prepareId h]

theorem tickEntered (s : Solo) : (s.prepare.spend 0).tick = s.tick := by
  have entered : Prepared (s.prepare.spend 0).cpu := preparedPrepare s
  rw [tickPrepared entered, spendTurn, turnSpent, tick]

def Ticks (upto : Time) (s t : Solo) : Prop :=
  s.isLive = true ∧ s.localTime ≤ upto ∧ t = s.tick

theorem waitTicks {cpu : Acc8} {upto : Time} (prepared : Prepared s.cpu) (live : s.isLive = true)
    (quiet : s.cpu.pending (s.lines.isActive Acc8.nmiLine) (s.lines.isActive Acc8.irqLine) =
      (cpu, none)) (waiting : cpu.runState = .waiting) (cycles : Nat)
    (early : ∀ k ≤ cycles, (s.spend k).localTime ≤ upto) :
    Relation.TransGen (Ticks upto) s ({ s with cpu }.spend (cycles + 1)) := by
  have one : ∀ t : Solo, Prepared t.cpu → t.cpu.pending (t.lines.isActive Acc8.nmiLine)
      (t.lines.isActive Acc8.irqLine) = (cpu, none) → t.tick = { t with cpu }.spend 1 := by
    intro t prepared quiet
    rw [tickPrepared prepared, turnWait quiet waiting]
    simp [waiting, settle, spend, RunState.isTrapped, RunState.trap?]
  have pending := pendingPrepared s.cpu (s.lines.isActive Acc8.nmiLine)
    (s.lines.isActive Acc8.irqLine) prepared
  rw [quiet] at pending
  induction cycles with
  | zero =>
    have now := early 0 (Nat.le_refl _)
    have start : s.localTime ≤ (s.spend 0).localTime := by
      simp only [spend, Time.le_def, Time.attos_add]
      have := s.localTime.bounded
      omega
    exact .single ⟨live, Nat.le_trans start now, (one s prepared quiet).symm⟩
  | succ cycles ih =>
    refine (ih fun k less => early k (by omega)).tail
      ⟨live, early (cycles + 1) (Nat.le_refl _), ?_⟩
    rw [one _ pending (pendingTwice s.cpu quiet)]
    exact (spendSpend (cycles + 1) 1 { s with cpu }).symm

theorem ticksEntered {upto : Time} (live : s.isLive = true) (early : s.localTime ≤ upto)
    (ticks : Relation.TransGen (Ticks upto) (s.prepare.spend 0) t) :
    Relation.ReflTransGen (Ticks upto) s t := by
  obtain ⟨first, ⟨-, -, rfl⟩, rest⟩ := Relation.TransGen.head'_iff.mp ticks
  rw [tickEntered] at rest
  exact .head ⟨live, early, rfl⟩ rest

theorem turnAlarms (s : Solo) : s.turn.alarms = s.alarms := by
  unfold turn
  rcases s.cpu.pending (s.lines.isActive Acc8.nmiLine) (s.lines.isActive Acc8.irqLine)
    with ⟨cpu, _ | line⟩
  · dsimp only
    split <;> rfl
  · rfl

theorem tickAlarms (s : Solo) : s.tick.alarms = s.alarms := by
  have same := turnAlarms s.prepare
  unfold tick settle
  split <;> exact same

theorem ticksPath {upto : Time} (ticks : Relation.ReflTransGen (Ticks upto) s t) (before : upto < target)
    (quiet : ∀ a ∈ s.alarms, upto < a.time) : Path target s t := by
  have kept : t.alarms = s.alarms ∧ Path target s t := by
    induction ticks with
    | refl => exact ⟨rfl, .refl⟩
    | @tail b c _ step ih =>
      obtain ⟨live, early, rfl⟩ := step
      obtain ⟨same, path⟩ := ih
      refine ⟨(tickAlarms b).trans same, path.tail ?_⟩
      have goes : b.advance? target = some b.tick := if_pos ⟨live, Nat.lt_of_le_of_lt early before⟩
      unfold next?
      cases alarms : b.alarms with
      | nil => exact goes
      | cons a rest =>
        have late : ¬ b.Due target a := by
          intro due
          have first := quiet a (by rw [← same, alarms]; exact List.mem_cons_self ..)
          exact absurd (Nat.le_trans (due.2 live) early) (Nat.not_le_of_lt first)
        dsimp only
        rw [if_neg late]
        exact goes
  exact kept.2

end Solo

end Lockstep
