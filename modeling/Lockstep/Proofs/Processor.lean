import Lockstep.Acc8.Processor
import Lockstep.Proofs.Run

/-! An instruction of the acc8 touches what is around it through its port only, so what
relates the accesses of two ports relates the instructions. It costs at least one cycle
and at most seven, as the entry of an interrupt does. -/
namespace Lockstep.Acc8

theorem costBounds (op : Opcode) (taken : Bool) :
    1 ≤ op.cycles + (if taken then branchPenalty else 0) ∧
      op.cycles + (if taken then branchPenalty else 0) ≤ interruptCycles := by
  cases op <;> cases taken <;> decide

structure Port.Related {m n : Type → Type} [Monad m] [Monad n]
    (R : (α : Type) → m α → n α → Prop) (left : Port m) (right : Port n) : Prop where
  pure : ∀ {α : Type} (a : α), R α (Pure.pure a) (Pure.pure a)
  bind : ∀ {α β : Type} {x : m α} {y : n α} {f : α → m β} {g : α → n β}, R α x y →
    (∀ a, R β (f a) (g a)) → R β (x >>= f) (y >>= g)
  read : ∀ a, R UInt8 (left.read a) (right.read a)
  write : ∀ a v, R Unit (left.write a v) (right.write a v)
  input : ∀ a, R UInt8 (left.input a) (right.input a)
  output : ∀ a v, R Unit (left.output a v) (right.output a v)

section
variable {m n : Type → Type} [Monad m] [Monad n] {R : (α : Type) → m α → n α → Prop}
  {left : Port m} {right : Port n} (h : Port.Related R left right)
include h

theorem readWordRelated (target : UInt16) : R _ (readWord left target) (readWord right target) :=
  h.bind (h.read _) fun _ => h.bind (h.read _) fun _ => h.pure _

theorem fetchRelated (cpu : Acc8) : R _ (fetch left cpu) (fetch right cpu) :=
  h.bind (h.read _) fun _ => h.pure _

theorem fetchWordRelated (cpu : Acc8) : R _ (fetchWord left cpu) (fetchWord right cpu) :=
  h.bind (fetchRelated h _) fun _ => h.bind (fetchRelated h _) fun _ => h.pure _

theorem pushRelated (value : UInt8) (cpu : Acc8) :
    R _ (push left value cpu) (push right value cpu) :=
  h.bind (h.write _ _) fun _ => h.pure _

theorem pullRelated (cpu : Acc8) : R _ (pull left cpu) (pull right cpu) :=
  h.bind (h.read _) fun _ => h.pure _

theorem pushWordRelated (value : UInt16) (cpu : Acc8) :
    R _ (pushWord left value cpu) (pushWord right value cpu) :=
  h.bind (pushRelated h _ _) fun _ => pushRelated h _ _

theorem pullWordRelated (cpu : Acc8) : R _ (pullWord left cpu) (pullWord right cpu) :=
  h.bind (pullRelated h _) fun _ => h.bind (pullRelated h _) fun _ => h.pure _

theorem executeRelated (op : Opcode) (cpu : Acc8) :
    R _ (execute left op cpu) (execute right op cpu) := by
  cases op with
  | nop | inx | ei | di | halt => exact h.pure _
  | ldaImm | ldxImm | addImm | subImm | cmpImm =>
    exact h.bind (fetchRelated h _) fun _ => h.pure _
  | ldaAbs | ldaAbsX | addAbs =>
    exact h.bind (fetchWordRelated h _) fun _ => h.bind (h.read _) fun _ => h.pure _
  | staAbs | staAbsX =>
    exact h.bind (fetchWordRelated h _) fun _ => h.bind (h.write _ _) fun _ => h.pure _
  | jmp => exact h.bind (fetchWordRelated h _) fun _ => h.pure _
  | bne | beq =>
    refine h.bind (fetchRelated h _) fun row => ?_
    dsimp only
    split
    · exact h.pure _
    · exact h.pure _
  | jsr =>
    exact h.bind (fetchWordRelated h _) fun _ => h.bind (pushWordRelated h _ _) fun _ => h.pure _
  | rts => exact h.bind (pullWordRelated h _) fun _ => h.pure _
  | input => exact h.bind (fetchRelated h _) fun _ => h.bind (h.input _) fun _ => h.pure _
  | output => exact h.bind (fetchRelated h _) fun _ => h.bind (h.output _ _) fun _ => h.pure _
  | reti => exact h.bind (pullRelated h _) fun _ => h.bind (pullWordRelated h _) fun _ => h.pure _

theorem stepRelated (cpu : Acc8) : R _ (step left cpu) (step right cpu) := by
  refine h.bind (fetchRelated h _) fun row => ?_
  obtain ⟨byte, cpu⟩ := row
  dsimp only
  split
  · split
    · exact h.pure _
    · exact h.pure _
  · exact h.bind (executeRelated h _ _) fun _ => h.pure _

theorem enterRelated (vector : Nat) (cpu : Acc8) :
    R _ (enter left vector cpu) (enter right vector cpu) := by
  unfold enter
  split
  · exact h.pure _
  · exact h.bind (pushWordRelated h _ _) fun _ => h.bind (pushRelated h _ _) fun _ =>
      h.bind (readWordRelated h _) fun _ => h.pure _

end

def Port.Keeps (R : Machine → Machine → Prop) (port : Port Run) : Prop :=
  Port.Related (fun _ x _ => ∀ m, Run.Keeps R x m) port port

def Alike (cpu cpu' : Acc8) : Prop :=
  cpu'.options = cpu.options ∧ cpu'.fetchResetVector = cpu.fetchResetVector

theorem Alike.trans {a b c : Acc8} (first : Alike a b) (rest : Alike b c) : Alike a c :=
  ⟨rest.1.trans first.1, rest.2.trans first.2⟩

def Shifted (cpu cpu' : Acc8) : Prop := cpu' = { cpu with pc := cpu'.pc, sp := cpu'.sp }

theorem Shifted.trans {a b c : Acc8} (first : Shifted a b) (rest : Shifted b c) : Shifted a c := by
  unfold Shifted at *
  rw [first] at rest
  exact rest

theorem Shifted.inv {cpu cpu' : Acc8} (h : Shifted cpu cpu') : ∃ pc sp, cpu' = { cpu with pc, sp } :=
  ⟨_, _, h⟩

def Opcode.enables : Opcode → Bool
  | .ei | .reti => true
  | _ => false

def Opcode.stacks : Opcode → Bool
  | .jsr | .rts | .reti => true
  | _ => false

structure Spared (cpu cpu' : Acc8) (enables : Bool) : Prop where
  alike : Alike cpu cpu'
  latch : cpu'.nmiLatched = cpu.nmiLatched
  masked : enables = false → cpu.flags.interrupts = false → cpu'.flags.interrupts = false

structure Executed (op : Opcode) (cpu cpu' : Acc8) : Prop where
  rest : cpu' = { cpu with
    pc := cpu'.pc, a := cpu'.a, x := cpu'.x, sp := cpu'.sp, flags := cpu'.flags
    runState := if op = .halt then .waiting else cpu.runState }
  masked : op.enables = false → cpu.flags.interrupts = false → cpu'.flags.interrupts = false
  level : op.stacks = false → cpu'.sp = cpu.sp

theorem Shifted.spared {cpu cpu' : Acc8} (h : Shifted cpu cpu') (enables : Bool) :
    Spared cpu cpu' enables := by
  rw [h]
  exact ⟨⟨rfl, rfl⟩, rfl, fun _ masked => masked⟩

section
variable {port : Port Run} {cpu cpu' : Acc8} {m m' : Machine}

theorem fetchShifted {row : UInt8 × Acc8} (h : fetch port cpu m = some (row, m')) :
    Shifted cpu row.2 := by
  obtain ⟨_, _, -, h⟩ := Run.bindInv h
  cases h
  rfl

theorem fetchWordShifted {row : UInt16 × Acc8} (h : fetchWord port cpu m = some (row, m')) :
    Shifted cpu row.2 := by
  obtain ⟨_, _, first, h⟩ := Run.bindInv h
  obtain ⟨_, _, second, h⟩ := Run.bindInv h
  cases h
  exact (fetchShifted first).trans (fetchShifted second)

theorem pushShifted {value : UInt8} (h : push port value cpu m = some (cpu', m')) :
    Shifted cpu cpu' := by
  obtain ⟨_, _, -, h⟩ := Run.bindInv h
  cases h
  rfl

theorem pullShifted {row : UInt8 × Acc8} (h : pull port cpu m = some (row, m')) :
    Shifted cpu row.2 := by
  obtain ⟨_, _, -, h⟩ := Run.bindInv h
  cases h
  rfl

theorem pushWordShifted {value : UInt16} (h : pushWord port value cpu m = some (cpu', m')) :
    Shifted cpu cpu' := by
  obtain ⟨_, _, first, h⟩ := Run.bindInv h
  exact (pushShifted first).trans (pushShifted h)

theorem pullWordShifted {row : UInt16 × Acc8} (h : pullWord port cpu m = some (row, m')) :
    Shifted cpu row.2 := by
  obtain ⟨_, _, first, h⟩ := Run.bindInv h
  obtain ⟨_, _, second, h⟩ := Run.bindInv h
  cases h
  exact (pullShifted first).trans (pullShifted second)

theorem fetchSp {row : UInt8 × Acc8} (h : fetch port cpu m = some (row, m')) : row.2.sp = cpu.sp := by
  obtain ⟨_, _, -, h⟩ := Run.bindInv h
  cases h
  rfl

theorem fetchWordSp {row : UInt16 × Acc8} (h : fetchWord port cpu m = some (row, m')) :
    row.2.sp = cpu.sp := by
  obtain ⟨_, _, first, h⟩ := Run.bindInv h
  obtain ⟨_, _, second, h⟩ := Run.bindInv h
  cases h
  exact (fetchSp second).trans (fetchSp first)

theorem Shifted.executed {op : Opcode} {next : Acc8} (shifted : Shifted cpu next)
    (level : op.stacks = false → next.sp = cpu.sp)
    (rest : cpu' = { next with
      pc := cpu'.pc, a := cpu'.a, x := cpu'.x, flags := cpu'.flags
      runState := if op = .halt then .waiting else next.runState })
    (masked : op.enables = false → next.flags.interrupts = false → cpu'.flags.interrupts = false) :
    Executed op cpu cpu' := by
  obtain ⟨pc, sp, rfl⟩ := shifted.inv
  have same : cpu'.sp = sp := (congrArg Acc8.sp rest :)
  refine ⟨?_, masked, fun stackless => same.trans (level stackless)⟩
  rw [same]
  exact rest

theorem executeInv {op : Opcode} {row : Acc8 × Bool} (h : execute port op cpu m = some (row, m')) :
    Executed op cpu row.1 := by
  unfold execute at h
  cases op with
  | nop | inx | halt =>
    cases h
    exact ⟨rfl, fun _ masked => masked, fun _ => rfl⟩
  | ei =>
    cases h
    exact ⟨rfl, (fun enables => by cases enables), fun _ => rfl⟩
  | di =>
    cases h
    exact ⟨rfl, fun _ _ => rfl, fun _ => rfl⟩
  | ldaImm | ldxImm | addImm | subImm | cmpImm =>
    obtain ⟨_, _, fetched, h⟩ := Run.bindInv h
    cases h
    exact (fetchShifted fetched).executed (fun _ => fetchSp fetched) rfl fun _ => id
  | ldaAbs | ldaAbsX | addAbs | staAbs | staAbsX =>
    obtain ⟨_, _, fetched, h⟩ := Run.bindInv h
    obtain ⟨_, _, -, h⟩ := Run.bindInv h
    cases h
    exact (fetchWordShifted fetched).executed (fun _ => fetchWordSp fetched) rfl fun _ => id
  | jmp =>
    obtain ⟨_, _, fetched, h⟩ := Run.bindInv h
    cases h
    exact (fetchWordShifted fetched).executed (fun _ => fetchWordSp fetched) rfl fun _ => id
  | bne | beq =>
    obtain ⟨_, _, fetched, h⟩ := Run.bindInv h
    have moved := fetchShifted fetched
    dsimp only at h
    split at h
    · cases h
      exact moved.executed (fun _ => fetchSp fetched) rfl fun _ => id
    · cases h
      exact moved.executed (fun _ => fetchSp fetched) rfl fun _ => id
  | jsr =>
    obtain ⟨_, _, fetched, h⟩ := Run.bindInv h
    obtain ⟨_, _, pushed, h⟩ := Run.bindInv h
    cases h
    exact ((fetchWordShifted fetched).trans (pushWordShifted pushed)).executed
      (fun stackless => by cases stackless) rfl fun _ => id
  | rts =>
    obtain ⟨_, _, pulled, h⟩ := Run.bindInv h
    cases h
    exact (pullWordShifted pulled).executed (fun stackless => by cases stackless) rfl fun _ => id
  | input | output =>
    obtain ⟨_, _, fetched, h⟩ := Run.bindInv h
    obtain ⟨_, _, -, h⟩ := Run.bindInv h
    cases h
    exact (fetchShifted fetched).executed (fun _ => fetchSp fetched) rfl fun _ => id
  | reti =>
    obtain ⟨⟨_, next⟩, _, flags, h⟩ := Run.bindInv h
    obtain ⟨⟨_, last⟩, _, pulled, h⟩ := Run.bindInv h
    cases h
    obtain ⟨_, _, rfl⟩ := (pullShifted flags).inv
    obtain ⟨_, _, rfl⟩ := (pullWordShifted pulled).inv
    exact ⟨rfl, (fun enables => by cases enables), fun stackless => by cases stackless⟩

theorem executeSpared {op : Opcode} {row : Acc8 × Bool}
    (h : execute port op cpu m = some (row, m')) : Spared cpu row.1 op.enables := by
  obtain ⟨rest, masked, -⟩ := executeInv h
  have alike : Alike cpu row.1 := ⟨(congrArg options rest :), (congrArg fetchResetVector rest :)⟩
  exact ⟨alike, (congrArg nmiLatched rest :), masked⟩

theorem executeState {op : Opcode} {row : Acc8 × Bool} (h : execute port op cpu m = some (row, m')) :
    row.1.runState = if op = .halt then .waiting else cpu.runState :=
  (congrArg runState (executeInv h).rest :)

theorem enterState {vector : Nat} (h : enter port vector cpu m = some (cpu', m')) :
    cpu'.runState = if vectorCount ≤ vector then .trapped .invalidVector else .running := by
  unfold enter at h
  split at h
  · rename_i beyond
    cases h
    rw [if_pos beyond]
    rfl
  · rename_i known
    obtain ⟨_, _, -, h⟩ := Run.bindInv h
    obtain ⟨_, _, -, h⟩ := Run.bindInv h
    obtain ⟨_, _, -, h⟩ := Run.bindInv h
    cases h
    rw [if_neg known]

theorem stepAlike {row : Acc8 × Nat} (h : step port cpu m = some (row, m')) :
    Alike cpu row.1 := by
  obtain ⟨⟨byte, next⟩, _, fetched, h⟩ := Run.bindInv h
  have first := ((fetchShifted fetched).spared true).alike
  dsimp only at h
  cases decoded : Opcode.decode? byte with
  | none =>
    rw [decoded] at h
    dsimp only at h
    split at h
    · cases h
      exact first
    · cases h
      exact first
  | some op =>
    rw [decoded] at h
    obtain ⟨_, _, executed, h⟩ := Run.bindInv h
    cases h
    exact first.trans (executeSpared executed).alike

theorem enterSpared {vector : Nat} (h : enter port vector cpu m = some (cpu', m')) :
    Spared cpu cpu' true ∧
      (cpu'.flags.interrupts = false ∨ vectorCount ≤ vector ∧ cpu' = cpu.trapped .invalidVector) := by
  unfold enter at h
  split at h
  · rename_i beyond
    cases h
    exact ⟨⟨⟨rfl, rfl⟩, rfl, fun _ masked => masked⟩, .inr ⟨beyond, rfl⟩⟩
  · obtain ⟨_, _, word, h⟩ := Run.bindInv h
    obtain ⟨_, _, flags, h⟩ := Run.bindInv h
    obtain ⟨_, _, -, h⟩ := Run.bindInv h
    cases h
    have next := ((pushWordShifted word).trans (pushShifted flags)).spared true
    exact ⟨⟨next.alike, next.latch, fun _ _ => rfl⟩, .inl rfl⟩

theorem enterAlike {vector : Nat} (h : enter port vector cpu m = some (cpu', m')) :
    Alike cpu cpu' :=
  (enterSpared h).1.alike

end

theorem stepCost {port : Port Run} {cpu cpu' : Acc8} {cycles : Nat} {m m' : Machine}
    (h : step port cpu m = some ((cpu', cycles), m')) : 1 ≤ cycles ∧ cycles ≤ interruptCycles := by
  obtain ⟨⟨byte, next⟩, m₁, -, h⟩ := Run.bindInv h
  dsimp only at h
  cases decoded : Opcode.decode? byte with
  | none =>
    rw [decoded] at h
    dsimp only at h
    split at h
    · obtain ⟨same, -⟩ := Run.pureInv h
      cases same
      decide
    · obtain ⟨same, -⟩ := Run.pureInv h
      cases same
      decide
  | some op =>
    rw [decoded] at h
    obtain ⟨⟨after, taken⟩, m₂, -, h⟩ := Run.bindInv h
    obtain ⟨same, -⟩ := Run.pureInv h
    cases same
    exact costBounds op taken

end Lockstep.Acc8
