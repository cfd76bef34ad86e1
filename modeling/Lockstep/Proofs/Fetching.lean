import Lockstep.Proofs.StackPage
import Lockstep.Proofs.Told

/-! An instruction of the acc8 as its tables have it. On any bus it first fetches its own bytes, from
the program counter on and wherever that wraps, and only then reaches for the data it works on; what
it costs and where it goes on are in the same tables. -/
namespace Lockstep

namespace Acc8

inductive Request where
  | read (address : UInt16)
  | write (address : UInt16) (value : UInt8)
  | input (number : UInt8)
  | output (number value : UInt8)
  deriving DecidableEq

structure Exchange where
  request : Request
  answer : Option UInt8
  deriving DecidableEq

def logging {α : Type} (request : Request) (answer : α → Option UInt8) (x : Run α) :
    Watch Exchange α := do
  let a ← Watch.of x
  Watch.note fun _ => ⟨request, answer a⟩
  return a

def Port.logged (port : Port Run) : Port (Watch Exchange) where
  read a := logging (.read a) some (port.read a)
  write a v := logging (.write a v) (fun _ => none) (port.write a v)
  input n := logging (.input n) some (port.input n)
  output n v := logging (.output n v) (fun _ => none) (port.output n v)

structure Port.Answers (port : Port Run) : Prop where
  read : ∀ a m, (port.read a m).isSome = true
  write : ∀ a v m, (port.write a v m).isSome = true
  input : ∀ n m, (port.input n m).isSome = true
  output : ∀ n v m, (port.output n v m).isSome = true

theorem Port.Answers.related {port : Port Run} (answers : port.Answers) :
    Port.Related (fun _ x _ => ∀ m, (x m).isSome = true) port port where
  pure _ _ := rfl
  bind first rest m := by
    obtain ⟨⟨a, m₁⟩, ran⟩ := Option.isSome_iff_exists.mp (first m)
    rw [Run.bindSome ran]
    exact rest a m₁
  read := answers.read
  write := answers.write
  input := answers.input
  output := answers.output

def fetched (pc : UInt16) : List UInt8 → List Exchange
  | [] => []
  | byte :: bytes => ⟨.read pc, some byte⟩ :: fetched (pc + 1) bytes

namespace Opcode

def data (cpu : Acc8) : Opcode → List UInt8 → List Request
  | .ldaAbs, [low, high] | .addAbs, [low, high] => [.read (address low high)]
  | .ldaAbsX, [low, high] => [.read (address low high + cpu.x.toUInt16)]
  | .staAbs, [low, high] => [.write (address low high) cpu.a]
  | .staAbsX, [low, high] => [.write (address low high + cpu.x.toUInt16) cpu.a]
  | .jsr, _ =>
      [.write (stackAt cpu.sp) (highByte cpu.pc), .write (stackAt (cpu.sp - 1)) (lowByte cpu.pc)]
  | .rts, _ => [.read (stackAt (cpu.sp + 1)), .read (stackAt (cpu.sp + 2))]
  | .reti, _ =>
      [.read (stackAt (cpu.sp + 1)), .read (stackAt (cpu.sp + 2)), .read (stackAt (cpu.sp + 3))]
  | .input, [number] => [.input number]
  | .output, [number] => [.output number cpu.a]
  | _, _ => []

def jumps : Opcode → Bool
  | .jmp | .jsr | .rts | .reti => true
  | _ => false

def takes (flags : Flags) : Opcode → Bool
  | .bne => !flags.zero
  | .beq => flags.zero
  | _ => false

end Opcode

structure Tabled (op : Opcode) (cpu : Acc8) (log : List Exchange) (cpu' : Acc8) (taken : Bool)
    (operands : List UInt8) (data : List Exchange) : Prop where
  length : operands.length = op.operands
  log : log = fetched cpu.pc operands ++ data
  data : data.map (·.request) = op.data { cpu with pc := cpu.pc + .ofNat op.operands } operands
  decided : taken = op.takes cpu.flags
  falls : taken = false → op.jumps = false → cpu'.pc = cpu.pc + .ofNat op.operands
  branches : taken = true → ∃ offset, operands = [offset] ∧
    cpu'.pc = cpu.pc + .ofNat op.operands + offset.toInt8.toInt16.toUInt16

section
variable {port : Port Run} {cpu cpu' : Acc8} {m m' : Machine} {log : List Exchange}

theorem loggingInv {α : Type} {request : Request} {answer : α → Option UInt8} {x : Run α} {a : α}
    (ran : logging request answer x m = (log, some (a, m'))) :
    log = [⟨request, answer a⟩] ∧ x m = some (a, m') := by
  obtain ⟨_, b, m₁, _, did, noted, rfl⟩ := Watch.bindInv ran
  obtain ⟨rfl, done⟩ := Watch.ofInv did
  cases noted
  exact ⟨rfl, done⟩

theorem loggedResult (port : Port Run) : port.logged.result = port := by
  have same : ∀ {α : Type} (request : Request) (answer : α → Option UInt8) (x : Run α),
      (logging request answer x).result = x := by
    intro α request answer x
    funext m
    change (Watch.next (Watch.of x) _ m).2 = x m
    unfold Watch.next Watch.of
    cases ran : x m with
    | none => rfl
    | some row => rfl
  unfold Port.result Port.logged
  simp only [same]

theorem stepLogged {row : Acc8 × Nat} (ran : step port cpu m = some (row, m')) :
    step port.logged cpu m = ((step port.logged cpu m).1, some (row, m')) := by
  have same := stepRelated (Port.resultRelated port.logged) cpu
  rw [loggedResult] at same
  exact Watch.resultRan same ran

theorem fetchLogged {row : UInt8 × Acc8} (ran : fetch port.logged cpu m = (log, some (row, m'))) :
    ∃ value, log = fetched cpu.pc [value] ∧ row = (value, { cpu with pc := cpu.pc + 1 }) ∧
      port.read cpu.pc m = some (value, m') := by
  obtain ⟨_, value, m₁, _, read, done, rfl⟩ := Watch.bindInv ran
  obtain ⟨rfl, goes⟩ := loggingInv read
  cases done
  exact ⟨value, rfl, rfl, goes⟩

theorem fetchWordLogged {row : UInt16 × Acc8}
    (ran : fetchWord port.logged cpu m = (log, some (row, m'))) : ∃ low high,
      log = fetched cpu.pc [low, high] ∧ row = (address low high, { cpu with pc := cpu.pc + 2 }) := by
  obtain ⟨_, row, m₁, _, first, more, rfl⟩ := Watch.bindInv ran
  obtain ⟨low, rfl, rfl, -⟩ := fetchLogged first
  obtain ⟨_, row, m₂, _, second, done, rfl⟩ := Watch.bindInv more
  obtain ⟨high, rfl, rfl, -⟩ := fetchLogged second
  cases done
  refine ⟨low, high, rfl, ?_⟩
  dsimp only
  rw [UInt16.add_assoc]
  rfl

theorem pushWordLogged {value : UInt16}
    (ran : pushWord port.logged value cpu m = (log, some (cpu', m'))) :
    log.map (·.request) = [.write (stackAt cpu.sp) (highByte value),
      .write (stackAt (cpu.sp - 1)) (lowByte value)] := by
  obtain ⟨_, next, m₁, _, first, second, rfl⟩ := Watch.bindInv ran
  obtain ⟨_, _, m₁, _, high, done, rfl⟩ := Watch.bindInv first
  obtain ⟨rfl, -⟩ := loggingInv high
  cases done
  obtain ⟨_, _, m₂, _, low, done, rfl⟩ := Watch.bindInv second
  obtain ⟨rfl, -⟩ := loggingInv low
  cases done
  rfl

theorem pullLogged {row : UInt8 × Acc8} (ran : pull port.logged cpu m = (log, some (row, m'))) :
    log.map (·.request) = [.read (stackAt (cpu.sp + 1))] ∧ row.2 = { cpu with sp := cpu.sp + 1 } := by
  obtain ⟨_, value, m₁, _, read, done, rfl⟩ := Watch.bindInv ran
  obtain ⟨rfl, -⟩ := loggingInv read
  cases done
  exact ⟨rfl, rfl⟩

theorem pullWordLogged {row : UInt16 × Acc8}
    (ran : pullWord port.logged cpu m = (log, some (row, m'))) :
    log.map (·.request) = [.read (stackAt (cpu.sp + 1)), .read (stackAt (cpu.sp + 2))] := by
  obtain ⟨_, ⟨low, next⟩, m₁, _, first, more, rfl⟩ := Watch.bindInv ran
  obtain ⟨_, ⟨high, last⟩, m₂, _, second, done, rfl⟩ := Watch.bindInv more
  obtain ⟨one, rfl⟩ := pullLogged first
  obtain ⟨two, rfl⟩ := pullLogged second
  cases done
  rw [List.append_nil, List.map_append, one, two, UInt8.add_assoc]
  rfl

theorem displaced (pc : UInt16) (offset : UInt8) :
    displace pc offset = pc + offset.toInt8.toInt16.toUInt16 := by
  -- the sign is settled offset by offset
  have all : ∀ n < 256, (if UInt8.ofNat n < 128 then (UInt8.ofNat n).toUInt16
      else (UInt8.ofNat n).toUInt16 - 256) = (UInt8.ofNat n).toInt8.toInt16.toUInt16 := by
    decide +kernel
  have signed := all offset.toNat offset.toNat_lt
  rw [UInt8.ofNat_toNat] at signed
  unfold displace
  rw [← signed]
  split
  · rfl
  · rw [UInt16.sub_eq_add_neg, UInt16.sub_eq_add_neg, UInt16.add_assoc]

theorem branchTabled {op : Opcode} {offset : UInt8} {taken : Bool} (single : op.operands = 1)
    (plain : op.data { cpu with pc := cpu.pc + .ofNat op.operands } [offset] = [])
    (decided : taken = op.takes cpu.flags)
    (lands : cpu'.pc = if taken then displace (cpu.pc + 1) offset else cpu.pc + 1) :
    Tabled op cpu (fetched cpu.pc [offset] ++ []) cpu' taken [offset] [] := by
  have behind : cpu.pc + .ofNat op.operands = cpu.pc + 1 := by
    rw [single]
    rfl
  refine ⟨single.symm, rfl, plain.symm, decided, fun falls _ => ?_, fun takes => ⟨offset, rfl, ?_⟩⟩
  · rw [lands, falls, behind]
    rfl
  · rw [lands, takes, behind, ← displaced]
    rfl

theorem executeTabled {op : Opcode} {taken : Bool}
    (ran : execute port.logged op cpu m = (log, some ((cpu', taken), m'))) :
    ∃ operands data, Tabled op cpu log cpu' taken operands data := by
  unfold execute at ran
  cases op with
  | nop | inx | ei | di | halt =>
    cases ran
    exact ⟨[], [], rfl, rfl, rfl, rfl, fun _ _ => (UInt16.add_zero _).symm, fun h => by cases h⟩
  | ldaImm | ldxImm | addImm | subImm | cmpImm =>
    obtain ⟨_, row, m₁, _, first, done, rfl⟩ := Watch.bindInv ran
    obtain ⟨value, rfl, rfl, -⟩ := fetchLogged first
    cases done
    exact ⟨[value], [], rfl, rfl, rfl, rfl, fun _ _ => rfl, fun h => by cases h⟩
  | ldaAbs | ldaAbsX | addAbs | staAbs | staAbsX =>
    obtain ⟨_, row, m₁, _, first, more, rfl⟩ := Watch.bindInv ran
    obtain ⟨low, high, rfl, rfl⟩ := fetchWordLogged first
    obtain ⟨_, a, m₂, _, reached, done, rfl⟩ := Watch.bindInv more
    obtain ⟨rfl, -⟩ := loggingInv reached
    cases done
    exact ⟨[low, high], _, rfl, rfl, rfl, rfl, fun _ _ => rfl, fun h => by cases h⟩
  | jmp =>
    obtain ⟨_, row, m₁, _, first, done, rfl⟩ := Watch.bindInv ran
    obtain ⟨low, high, rfl, rfl⟩ := fetchWordLogged first
    cases done
    exact ⟨[low, high], [], rfl, rfl, rfl, rfl, (fun _ h => by cases h), fun h => by cases h⟩
  | bne | beq =>
    obtain ⟨_, row, m₁, _, first, done, rfl⟩ := Watch.bindInv ran
    obtain ⟨offset, rfl, rfl, -⟩ := fetchLogged first
    dsimp only at done
    split at done
    · rename_i zero
      cases done
      exact ⟨[offset], [], branchTabled rfl rfl (by simp [Opcode.takes, zero]) rfl⟩
    · rename_i zero
      cases done
      exact ⟨[offset], [], branchTabled rfl rfl (by simp [Opcode.takes, zero]) rfl⟩
  | jsr =>
    obtain ⟨_, row, m₁, _, first, more, rfl⟩ := Watch.bindInv ran
    obtain ⟨low, high, rfl, rfl⟩ := fetchWordLogged first
    obtain ⟨pushes, next, m₂, _, pushed, done, rfl⟩ := Watch.bindInv more
    cases done
    have requests := pushWordLogged pushed
    rw [List.append_nil]
    exact ⟨[low, high], pushes, rfl, rfl, requests, rfl, (fun _ h => by cases h), fun h => by cases h⟩
  | rts =>
    obtain ⟨pulls, row, m₁, _, pulled, done, rfl⟩ := Watch.bindInv ran
    cases done
    have requests := pullWordLogged pulled
    rw [List.append_nil]
    exact ⟨[], pulls, rfl, rfl, requests, rfl, (fun _ h => by cases h), fun h => by cases h⟩
  | input | output =>
    obtain ⟨_, row, m₁, _, first, more, rfl⟩ := Watch.bindInv ran
    obtain ⟨number, rfl, rfl, -⟩ := fetchLogged first
    obtain ⟨_, a, m₂, _, reached, done, rfl⟩ := Watch.bindInv more
    obtain ⟨rfl, -⟩ := loggingInv reached
    cases done
    exact ⟨[number], _, rfl, rfl, rfl, rfl, fun _ _ => rfl, fun h => by cases h⟩
  | reti =>
    obtain ⟨flags, row, m₁, _, first, more, rfl⟩ := Watch.bindInv ran
    obtain ⟨one, next⟩ := pullLogged first
    obtain ⟨pulls, back, m₂, _, pulled, done, rfl⟩ := Watch.bindInv more
    cases done
    have two := pullWordLogged pulled
    rw [List.append_nil]
    refine ⟨[], flags ++ pulls, rfl, rfl, ?_, rfl, (fun _ h => by cases h), fun h => by cases h⟩
    rw [List.map_append, one, two, next]
    simp only [UInt8.add_assoc]
    rfl

/-- Whatever the registers are and whatever is on the bus, an instruction is as the tables say. A
byte at the program counter that is an opcode is followed by its operands, fetched from the next
addresses before anything else is reached for; then comes exactly what the operation reaches for.
It costs its cycles, with a penalty for a branch that is taken, and the program counter moves behind
it unless it jumps. A byte that is no opcode costs one cycle and is skipped, or traps where it is. -/
theorem stepTabled (port : Port Run) (cpu : Acc8) (m : Machine) :
    (port.Answers → (step port cpu m).isSome = true) ∧
    ∀ cpu' cycles m', step port cpu m = some ((cpu', cycles), m') →
      ∃ byte m₁ rest, port.read cpu.pc m = some (byte, m₁) ∧
        step port.logged cpu m =
          (fetched cpu.pc [byte] ++ rest, some ((cpu', cycles), m')) ∧
        match Opcode.decode? byte with
        | none => rest = [] ∧ cycles = 1 ∧
            cpu' = if cpu.options.illegalFatal then
              { cpu with runState := .trapped .illegalInstruction }
            else { cpu with pc := cpu.pc + 1 }
        | some op => ∃ taken operands data,
            Tabled op { cpu with pc := cpu.pc + 1 } rest cpu' taken operands data ∧
            cycles = op.cycles + if taken then branchPenalty else 0 := by
  refine ⟨fun answers => stepRelated answers.related cpu m, fun cpu' cycles m' ran => ?_⟩
  have logged := stepLogged ran
  obtain ⟨_, row, m₁, rest, first, more, log⟩ := Watch.bindInv logged
  obtain ⟨byte, rfl, rfl, read⟩ := fetchLogged first
  rw [log] at logged
  refine ⟨byte, m₁, rest, read, logged, ?_⟩
  dsimp only at more
  cases decoded : Opcode.decode? byte with
  | none =>
    rw [decoded] at more
    dsimp only at more ⊢
    split at more
    · rename_i fatal
      cases more
      rw [if_pos fatal]
      exact ⟨rfl, rfl, rfl⟩
    · rename_i mild
      cases more
      rw [if_neg mild]
      exact ⟨rfl, rfl, rfl⟩
  | some op =>
    rw [decoded] at more
    obtain ⟨_, ⟨after, taken⟩, m₂, _, executed, done, rfl⟩ := Watch.bindInv more
    cases done
    obtain ⟨operands, data, row⟩ := executeTabled executed
    rw [List.append_nil]
    exact ⟨taken, operands, data, row, rfl⟩

end

def isthmus : Machine :=
  { config := {}
    spaces := #[{ name := "isthmus", shape := programShape, frozen := true
                  entries := [⟨0, 0xF, 0, .ram ⟨0⟩ 0⟩, ⟨0xFFF0, 0xFFFF, 0xFFF0, .ram ⟨1⟩ 0⟩] },
      { name := "ports", shape := ioShape, frozen := true }]
    memory :=
      { blocks := #[⟨"south", #[0x80] ++ Array.replicate 15 0⟩,
        ⟨"north", Array.replicate 15 0 ++ #[0x51]⟩] } }

def wanderer : Acc8 :=
  { new "wanderer" {} with pc := 0xFFFF, runState := .running, fetchResetVector := false }

theorem branchAcross : ∃ cpu' m',
    step (Machine.acc8Port (Machine.invoke 0) ⟨0⟩ ⟨1⟩) wanderer isthmus = some ((cpu', 3), m') ∧
    (step (Machine.acc8Port (Machine.invoke 0) ⟨0⟩ ⟨1⟩).logged wanderer isthmus).1 =
      fetched 0xFFFF [0x51] ++ fetched 0 [0x80] ∧
    cpu'.pc = 0xFF81 := by
  have log : (step (Machine.acc8Port (Machine.invoke 0) ⟨0⟩ ⟨1⟩).logged wanderer isthmus).1 =
      [⟨.read 0xFFFF, some 0x51⟩, ⟨.read 0, some 0x80⟩] := by
    decide +kernel
  have goes : (step (Machine.acc8Port (Machine.invoke 0) ⟨0⟩ ⟨1⟩) wanderer isthmus).isSome = true := by
    decide +kernel
  obtain ⟨⟨⟨cpu', cycles⟩, m'⟩, ran⟩ := Option.isSome_iff_exists.mp goes
  obtain ⟨byte, m₁, rest, -, logged, row⟩ := (stepTabled _ wanderer isthmus).2 cpu' cycles m' ran
  rw [logged] at log
  cases log
  obtain ⟨taken, operands, data, row, rfl⟩ := row
  obtain rfl : taken = true := row.decided
  obtain ⟨offset, rfl, target⟩ := row.branches rfl
  cases row.log
  exact ⟨cpu', m', ran, by rw [logged]; rfl, target⟩

end Acc8

end Lockstep
