import Lockstep.Proofs.StackPage
import Lockstep.Proofs.Told

/-! The stack of a processor. Calls and interrupts that are properly nested return to where they
came from, as long as they have room and nobody else writes what they have stacked: the bytes that
are pending are those of the calls and interrupts that are, in order, whatever the stack pointer
was to begin with and wherever the stack wraps within its page. -/
namespace Lockstep

structure BusAccess where
  writes : Bool
  before : Machine
  after : Machine

def overBus {α : Type} (writes : Bool) (x : Run α) : Watch BusAccess α := do
  let before ← Watch.of get
  let a ← Watch.of x
  Watch.note fun after => ⟨writes, before, after⟩
  return a

def Acc8.Port.watched (port : Port Run) : Port (Watch BusAccess) where
  read a := overBus false (port.read a)
  write a v := overBus true (port.write a v)
  input a := overBus false (port.input a)
  output a v := overBus true (port.output a v)

/-- A call or an interrupt that has not returned yet: the stack pointer it came with, and where to
return to. -/
inductive Pending where
  | call (sp : UInt8) (pc : UInt16)
  | interrupt (sp : UInt8) (pc : UInt16) (flags : Acc8.Flags)

namespace Pending
open Acc8 (lowByte highByte)

def sp : Pending → UInt8
  | .call sp _ | .interrupt sp .. => sp

def bytes : Pending → List UInt8
  | .call _ pc => [lowByte pc, highByte pc]
  | .interrupt _ pc flags => [flags.toByte, lowByte pc, highByte pc]

def ending : Pending → Acc8.Opcode
  | .call .. => .rts
  | .interrupt .. => .reti

def Returned (cpu : Acc8) : Pending → Prop
  | .call sp pc => cpu.sp = sp ∧ cpu.pc = pc
  | .interrupt sp pc flags => cpu.sp = sp ∧ cpu.pc = pc ∧ cpu.flags = flags

theorem Returned.sp {cpu : Acc8} {p : Pending} (back : Returned cpu p) : cpu.sp = p.sp := by
  cases p with
  | call => exact back.1
  | interrupt => exact back.1

end Pending

/-- A processor in its machine, with what it is yet to return from. -/
structure Nested where
  cpu : Acc8
  machine : Machine
  pending : List Pending

namespace Nested
open Machine (Steps free invoke acc8Port)

def stacked (s : Nested) : List UInt8 := s.pending.flatMap Pending.bytes

def Untouched (cells : UInt8 → Cell) (sp : UInt8) (count : Nat) (a b : Machine) : Prop :=
  ∀ i < count, b.memory.byte? (cells (sp + 1 + .ofNat i)) = a.memory.byte? (cells (sp + 1 + .ofNat i))

inductive Move where
  | goOn
  | opens (p : Pending)
  | closes (p : Pending)

/-- One thing that happens to a processor whose calls and interrupts nest. Between its instructions
all may happen that the machine can do, but nobody moves the stack pointer; and whoever gets hold of
the machine, by an access of the processor or otherwise, leaves the bytes on the stack alone. -/
inductive Turn (program io : SpaceId) (cells : UInt8 → Cell) : Nested → Move → Nested → Prop where
  | outside {s cpu m} (steps : Steps free s.machine m) (kept : cpu.sp = s.cpu.sp)
      (untouched : Untouched cells s.cpu.sp s.stacked.length s.machine m) :
      Turn program io cells s .goOn { s with cpu, machine := m }
  | plain {s cpu m byte taken accesses} (depth : Nat)
      (ran : s.cpu.stepWork (acc8Port (invoke depth) program io).watched s.machine =
        (accesses, some ((cpu, .instruction byte taken), m)))
      (stackless : (Acc8.Opcode.decode? byte).elim false Acc8.Opcode.stacks = false)
      (untouched : ∀ x ∈ accesses, Untouched cells s.cpu.sp s.stacked.length x.before x.after) :
      Turn program io cells s .goOn { s with cpu, machine := m }
  | call {s cpu m byte taken accesses} (depth : Nat)
      (ran : s.cpu.stepWork (acc8Port (invoke depth) program io).watched s.machine =
        (accesses, some ((cpu, .instruction byte taken), m)))
      (decoded : Acc8.Opcode.decode? byte = some .jsr) (room : s.stacked.length + 2 ≤ 256)
      (untouched : ∀ x ∈ accesses, x.writes = false →
        Untouched cells s.cpu.sp s.stacked.length x.before x.after) :
      Turn program io cells s (.opens (.call s.cpu.sp (s.cpu.pc + 3)))
        ⟨cpu, m, .call s.cpu.sp (s.cpu.pc + 3) :: s.pending⟩
  | interrupt {s cpu m vector accesses} (depth : Nat)
      (ran : s.cpu.enter (acc8Port (invoke depth) program io).watched vector s.machine =
        (accesses, some (cpu, m)))
      (known : vector < Acc8.vectorCount) (room : s.stacked.length + 3 ≤ 256)
      (untouched : ∀ x ∈ accesses, x.writes = false →
        Untouched cells (s.cpu.sp - 3) (s.stacked.length + 3) x.before x.after) :
      Turn program io cells s (.opens (.interrupt s.cpu.sp s.cpu.pc s.cpu.flags))
        ⟨cpu, m, .interrupt s.cpu.sp s.cpu.pc s.cpu.flags :: s.pending⟩
  | returns {s p rest cpu m byte taken accesses} (depth : Nat) (inner : s.pending = p :: rest)
      (ran : s.cpu.stepWork (acc8Port (invoke depth) program io).watched s.machine =
        (accesses, some ((cpu, .instruction byte taken), m)))
      (decoded : Acc8.Opcode.decode? byte = some p.ending)
      (untouched : ∀ x ∈ accesses, Untouched cells s.cpu.sp s.stacked.length x.before x.after) :
      Turn program io cells s (.closes p) ⟨cpu, m, rest⟩

inductive Turns (program io : SpaceId) (cells : UInt8 → Cell) : Nested → Nested → Prop where
  | still (s : Nested) : Turns program io cells s s
  | turn {a b c move} (more : Turns program io cells a b) (last : Turn program io cells b move c) :
      Turns program io cells a c

section
variable {cells : UInt8 → Cell} {program io : SpaceId} {depth : Nat} {cpu cpu' : Acc8}
  {m m' : Machine} {sp value : UInt8} {bytes : List UInt8} {accesses : List BusAccess}

theorem overBusInv {α : Type} {writes : Bool} {x : Run α} {a : α}
    (ran : overBus writes x m = (accesses, some (a, m'))) :
    accesses = [⟨writes, m, m'⟩] ∧ x m = some (a, m') := by
  obtain ⟨_, before, m₀, _, looked, rest, rfl⟩ := Watch.bindInv ran
  cases looked
  obtain ⟨_, b, m₁, _, did, noted, rfl⟩ := Watch.bindInv rest
  obtain ⟨rfl, done⟩ := Watch.ofInv did
  cases noted
  exact ⟨rfl, done⟩

theorem addressBytes (pc : UInt16) :
    Acc8.address (Acc8.lowByte pc) (Acc8.highByte pc) = pc := by
  have bound := pc.toNat_lt
  unfold Acc8.address Acc8.lowByte Acc8.highByte
  refine UInt16.toNat_inj.mp ?_
  simp only [UInt16.toNat_ofNat', UInt8.toNat_ofNat']
  omega

theorem freeBelow {i : Nat} (room : i + 1 < 256) : sp + 1 + UInt8.ofNat i ≠ sp := by
  intro same
  have bound := sp.toNat_lt
  have values := congrArg UInt8.toNat same
  simp only [UInt8.toNat_add, UInt8.toNat_ofNat'] at values
  change ((sp.toNat + 1) % 256 + i % 256) % 256 = sp.toNat at values
  omega

theorem shiftUp (sp : UInt8) (i : Nat) :
    sp - 1 + 1 + UInt8.ofNat (i + 1) = sp + 1 + UInt8.ofNat i := by
  rw [UInt8.ofNat_add, UInt8.sub_add_cancel, UInt8.add_assoc, UInt8.add_comm (UInt8.ofNat i)]
  rfl

structure Holds (program : SpaceId) (cells : UInt8 → Cell) (sp : UInt8) (bytes : List UInt8)
    (m : Machine) : Prop where
  page : m.StackPage program cells
  there : ∀ i b, bytes[i]? = some b → m.memory.byte? (cells (sp + 1 + .ofNat i)) = some b

namespace Holds

theorem kept (holds : Holds program cells sp bytes m) (steps : Steps free m m')
    (untouched : Untouched cells sp bytes.length m m') : Holds program cells sp bytes m' :=
  ⟨holds.page.steps steps, fun i b row => by
    rw [untouched i (List.getElem?_eq_some_iff.mp row).1]
    exact holds.there i b row⟩

theorem push (holds : Holds program cells cpu.sp bytes m) (room : bytes.length < 256)
    (ran : Acc8.push (acc8Port (invoke depth) program io).watched value cpu m =
      (accesses, some (cpu', m'))) :
    cpu' = { cpu with sp := cpu.sp - 1 } ∧
      Holds program cells cpu'.sp (value :: bytes) m' := by
  obtain ⟨_, u, m₁, _, wrote, ran, -⟩ := Watch.bindInv ran
  cases ran
  obtain ⟨-, wrote⟩ := overBusInv wrote
  have steps := (Machine.portSteps depth program io).write _ _ _ _ _ wrote
  refine ⟨rfl, holds.page.steps steps.2, fun i b row => ?_⟩
  rw [holds.page.write wrote]
  cases i with
  | zero =>
    cases row
    simp
  | succ i =>
    -- the stack is not full, so none of the bytes above has gone around to the one that is written
    have above := holds.there i b row
    have bound := (List.getElem?_eq_some_iff.mp row).1
    rw [List.length_cons] at bound
    rw [shiftUp, if_neg fun same => freeBelow (by omega) (holds.page.apart same)]
    exact above

theorem pull {b : UInt8} {row : UInt8 × Acc8} (holds : Holds program cells cpu.sp (b :: bytes) m)
    (ran : Acc8.pull (acc8Port (invoke depth) program io).watched cpu m =
      (accesses, some (row, m'))) :
    row = (b, { cpu with sp := cpu.sp + 1 }) ∧ Holds program cells row.2.sp bytes m' := by
  obtain ⟨_, value, m₁, _, read, ran, -⟩ := Watch.bindInv ran
  cases ran
  obtain ⟨-, read⟩ := overBusInv read
  have steps := (Machine.portSteps depth program io).read _ _ _ _ read
  obtain ⟨there, memory⟩ := holds.page.read read
  have top := holds.there 0 b rfl
  rw [show cpu.sp + 1 + UInt8.ofNat 0 = cpu.sp + 1 by simp] at top
  refine ⟨?_, holds.page.steps steps.2, fun i c row => ?_⟩
  · rw [top] at there
    cases there
    rfl
  · rw [memory, ← shiftUp, UInt8.add_sub_cancel]
    exact holds.there (i + 1) c row

theorem pushWord {pc : UInt16} (holds : Holds program cells cpu.sp bytes m)
    (room : bytes.length + 2 ≤ 256)
    (ran : Acc8.pushWord (acc8Port (invoke depth) program io).watched pc cpu m =
      (accesses, some (cpu', m'))) :
    cpu' = { cpu with sp := cpu.sp - 1 - 1 } ∧
      Holds program cells cpu'.sp (Acc8.lowByte pc :: Acc8.highByte pc :: bytes) m' := by
  obtain ⟨_, one, m₁, _, high, low, -⟩ := Watch.bindInv ran
  obtain ⟨first, holds⟩ := holds.push (by omega) high
  obtain ⟨second, holds⟩ := holds.push (by rw [List.length_cons]; omega) low
  exact ⟨by rw [second, first], holds⟩

theorem pullWord {pc : UInt16} {row : UInt16 × Acc8}
    (ran : Acc8.pullWord (acc8Port (invoke depth) program io).watched cpu m =
      (accesses, some (row, m')))
    (holds : Holds program cells cpu.sp (Acc8.lowByte pc :: Acc8.highByte pc :: bytes) m) :
    row = (pc, { cpu with sp := cpu.sp + 1 + 1 }) ∧ Holds program cells row.2.sp bytes m' := by
  obtain ⟨_, ⟨low, next⟩, m₁, _, one, ran, -⟩ := Watch.bindInv ran
  obtain ⟨first, holds⟩ := holds.pull one
  obtain ⟨_, ⟨high, last⟩, m₂, _, two, ran, -⟩ := Watch.bindInv ran
  obtain ⟨second, holds⟩ := holds.pull two
  cases ran
  cases first
  cases second
  rw [addressBytes]
  exact ⟨rfl, holds⟩

end Holds

theorem fetchInv {row : UInt8 × Acc8}
    (ran : Acc8.fetch (acc8Port (invoke depth) program io).watched cpu m =
      (accesses, some (row, m'))) :
    row.2 = { cpu with pc := cpu.pc + 1 } ∧ accesses = [⟨false, m, m'⟩] ∧ Steps free m m' := by
  obtain ⟨_, value, m₁, _, read, done, rfl⟩ := Watch.bindInv ran
  cases done
  obtain ⟨rfl, goes⟩ := overBusInv read
  exact ⟨rfl, rfl, ((Machine.portSteps depth program io).read _ _ _ _ goes).2⟩

theorem fetchHolds {row : UInt8 × Acc8} (holds : Holds program cells cpu.sp bytes m)
    (ran : Acc8.fetch (acc8Port (invoke depth) program io).watched cpu m =
      (accesses, some (row, m')))
    (untouched : ∀ x ∈ accesses, x.writes = false →
      Untouched cells cpu.sp bytes.length x.before x.after) :
    row.2 = { cpu with pc := cpu.pc + 1 } ∧ Holds program cells row.2.sp bytes m' := by
  obtain ⟨moved, rfl, steps⟩ := fetchInv ran
  refine ⟨moved, ?_⟩
  rw [moved]
  exact holds.kept steps (untouched _ (List.mem_singleton_self _) rfl)

theorem fetchWordHolds {row : UInt16 × Acc8} (holds : Holds program cells cpu.sp bytes m)
    (ran : Acc8.fetchWord (acc8Port (invoke depth) program io).watched cpu m =
      (accesses, some (row, m')))
    (untouched : ∀ x ∈ accesses, x.writes = false →
      Untouched cells cpu.sp bytes.length x.before x.after) :
    row.2 = { cpu with pc := cpu.pc + 1 + 1 } ∧ Holds program cells row.2.sp bytes m' := by
  obtain ⟨early, ⟨low, next⟩, m₁, _, one, more, rfl⟩ := Watch.bindInv ran
  obtain ⟨late, ⟨high, last⟩, m₂, _, two, done, rfl⟩ := Watch.bindInv more
  cases done
  obtain ⟨moved, holds⟩ := fetchHolds holds one fun x mem =>
    untouched x (List.mem_append_left _ mem)
  dsimp only at moved
  have same : next.sp = cpu.sp := by rw [moved]
  obtain ⟨moved', holds⟩ := fetchHolds holds two fun x mem => by
    rw [same]
    exact untouched x (List.mem_append_right _ (List.mem_append_left _ mem))
  dsimp only at moved'
  exact ⟨by rw [moved', moved], holds⟩

theorem readHolds {address : UInt16} {value : UInt8} (holds : Holds program cells sp bytes m)
    (ran : (acc8Port (invoke depth) program io).watched.read address m =
      (accesses, some (value, m')))
    (untouched : ∀ x ∈ accesses, x.writes = false → Untouched cells sp bytes.length x.before x.after) :
    Holds program cells sp bytes m' := by
  obtain ⟨rfl, read⟩ := overBusInv ran
  exact holds.kept ((Machine.portSteps depth program io).read _ _ _ _ read).2
    (untouched _ (List.mem_singleton_self _) rfl)

def Sparing (program : SpaceId) (cells : UInt8 → Cell) (sp : UInt8) (bytes : List UInt8) (α : Type)
    (w : Watch BusAccess α) : Prop :=
  ∀ m accesses a m', w m = (accesses, some (a, m')) →
    (∀ x ∈ accesses, Untouched cells sp bytes.length x.before x.after) →
    Holds program cells sp bytes m → Holds program cells sp bytes m'

theorem overBusSparing {α : Type} {writes : Bool} {x : Run α}
    (steps : ∀ m a m', x m = some (a, m') → Steps free m m') :
    Sparing program cells sp bytes α (overBus writes x) := by
  intro m accesses a m' ran untouched holds
  obtain ⟨rfl, goes⟩ := overBusInv ran
  exact holds.kept (steps m a m' goes) (untouched _ (List.mem_singleton_self _))

theorem portSparing (depth : Nat) (program io : SpaceId) (cells : UInt8 → Cell) (sp : UInt8)
    (bytes : List UInt8) :
    Acc8.Port.Related (fun α w _ => Sparing program cells sp bytes α w)
      (acc8Port (invoke depth) program io).watched (acc8Port (invoke depth) program io).watched := by
  have steps := Machine.portSteps depth program io
  refine ⟨fun a m accesses b m' ran _ holds => ?_, fun first rest m accesses b m' ran untouched holds => ?_,
    fun a => overBusSparing fun m v m' ran => (steps.read a m v m' ran).2,
    fun a v => overBusSparing fun m u m' ran => (steps.write a v m u m' ran).2,
    fun a => overBusSparing fun m v m' ran => (steps.input a m v m' ran).2,
    fun a v => overBusSparing fun m u m' ran => (steps.output a v m u m' ran).2⟩
  · cases ran
    exact holds
  · obtain ⟨early, a, m₁, late, one, two, rfl⟩ := Watch.bindInv ran
    refine rest a m₁ late b m' two (fun x mem => untouched x (List.mem_append_right _ mem)) ?_
    exact first m early a m₁ one (fun x mem => untouched x (List.mem_append_left _ mem)) holds

end

end Nested

namespace Acc8
variable {port : Port Run} {cpu cpu' : Acc8} {m m' : Machine}

theorem stepWorkSp {byte : UInt8} {taken : Bool}
    (ran : stepWork port cpu m = some ((cpu', .instruction byte taken), m'))
    (stackless : (Opcode.decode? byte).elim false Opcode.stacks = false) : cpu'.sp = cpu.sp := by
  obtain ⟨_, next, _, _, fetched, same, row⟩ := stepWorkCases ran
  cases same
  have moved : next.sp = cpu.sp := fetchSp fetched
  rcases row with ⟨-, rfl⟩ | ⟨op, decoded, executed⟩
  · split <;> exact moved
  · rw [decoded, Option.elim_some] at stackless
    exact ((executeInv executed).level stackless).trans moved

end Acc8

namespace Nested
open Machine (Steps free invoke acc8Port)
variable {cells : UInt8 → Cell} {program io : SpaceId}

def Ladder : UInt8 → List Pending → Prop
  | _, [] => True
  | sp, p :: rest => p.sp = sp + .ofNat p.bytes.length ∧ Ladder p.sp rest

structure Orderly (program : SpaceId) (cells : UInt8 → Cell) (s : Nested) : Prop where
  holds : Holds program cells s.cpu.sp s.stacked s.machine
  ladder : Ladder s.cpu.sp s.pending

section
variable {depth : Nat} {cpu cpu' : Acc8} {m m' : Machine} {accesses : List BusAccess} {byte : UInt8}
  {taken : Bool}

theorem watchedResult (port : Acc8.Port Run) : port.watched.result = port := by
  have same : ∀ {α : Type} (writes : Bool) (x : Run α), (overBus writes x).result = x := by
    intro α writes x
    funext m
    change (Watch.next (Watch.of x) _ m).2 = x m
    unfold Watch.next Watch.of
    cases x m <;> rfl
  unfold Acc8.Port.result Acc8.Port.watched
  simp only [same]

theorem watchedRelated (port : Acc8.Port Run) :
    Acc8.Port.Related (fun _ w x => w.result = x) port.watched port := by
  have related := Acc8.Port.resultRelated port.watched
  rwa [watchedResult] at related

theorem unwatched {α : Type} {w : Watch BusAccess α} {x : Run α} {r : Option (α × Machine)}
    (same : w.result = x) (ran : w m = (accesses, r)) : x m = r := by
  rw [← same]
  exact congrArg Prod.snd ran

theorem executedInv {port : Acc8.Port Run} {op : Acc8.Opcode}
    (ran : cpu.stepWork port.watched m = (accesses, some ((cpu', .instruction byte taken), m')))
    (decoded : Acc8.Opcode.decode? byte = some op) : ∃ early next m₁ late,
      Acc8.fetch port.watched cpu m = (early, some ((byte, next), m₁)) ∧
      next.execute port.watched op m₁ = (late, some ((cpu', taken), m')) ∧
      accesses = early ++ late := by
  obtain ⟨early, ⟨first, next⟩, m₁, late, fetched, rest, rfl⟩ := Watch.bindInv ran
  dsimp only at rest
  cases known : Acc8.Opcode.decode? first with
  | none =>
    rw [known] at rest
    dsimp only at rest
    split at rest <;> cases rest <;> cases known.symm.trans decoded
  | some other =>
    rw [known] at rest
    obtain ⟨late, ⟨after, took⟩, m₂, _, executed, done, rfl⟩ := Watch.bindInv rest
    cases done
    cases known.symm.trans decoded
    exact ⟨early, next, m₁, late, fetched, executed, by rw [List.append_nil]⟩

variable {bytes : List UInt8}

theorem callHolds (holds : Holds program cells cpu.sp bytes m) (room : bytes.length + 2 ≤ 256)
    (ran : cpu.stepWork (acc8Port (invoke depth) program io).watched m =
      (accesses, some ((cpu', .instruction byte taken), m')))
    (decoded : Acc8.Opcode.decode? byte = some .jsr)
    (untouched : ∀ x ∈ accesses, x.writes = false →
      Untouched cells cpu.sp bytes.length x.before x.after) :
    cpu.sp = cpu'.sp + .ofNat 2 ∧
      Holds program cells cpu'.sp ((Pending.call cpu.sp (cpu.pc + 3)).bytes ++ bytes) m' := by
  obtain ⟨early, next, m₁, late, fetched, executed, rfl⟩ := executedInv ran decoded
  obtain ⟨operands, ⟨target, jump⟩, m₂, more, operand, pushes, rfl⟩ := Watch.bindInv executed
  obtain ⟨stack, after, m₃, _, pushed, done, rfl⟩ := Watch.bindInv pushes
  cases done
  obtain ⟨moved, holds⟩ := fetchHolds holds fetched fun x mem =>
    untouched x (List.mem_append_left _ mem)
  dsimp only at moved
  obtain ⟨jumped, holds⟩ := fetchWordHolds holds operand fun x mem => by
    rw [moved]
    exact untouched x (List.mem_append_right _ (List.mem_append_left _ mem))
  dsimp only at jumped
  obtain ⟨stacked, holds⟩ := holds.pushWord room pushed
  have back : jump.pc = cpu.pc + 3 := by
    rw [jumped, moved]
    grind
  rw [back] at holds
  refine ⟨?_, holds⟩
  rw [stacked, jumped, moved]
  grind

theorem enterHolds {vector : Nat} (holds : Holds program cells cpu.sp bytes m)
    (room : bytes.length + 3 ≤ 256) (known : vector < Acc8.vectorCount)
    (ran : cpu.enter (acc8Port (invoke depth) program io).watched vector m =
      (accesses, some (cpu', m')))
    (untouched : ∀ x ∈ accesses, x.writes = false →
      Untouched cells (cpu.sp - 3) (bytes.length + 3) x.before x.after) :
    cpu.sp = cpu'.sp + .ofNat 3 ∧
      Holds program cells cpu'.sp ((Pending.interrupt cpu.sp cpu.pc cpu.flags).bytes ++ bytes) m' := by
  unfold Acc8.enter at ran
  rw [if_neg (Nat.not_le.mpr known)] at ran
  obtain ⟨early, word, m₁, late, address, pushes, rfl⟩ := Watch.bindInv ran
  obtain ⟨flag, after, m₂, reads, flags, vectors, rfl⟩ := Watch.bindInv pushes
  obtain ⟨both, pc, m₃, _, read, done, rfl⟩ := Watch.bindInv vectors
  obtain ⟨one, low, m₄, more, first, rest, rfl⟩ := Watch.bindInv read
  obtain ⟨two, high, m₅, _, second, paired, rfl⟩ := Watch.bindInv rest
  cases paired
  cases done
  obtain ⟨stacked, holds⟩ := holds.pushWord (by omega) address
  have same : word.flags = cpu.flags := by rw [stacked]
  obtain ⟨stacked', holds⟩ := holds.push (by simp only [List.length_cons]; omega) flags
  have sp : after.sp = cpu.sp - 3 := by
    rw [stacked', stacked]
    grind
  rw [sp, same] at holds
  -- the vector is read when all three are stacked
  replace holds := readHolds holds first fun x mem => untouched x (by simp [mem])
  replace holds := readHolds holds second fun x mem => untouched x (by simp [mem])
  refine ⟨?_, ?_⟩
  · rw [sp]
    grind
  · rw [sp]
    exact holds

end

section
variable {depth : Nat} {cpu cpu' : Acc8} {m m' : Machine} {accesses : List BusAccess} {byte : UInt8}
  {taken : Bool} {bytes : List UInt8} {p : Pending}

theorem returnHolds (holds : Holds program cells cpu.sp (p.bytes ++ bytes) m)
    (ran : cpu.stepWork (acc8Port (invoke depth) program io).watched m =
      (accesses, some ((cpu', .instruction byte taken), m')))
    (decoded : Acc8.Opcode.decode? byte = some p.ending)
    (untouched : ∀ x ∈ accesses, Untouched cells cpu.sp (p.bytes ++ bytes).length x.before x.after)
    (came : p.sp = cpu.sp + .ofNat p.bytes.length) :
    p.Returned cpu' ∧ Holds program cells cpu'.sp bytes m' := by
  obtain ⟨early, next, m₁, late, fetched, executed, rfl⟩ := executedInv ran decoded
  obtain ⟨moved, holds⟩ := fetchHolds holds fetched fun x mem _ =>
    untouched x (List.mem_append_left _ mem)
  dsimp only at moved
  cases p with
  | call sp pc =>
    obtain ⟨_, row, m₂, _, pulled, done, -⟩ := Watch.bindInv executed
    obtain ⟨rfl, holds⟩ := holds.pullWord pulled
    cases done
    refine ⟨⟨?_, rfl⟩, holds⟩
    change next.sp + 1 + 1 = sp
    rw [show sp = cpu.sp + .ofNat 2 from came, moved]
    grind
  | interrupt sp pc flags =>
    obtain ⟨_, row, m₂, _, pulled, more, -⟩ := Watch.bindInv executed
    obtain ⟨rfl, holds⟩ := holds.pull pulled
    obtain ⟨_, row, m₃, _, pulledWord, done, -⟩ := Watch.bindInv more
    obtain ⟨rfl, holds⟩ := Holds.pullWord pulledWord holds
    cases done
    refine ⟨⟨?_, rfl, Acc8.Flags.ofByte_toByte flags⟩, holds⟩
    change next.sp + 1 + 1 + 1 = sp
    rw [show sp = cpu.sp + .ofNat 3 from came, moved]
    grind

end

theorem orderlyTurn {s s' : Nested} {move : Move} (turn : Turn program io cells s move s')
    (orderly : Orderly program cells s) : Orderly program cells s' ∧
      ∀ p, move = .closes p → p.Returned s'.cpu := by
  cases turn with
  | outside steps kept untouched =>
    refine ⟨⟨?_, ?_⟩, fun p h => by cases h⟩
    · rw [kept]
      exact orderly.holds.kept steps untouched
    · rw [kept]
      exact orderly.ladder
  | plain depth ran stackless untouched =>
    have kept := Acc8.stepWorkSp (unwatched (Acc8.stepWorkRelated (watchedRelated _) _) ran) stackless
    refine ⟨⟨?_, ?_⟩, fun p h => by cases h⟩
    · rw [kept]
      exact Acc8.stepWorkRelated (portSparing depth program io cells s.cpu.sp s.stacked) s.cpu _ _ _ _
        ran untouched orderly.holds
    · rw [kept]
      exact orderly.ladder
  | call depth ran decoded room untouched =>
    obtain ⟨sp, holds⟩ := callHolds orderly.holds room ran decoded untouched
    exact ⟨⟨holds, sp, orderly.ladder⟩, fun p h => by cases h⟩
  | interrupt depth ran known room untouched =>
    obtain ⟨sp, holds⟩ := enterHolds orderly.holds room known ran untouched
    exact ⟨⟨holds, sp, orderly.ladder⟩, fun p h => by cases h⟩
  | returns depth inner ran decoded untouched =>
    obtain ⟨cpu₀, m₀, pending⟩ := s
    subst inner
    obtain ⟨came, ladder⟩ := orderly.ladder
    obtain ⟨back, holds⟩ := returnHolds orderly.holds ran decoded untouched came
    refine ⟨⟨holds, ?_⟩, ?_⟩
    · rw [back.sp]
      exact ladder
    · rintro _ ⟨⟩
      exact back

theorem orderlyTurns {s s' : Nested} (turns : Turns program io cells s s')
    (orderly : Orderly program cells s) : Orderly program cells s' := by
  induction turns with
  | still => exact orderly
  | turn _ last ih => exact (orderlyTurn last ih).1

theorem orderlyStart {cpu : Acc8} {m : Machine} (page : m.StackPage program cells) :
    Orderly program cells ⟨cpu, m, []⟩ :=
  ⟨⟨page, fun i b row => by cases row⟩, trivial⟩

theorem opensInv {s s' : Nested} {p : Pending} (turn : Turn program io cells s (.opens p) s') :
    s'.pending = p :: s.pending ∧
      (p = .call s.cpu.sp (s.cpu.pc + 3) ∨ p = .interrupt s.cpu.sp s.cpu.pc s.cpu.flags) := by
  cases turn with
  | call => exact ⟨rfl, .inl rfl⟩
  | interrupt => exact ⟨rfl, .inr rfl⟩

theorem closesInv {s s' : Nested} {p : Pending} (turn : Turn program io cells s (.closes p) s') :
    s.pending = p :: s'.pending := by
  cases turn with
  | returns depth inner => exact inner

/-- Wherever a processor starts, with any stack pointer, in a stack page that is plain memory: as
long as calls and interrupts nest and the stack has room for them, each return goes back to its call
or interrupt, with the stack pointer as it was. After a call the processor goes on behind it, after
an interrupt where it was and with the flags it had. -/
theorem returnsMatch {cpu : Acc8} {m : Machine} {s₀ s₁ s₂ s₃ : Nested} {p q : Pending}
    (page : m.StackPage program cells) (before : Turns program io cells ⟨cpu, m, []⟩ s₀)
    (opens : Turn program io cells s₀ (.opens p) s₁) (inside : Turns program io cells s₁ s₂)
    (level : s₂.pending = s₁.pending) (closes : Turn program io cells s₂ (.closes q) s₃) :
    s₃.cpu.sp = s₀.cpu.sp ∧ s₃.pending = s₀.pending ∧
      (p.ending = .rts → s₃.cpu.pc = s₀.cpu.pc + 3) ∧
      (p.ending = .reti → s₃.cpu.pc = s₀.cpu.pc ∧ s₃.cpu.flags = s₀.cpu.flags) := by
  have orderly := orderlyTurns inside (orderlyTurn opens (orderlyTurns before (orderlyStart page))).1
  obtain ⟨stacked, kind⟩ := opensInv opens
  -- what was opened is on top again, so it is what closes
  have taken := closesInv closes
  rw [level, stacked, List.cons.injEq] at taken
  obtain ⟨rfl, rest⟩ := taken
  have back := (orderlyTurn closes orderly).2 p rfl
  rcases kind with rfl | rfl
  · exact ⟨back.1, rest.symm, fun _ => back.2, fun h => by cases h⟩
  · exact ⟨back.1, rest.symm, (fun h => by cases h), fun _ => back.2⟩

instance (cells : UInt8 → Cell) (sp : UInt8) (count : Nat) (a b : Machine) :
    Decidable (Untouched cells sp count a b) := by
  unfold Untouched
  infer_instance

section
variable (program io : SpaceId) (cells : UInt8 → Cell)

def call? (s : Nested) : Option Nested :=
  match s.cpu.stepWork (acc8Port (invoke 1) program io).watched s.machine with
  | (accesses, some ((cpu, .instruction byte _), m)) =>
      if Acc8.Opcode.decode? byte = some .jsr ∧ s.stacked.length + 2 ≤ 256 ∧
          ∀ x ∈ accesses, x.writes = false →
            Untouched cells s.cpu.sp s.stacked.length x.before x.after then
        some ⟨cpu, m, .call s.cpu.sp (s.cpu.pc + 3) :: s.pending⟩
      else none
  | _ => none

def interrupt? (vector : Nat) (s : Nested) : Option Nested :=
  match s.cpu.enter (acc8Port (invoke 1) program io).watched vector s.machine with
  | (accesses, some (cpu, m)) =>
      if vector < Acc8.vectorCount ∧ s.stacked.length + 3 ≤ 256 ∧
          ∀ x ∈ accesses, x.writes = false →
            Untouched cells (s.cpu.sp - 3) (s.stacked.length + 3) x.before x.after then
        some ⟨cpu, m, .interrupt s.cpu.sp s.cpu.pc s.cpu.flags :: s.pending⟩
      else none
  | _ => none

def return? (s : Nested) : Option (Pending × Nested) :=
  match s.pending, s.cpu.stepWork (acc8Port (invoke 1) program io).watched s.machine with
  | p :: rest, (accesses, some ((cpu, .instruction byte _), m)) =>
      if Acc8.Opcode.decode? byte = some p.ending ∧
          ∀ x ∈ accesses, Untouched cells s.cpu.sp s.stacked.length x.before x.after then
        some (p, ⟨cpu, m, rest⟩)
      else none
  | _, _ => none

variable {program io cells} {s s' : Nested}

theorem callTurn (found : call? program io cells s = some s') :
    Turn program io cells s (.opens (.call s.cpu.sp (s.cpu.pc + 3))) s' := by
  unfold call? at found
  split at found
  · rename_i ran
    split at found
    · rename_i fits
      cases found
      exact .call 1 ran fits.1 fits.2.1 fits.2.2
    · cases found
  · cases found

theorem interruptTurn {vector : Nat} (found : interrupt? program io cells vector s = some s') :
    Turn program io cells s (.opens (.interrupt s.cpu.sp s.cpu.pc s.cpu.flags)) s' := by
  unfold interrupt? at found
  split at found
  · rename_i ran
    split at found
    · rename_i fits
      cases found
      exact .interrupt 1 ran fits.1 fits.2.1 fits.2.2
    · cases found
  · cases found

theorem returnTurn {p : Pending} (found : return? program io cells s = some (p, s')) :
    Turn program io cells s (.closes p) s' := by
  unfold return? at found
  split at found
  · rename_i inner ran
    split at found
    · rename_i fits
      cases found
      exact .returns 1 inner ran fits.1 fits.2
    · cases found
  · cases found

end

def hut : Machine :=
  { config := {}
    spaces := #[{ name := "hut", shape := Acc8.programShape, frozen := true
                  entries := [⟨0, 0x22F, 0, .ram ⟨0⟩ 0⟩, ⟨0xFFF0, 0xFFFF, 0xFFF0, .ram ⟨1⟩ 0⟩] },
      { name := "ports", shape := Acc8.ioShape, frozen := true }]
    memory :=
      { blocks := #[⟨"floor", Array.replicate 0x200 0 ++ #[0x53, 0x10, 0x02] ++
          Array.replicate 13 0 ++ #[0x54] ++ Array.replicate 15 0 ++ #[0x72] ++ Array.replicate 15 0⟩,
        ⟨"roof", #[0x20, 0x02] ++ Array.replicate 14 0⟩] } }

def hutCells (offset : UInt8) : Cell := ⟨⟨0⟩, 0x100 + offset.toNat⟩

theorem hutPage : hut.StackPage ⟨0⟩ hutCells := by
  have all : (List.range 256).all (fun n =>
      hut.ramAt? ⟨0⟩ (Acc8.stackAt (.ofNat n)).toNat == some (hutCells (.ofNat n)) &&
      (hut.memory.byte? (hutCells (.ofNat n))).isSome) = true := by
    decide +kernel
  rw [List.all_eq_true] at all
  have each : ∀ offset : UInt8, hut.ramAt? ⟨0⟩ (Acc8.stackAt offset).toNat = some (hutCells offset) ∧
      (hut.memory.byte? (hutCells offset)).isSome = true := fun offset => by
    have row := all offset.toNat (List.mem_range.mpr offset.toNat_lt)
    rw [UInt8.ofNat_toNat, Bool.and_eq_true] at row
    exact ⟨eq_of_beq row.1, row.2⟩
  refine ⟨fun id s found => ?_, fun offset => (each offset).1, fun {one other} same => ?_,
    fun offset => (each offset).2⟩
  · have frozen : hut.spaces.all (·.frozen) = true := by decide +kernel
    exact Array.all_eq_true_iff_forall_mem.mp frozen s (Array.mem_of_getElem? found)
  · refine UInt8.toNat_inj.mp ?_
    have offsets := congrArg Cell.offset same
    simp only [hutCells] at offsets
    omega

def visitor : Acc8 :=
  { Acc8.new "visitor" {} with
    pc := 0x200, sp := 0, flags := ⟨true, true, true⟩, runState := .running, fetchResetVector := false }

def hutVisit : Option (Nested × Nested × Nested × Nested × Pending × Pending) := do
  let called ← call? ⟨0⟩ ⟨1⟩ hutCells ⟨visitor, hut, []⟩
  let rung ← interrupt? ⟨0⟩ ⟨1⟩ hutCells 0 called
  let (p, resumed) ← return? ⟨0⟩ ⟨1⟩ hutCells rung
  let (q, left) ← return? ⟨0⟩ ⟨1⟩ hutCells resumed
  return (called, rung, resumed, left, p, q)

theorem visitReturns : ∃ called rung resumed left p q,
    Turn ⟨0⟩ ⟨1⟩ hutCells ⟨visitor, hut, []⟩ (.opens (.call 0 0x203)) called ∧
    Turn ⟨0⟩ ⟨1⟩ hutCells called (.opens (.interrupt called.cpu.sp called.cpu.pc called.cpu.flags)) rung ∧
    Turn ⟨0⟩ ⟨1⟩ hutCells rung (.closes p) resumed ∧
    Turn ⟨0⟩ ⟨1⟩ hutCells resumed (.closes q) left ∧
    (resumed.cpu.sp = called.cpu.sp ∧ resumed.cpu.pc = called.cpu.pc ∧
      resumed.cpu.flags = called.cpu.flags) ∧ left.cpu.sp = 0 ∧ left.cpu.pc = 0x203 := by
  have some : hutVisit.isSome = true := by decide +kernel
  obtain ⟨⟨called, rung, resumed, left, p, q⟩, visit⟩ := Option.isSome_iff_exists.mp some
  unfold hutVisit at visit
  obtain ⟨_, calls, visit⟩ := Option.bind_eq_some_iff.mp visit
  obtain ⟨_, rings, visit⟩ := Option.bind_eq_some_iff.mp visit
  obtain ⟨⟨_, _⟩, resumes, visit⟩ := Option.bind_eq_some_iff.mp visit
  obtain ⟨⟨_, _⟩, leaves, visit⟩ := Option.bind_eq_some_iff.mp visit
  cases visit
  have call := callTurn calls
  have ring := interruptTurn rings
  have inner := returnsMatch hutPage (.turn (.still _) call) ring (.still _) rfl (returnTurn resumes)
  have outer := returnsMatch hutPage (.still _) call (.turn (.turn (.still _) ring) (returnTurn resumes))
    inner.2.1 (returnTurn leaves)
  exact ⟨_, _, _, _, _, _, call, ring, returnTurn resumes, returnTurn leaves,
    ⟨inner.1, inner.2.2.2 rfl⟩, outer.1, outer.2.2.1 rfl⟩

end Nested

end Lockstep
