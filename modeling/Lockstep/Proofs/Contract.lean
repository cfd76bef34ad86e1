import Lockstep.Proofs.Termination

/-! What a processor does with the cycles it is granted. It carries out whole instructions and
interrupt entries, gives back what they cost and what it idled away, and returns at the first
boundary where the grant is used up, somebody has asked for a yield, or it has trapped. -/
namespace Lockstep

inductive Whole : List Entry → Prop where
  | done : Whole []
  | idle (cycles : Nat) : Whole [.work (.idle cycles)]
  | entry {s line rest} (accepted : s.line = some line) (after : Whole rest) :
      Whole (.start s :: .work .entry :: rest)
  | instruction {s rest} (plain : s.line = none) (byte : UInt8) (taken : Bool) (after : Whole rest) :
      Whole (.start s :: .work (.instruction byte taken) :: rest)

namespace Machine
open Watch (of)

def yieldPending (m : Machine) (unit : Nat) : Bool :=
  (m.units[unit]?).elim false (·.yieldRequested)

def prepare (unit : Nat) (port : Acc8.Port Run) (cpu : Acc8) : Run Acc8 := do
  publish unit cpu.get?
  cpu.prepare port

def ledgerAcc8 (call : Callback) (unit cycles : Nat) (port : Acc8.Port Run) (cpu : Acc8) :
    Watch Entry (Acc8 × Nat) :=
  (Recorder.ledger call).acc8 unit cycles port.quiet cpu

section
variable {m m' : Machine} {unit cycles : Nat} {cpu cpu' : Acc8} {port : Acc8.Port Run}

theorem stopCases (stop : m.mustStop unit = true) : m.budget ≤ 0 ∨ m.yieldPending unit = true := by
  simpa [mustStop, yieldPending] using stop

theorem stepInstruction {work : Acc8.Work} (ran : cpu.stepWork port m = some ((cpu', work), m')) :
    ∃ byte taken, work = .instruction byte taken := by
  obtain ⟨byte, -, -, taken, -, same, -⟩ := Acc8.stepWorkCases ran
  exact ⟨byte, taken, same⟩

structure Bounded (unit : Nat) (m : Machine) (cpu' : Acc8) (on : Bool) (m' : Machine) : Prop where
  frame : m'.frame = m.frame
  low : -6 ≤ m.budget → -6 ≤ m'.budget
  stop : on = false → m'.mustStop unit = true ∨ cpu'.runState.isTrapped = true

section
variable {call : Callback} (calls : ∀ s m, Acts (call s) m) (kept : port.Keeps Kept)
include calls kept

theorem turnWhole (unit : Nat) (cpu : Acc8) (small : m.budget ≤ budgetLimit) :
    ((Recorder.ledger call).turn unit port.quiet cpu).Ensures m fun entries r => ∀ cpu' on m',
      r = some ((cpu', on), m') → Bounded unit m cpu' on m' ∧
        ∀ rest, Whole rest → (on = false → rest = []) → Whole (entries ++ rest) := by
  have begins : ∀ {m₁ cpu' taken}, Recorder.Boundary unit cpu m m₁ cpu' taken →
      0 < m.budget ∧ m₁.budget = m.budget ∧ m₁.frame = m.frame := fun boundary =>
    ⟨boundaryLeft boundary, (boundaryKept boundary).budget, (boundaryKept boundary).frame⟩
  have trap : ∀ (cpu : Acc8), (!cpu.runState.isTrapped) = false → cpu.runState.isTrapped = true :=
    fun _ off => by simpa using off
  refine Recorder.plainEnsures (fun stop cpu' on m' h => ?_) (fun m₁ cpu₁ boundary _ cpu' on m' h => ?_)
    (fun _ _ _ _ _ _ _ h => by cases h) (fun m₁ cpu₁ cpu₂ work m₂ boundary _ ran cpu' on m' h => ?_)
    fun m₁ cpu₁ line vector m₂ cpu₂ m₃ boundary asked entered cpu' on m' h => ?_
  · cases h
    exact ⟨⟨rfl, id, fun _ => .inl stop⟩, fun _ whole _ => whole⟩
  · obtain ⟨left, budget, frame⟩ := begins boundary
    cases h
    have gone := chargeRest (m := m₁) (by omega) (by omega)
    refine ⟨⟨frame, fun _ => ?_, fun _ => .inl ?_⟩, fun rest _ last => last rfl ▸ .idle _⟩
    · omega
    · change (decide ((m₁.charge m₁.budget.toNat).budget ≤ 0) || _) = true
      rw [gone]
      rfl
  · obtain ⟨left, budget, frame⟩ := begins boundary
    have stepped := stepWorkInv ran
    obtain ⟨-, most⟩ := Acc8.stepCost stepped
    obtain ⟨byte, taken, rfl⟩ := stepInstruction ran
    have second := Acc8.stepRelated kept cpu₁ m₁ _ m₂ stepped
    have budget₂ := second.budget
    cases h
    have paid := Grant.chargeBudget (m := m₂) most (by omega)
    unfold Acc8.interruptCycles at most
    refine ⟨⟨second.frame.trans frame, fun _ => ?_, fun off => .inr (trap _ off)⟩,
      fun rest whole _ => .instruction rfl byte taken whole⟩
    omega
  · obtain ⟨left, budget, frame⟩ := begins boundary
    have second := acknowledgeKept calls line m₁ vector m₂ asked
    have third := second.trans (Acc8.enterRelated kept _ cpu₁ m₂ _ m₃ entered)
    have budget₃ := third.budget
    cases h
    have paid := Grant.chargeBudget (m := m₃) (Nat.le_refl Acc8.interruptCycles) (by omega)
    refine ⟨⟨third.frame.trans frame, fun _ => ?_, fun off => .inr (trap _ off)⟩,
      fun rest whole _ => .entry rfl whole⟩
    unfold Acc8.interruptCycles at *
    omega

theorem loopWhole (unit bound : Nat) (cpu : Acc8) (small : m.budget ≤ budgetLimit)
    (enough : m.budget ≤ bound) :
    ((Recorder.ledger call).loop unit port.quiet bound cpu).Ensures m fun entries r => ∀ cpu' m',
      r = some (cpu', m') → Whole entries ∧ Bounded unit m cpu' false m' := by
  induction bound generalizing cpu m with
  | zero =>
    intro cpu' m' h
    cases h
    have spent : m.budget ≤ 0 := enough
    exact ⟨.done, rfl, id, fun _ => .inl (by simp [mustStop, spent])⟩
  | succ bound ih =>
    have turn := turnWhole calls kept unit cpu small
    have paid := turnAccounted calls kept unit cpu small
    unfold Watch.Ensures at turn paid
    refine Watch.ensuresBind (fun _ _ _ h => by cases h) fun row m₁ goes => ?_
    obtain ⟨cpu₁, on⟩ := row
    rw [goes] at turn paid
    obtain ⟨first, joins⟩ := turn cpu₁ on m₁ rfl
    have cost := paid.1.ends _ _ rfl
    cases on with
    | false =>
      intro cpu' m' h
      cases h
      exact ⟨joins [] .done fun _ => rfl, first⟩
    | true =>
      -- a turn that goes on has cost a cycle, so the bound covers what is left of the budget
      have positive := paid.2 (turnGoes goes) rfl
      refine Watch.ensuresMono (ih cpu₁ (by omega) (by omega)) fun entries r rest cpu' m' h => ?_
      obtain ⟨whole, last⟩ := rest cpu' m' h
      exact ⟨joins entries whole (fun off => by cases off), last.frame.trans first.frame,
        fun low => last.low (first.low low), last.stop⟩

omit calls in
theorem prepareKept (unit : Nat) (cpu : Acc8) (m : Machine) :
    Run.Keeps Kept (prepare unit port cpu) m :=
  Run.keepsBind @Kept.trans (publishKept _) fun _ m₁ _ => Acc8.prepareRelated kept cpu m₁

end

end

structure Granted (m : Machine) (unit cycles : Nat) : Prop where
  frame : ∃ f, m.frame = some f ∧ f.requested = cycles
  budget : m.budget = cycles
  calm : m.yieldPending unit = false

/-- What a run of `count` cycles that leaves `cpu'` and `m'` owes its grant. -/
structure Fulfilled (m : Machine) (unit cycles : Nat) (port : Acc8.Port Run) (cpu : Acc8)
    (entries : List Entry) (cpu' : Acc8) (count : Nat) (m' : Machine) : Prop where
  whole : Whole entries
  exact : count = cost entries
  most : count ≤ cycles + 6
  ends : m'.mustStop unit = true ∨ cpu'.runState.isTrapped = true
  spent : cycles ≤ count ∨ m'.yieldPending unit = true ∨ cpu'.runState.isTrapped = true
  moves : 1 ≤ count ∨ cpu.fetchResetVector = true ∧ ∃ pc m₁,
    Acc8.readWord port Acc8.resetVector (m.modifyUnit unit (·.publish cpu.get?)) = some (pc, m₁) ∧
      m₁.yieldPending unit = true

section
variable {m m' : Machine} {unit cycles : Nat} {cpu cpu' : Acc8}

theorem publishYield (m : Machine) (unit : Nat) (read : RegisterId → Option Nat) :
    (m.modifyUnit unit (·.publish read)).yieldPending unit = m.yieldPending unit := by
  unfold yieldPending modifyUnit
  rw [Array.getElem?_modify, if_pos rfl]
  cases m.units[unit]? <;> rfl

theorem prepareYield {port : Acc8.Port Run} (calm : m.yieldPending unit = false)
    (ran : prepare unit port cpu m = some (cpu', m')) (yields : m'.yieldPending unit = true) :
    cpu.fetchResetVector = true ∧ ∃ pc m₁,
      Acc8.readWord port Acc8.resetVector (m.modifyUnit unit (·.publish cpu.get?)) = some (pc, m₁) ∧
        m₁.yieldPending unit = true := by
  unfold prepare publish Acc8.prepare at ran
  rw [Run.modifyBind] at ran
  by_cases fetches : cpu.fetchResetVector = true
  · refine ⟨fetches, ?_⟩
    simp only [if_pos fetches] at ran
    obtain ⟨pc, m₁, read, ran⟩ := Run.bindInv ran
    cases ran
    exact ⟨pc, _, read, yields⟩
  · simp only [if_neg fetches] at ran
    cases ran
    rw [publishYield, calm] at yields
    cases yields

theorem consumedLeft {f : Frame} {count : Nat} (frame : m.frame = some f)
    (left : m.budget + count = f.requested) (short : count ≤ budgetLimit + 6) :
    m.consumed = count := by
  unfold consumed consumedIn Word.clamp
  rw [frame, Option.elim_some]
  unfold budgetLimit at short
  unfold Word.largest
  omega

end

theorem ledgerAcc8Inv {m m' : Machine} {unit cycles count : Nat} {cpu cpu' : Acc8} {call : Callback}
    {port : Acc8.Port Run} (positive : 1 ≤ cycles) (sane : cpu.runState.isTrapped = false)
    (ran : runAcc8 call unit cycles port cpu m = some ((cpu', count), m')) : ∃ cpu₁ m₁,
      prepare unit port cpu m = some (cpu₁, m₁) ∧ count = m'.consumed ∧
      (Recorder.ledger call).loop unit port.quiet (min cycles budgetLimit) cpu₁ m₁ =
        ((ledgerAcc8 call unit cycles port cpu m).1, some (cpu', m')) := by
  have goes : ¬ (cycles = 0 || cpu.runState.isTrapped) = true := by
    simp [sane]
    omega
  have follows := Recorder.ledgerFollows call
  have ran : ledgerAcc8 call unit cycles port cpu m =
      ((ledgerAcc8 call unit cycles port cpu m).1, some ((cpu', count), m')) :=
    Watch.resultRan (Recorder.acc8Result follows unit cycles port.quiet cpu) ran
  generalize (ledgerAcc8 call unit cycles port cpu m).1 = entries at ran ⊢
  unfold ledgerAcc8 Recorder.acc8 at ran
  rw [if_neg goes, Acc8.prepareQuiet] at ran
  obtain ⟨_, _, m₀, _, publishing, rest, rfl⟩ := Watch.bindInv ran
  obtain ⟨rfl, published⟩ := Watch.ofInv publishing
  obtain ⟨_, cpu₁, m₁, _, preparing, looping, rfl⟩ := Watch.bindInv rest
  obtain ⟨rfl, prepared⟩ := Watch.ofInv preparing
  obtain ⟨_, cpu₂, m₂, _, looped, last, rfl⟩ := Watch.bindInv looping
  cases last
  refine ⟨cpu₁, m₁, ?_, rfl, looped.trans (Prod.ext (List.append_nil _).symm rfl)⟩
  unfold prepare
  rw [Run.bindSome published, prepared]

def runOver (call : Callback) (program io : SpaceId) (unit cycles : Nat) (cpu : Acc8) :
    Run (Acc8 × Nat) :=
  runAcc8 call unit cycles (acc8Port call program io) cpu

/-- Every callback that the run makes returns: the run goes no differently where those that would not
are answered for. -/
def Answered (call : Callback) (program io : SpaceId) (unit cycles : Nat) (cpu : Acc8)
    (m : Machine) : Prop :=
  runOver (answering call) program io unit cycles cpu m = runOver call program io unit cycles cpu m

theorem runAnswered {call : Callback} {program io : SpaceId} {unit cycles : Nat} {cpu : Acc8}
    {m : Machine} (ends : Ends (runOver call program io unit cycles cpu) m) :
    Answered call program io unit cycles cpu m := by
  unfold Answered
  obtain ⟨⟨row, m'⟩, ran⟩ := Option.isSome_iff_exists.mp ends
  have follows := answeringFollows call
  have works := looseCarries.plays.works unit
  have ports := looseCarries.plays.toServes.acc8Port follows program io
  rw [ran]
  exact (works.runAcc8 follows cycles ports cpu m row m' ran).1

/-- Whatever its registers, its memory map and its handlers are, and however its lines are driven:
a trapped processor does nothing; any other returns if its handlers do, at a boundary, and with the
cycles that its work has cost. -/
theorem runContract (depth : Nat) {m : Machine} {unit cycles : Nat} (program io : SpaceId)
    (cpu : Acc8) (granted : m.Granted unit cycles) (least : 1 ≤ cycles)
    (most : cycles ≤ budgetLimit) :
    (cpu.runState.isTrapped = true →
      runOver (invoke depth) program io unit cycles cpu m = some ((cpu, 0), m)) ∧
    (Answered (invoke depth) program io unit cycles cpu m →
      Ends (runOver (invoke depth) program io unit cycles cpu) m) ∧
    (cpu.runState.isTrapped = false → ∀ cpu' count m',
      runOver (invoke depth) program io unit cycles cpu m = some ((cpu', count), m') →
        Fulfilled m unit cycles (acc8Port (invoke depth) program io) cpu
          (ledgerAcc8 (invoke depth) unit cycles (acc8Port (invoke depth) program io) cpu m).1
          cpu' count m') := by
  have calls := invokeActs depth
  have kept := acc8PortKeeps calls program io
  refine ⟨fun trapped => ?_, fun answered => ?_, fun sane cpu' count m' ran => ?_⟩
  · unfold runOver runAcc8
    rw [if_pos (by simp [trapped])]
    rfl
  · unfold Ends
    rw [← answered]
    have answers := answeringEnds (invoke depth)
    have port := @Serves.acc8Port _ _ endsPlays.toServes _ (invoke depth) answers program io
    exact @Works.runAcc8 _ unit _ (endsPlays.works unit) _ (invoke depth) answers cycles _ _ port cpu m
  · obtain ⟨cpu₁, m₁, prepared, rfl, looped⟩ := ledgerAcc8Inv least sane ran
    have first := prepareKept kept unit cpu m cpu₁ m₁ prepared
    have full : m₁.budget = cycles := first.budget.trans granted.budget
    have whole := loopWhole calls kept unit (min cycles budgetLimit) cpu₁ (m := m₁)
      (by omega) (by omega)
    have accounted := loopAccounted calls kept unit (min cycles budgetLimit) cpu₁ (m := m₁) (by omega)
    unfold Watch.Ensures at whole accounted
    rw [looped] at whole accounted
    generalize (ledgerAcc8 (invoke depth) unit cycles (acc8Port (invoke depth) program io) cpu m).1
      = entries at whole accounted ⊢
    obtain ⟨whole, bounded⟩ := whole cpu' m' rfl
    obtain ⟨f, frame, requested⟩ := granted.frame
    have left : m'.budget + cost entries = m₁.budget := accounted.1.ends cpu' m' rfl
    have low := bounded.low (by omega)
    have count : m'.consumed = cost entries :=
      consumedLeft (bounded.frame.trans (first.frame.trans frame)) (by omega) (by omega)
    rw [count]
    have ends := bounded.stop rfl
    refine ⟨whole, rfl, by omega, ends, ?_, ?_⟩
    · rcases ends with stop | trapped
      · exact (stopCases stop).imp (fun spent => by omega) .inl
      · exact .inr (.inr trapped)
    · by_cases stop : m₁.mustStop unit = true
      · refine .inr (prepareYield granted.calm prepared ?_)
        exact (stopCases stop).resolve_left (by omega)
      · refine .inl (accounted.2 (by omega) (Bool.eq_false_iff.mpr stop) rfl)

def errand : Machine :=
  { ((Assembly.new {} .builtin).extend "cpu" (.ofMhz 1) (.acc8 (.new "cpu" {}))).machine with
    frame := some ⟨0, .zero, 10, .ofMicros 10⟩
    budget := 10 }

def errandRuns : Bool :=
  match runOver (invoke 1) ⟨0⟩ ⟨1⟩ 0 10 (.reset (.new "cpu" {})) errand with
  | some _ => true
  | none => false

theorem errandDone : ∃ cpu' count m', errand.Granted 0 10 ∧
    Answered (invoke 1) ⟨0⟩ ⟨1⟩ 0 10 (.reset (.new "cpu" {})) errand ∧
    Ends (runOver (invoke 1) ⟨0⟩ ⟨1⟩ 0 10 (.reset (.new "cpu" {}))) errand ∧
    runOver (invoke 1) ⟨0⟩ ⟨1⟩ 0 10 (.reset (.new "cpu" {})) errand = some ((cpu', count), m') ∧
    Fulfilled errand 0 10 (acc8Port (invoke 1) ⟨0⟩ ⟨1⟩) (.reset (.new "cpu" {}))
      (ledgerAcc8 (invoke 1) 0 10 (acc8Port (invoke 1) ⟨0⟩ ⟨1⟩) (.reset (.new "cpu" {})) errand).1
      cpu' count m' := by
  have runs : errandRuns = true := by decide +kernel
  unfold errandRuns at runs
  split at runs
  · rename_i row ran
    obtain ⟨⟨cpu', count⟩, m'⟩ := row
    have granted : errand.Granted 0 10 := ⟨⟨_, rfl, rfl⟩, rfl, by decide +kernel⟩
    have answered := runAnswered (Option.isSome_iff_exists.mpr ⟨_, ran⟩)
    obtain ⟨-, returns, fulfils⟩ :=
      runContract 1 ⟨0⟩ ⟨1⟩ (.reset (.new "cpu" {})) granted (by decide) (by decide)
    exact ⟨cpu', count, m', granted, answered, returns answered, ran, fulfils rfl cpu' count m' ran⟩
  · cases runs

end Machine

end Lockstep
