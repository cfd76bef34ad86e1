import Lockstep.Proofs.Kept
import Lockstep.Proofs.Notes

/-! What holds inside a slice and after it. While cycles of the budget are left, the
present lies no later than the last cycle of the grant, so whatever the processor
starts, and whatever its accesses wake, lies within the slice. A boundary starts at
most one instruction, and each takes cycles off the budget. -/
namespace Lockstep

namespace Time

theorem addMono {a b c : Time} (h : b ≤ c) : a + b ≤ a + c := by
  rw [Time.le_def] at *
  rw [attos_add, attos_add]
  omega

theorem leAdd (a b : Time) : a ≤ a + b := by
  rw [Time.le_def, attos_add]
  have := a.bounded
  omega

theorem scaleMono (t : Time) {n k : Nat} (h : n ≤ k) : t.scale n ≤ t.scale k := by
  rw [Time.le_def, attos_scale, attos_scale]
  have := Nat.mul_le_mul_left t.attos h
  omega

end Time

namespace Machine

section
variable {m : Machine} {unit : Nat}

theorem countKept (m : Machine) (f : Diag → Diag) : Kept m (m.count f) :=
  .same rfl rfl rfl rfl rfl rfl

theorem publishKept (registers : RegisterId → Option Nat) : Run.Keeps Kept (publish unit registers) m :=
  Run.keepsModify (.modifyUnit fun _ _ => .still rfl rfl rfl rfl id)

theorem noteInterruptKept (m : Machine) (line : Nat) (vector : Option Nat) :
    Kept m (m.noteInterrupt unit line vector) := by
  unfold noteInterrupt
  dsimp only
  split
  · exact (countKept m _).trans (.trace _ _)
  · exact countKept m _

theorem boundaryKept {cpu cpu' : Acc8} {m₁ : Machine} {taken : Option Nat}
    (boundary : Recorder.Boundary unit cpu m m₁ cpu' taken) : Kept m m₁ :=
  publishKept _ _ m₁ boundary.published

theorem boundaryLeft {cpu cpu' : Acc8} {m₁ : Machine} {taken : Option Nat}
    (boundary : Recorder.Boundary unit cpu m m₁ cpu' taken) : 0 < m.budget := by
  have goes := boundary.goes
  simp only [mustStop, Bool.or_eq_false_iff, decide_eq_false_iff_not] at goes
  omega

theorem stepWorkInv {port : Acc8.Port Run} {cpu cpu' : Acc8} {work : Acc8.Work} {m m' : Machine}
    (ran : cpu.stepWork port m = some ((cpu', work), m')) :
    cpu.step port m = some ((cpu', work.cost), m') := by
  rw [Acc8.stepWorked, Run.bindSome ran]
  rfl

variable {call : Callback} (calls : ∀ s m, Acts (call s) m)
include calls

theorem callKept (script : Script) (m : Machine) : Run.Keeps Kept (call script) m :=
  fun r m' h => effectKept (calls script m r m' h)

theorem acknowledgeKept (line : Nat) (m : Machine) :
    Run.Keeps Kept (acknowledge call unit line) m := by
  have noted : ∀ (vector : Option Nat) (m : Machine), Run.Keeps Kept (do
      modify (·.noteInterrupt unit line vector)
      return vector : Run (Option Nat)) m := fun vector m =>
    Run.keepsBind @Kept.trans (Run.keepsModify (noteInterruptKept m line vector))
      fun _ _ _ => Run.keepsPure Kept.refl _
  unfold acknowledge
  refine Run.keepsGet ?_
  split
  · exact noted none m
  · rename_i lines answer taken
    refine Run.keepsBind @Kept.trans
      (Run.keepsModify (.modifyUnit fun _ _ => .still rfl rfl rfl rfl id)) fun _ m _ => ?_
    split
    · rename_i vector
      exact noted vector m
    · rename_i source
      exact Run.keepsBind @Kept.trans (callKept calls _ m) fun reply m _ => noted _ m

theorem acc8PortKeeps (program io : SpaceId) : (acc8Port call program io).Keeps Kept := by
  have reads : ∀ (id : SpaceId) (address : Nat) (m : Machine),
      Run.Keeps Kept (do return UInt8.ofNat (← read call id address .byte)) m :=
    fun id address m => Run.keepsBind @Kept.trans
      (fun r m' h => effectKept (readRankActs calls id 0 address m r m' h))
      fun _ _ _ => Run.keepsPure Kept.refl _
  have writes : ∀ (id : SpaceId) (address value : Nat) (m : Machine),
      Run.Keeps Kept (write call id address .byte value) m :=
    fun id address value m r m' h => effectKept (writeRankActs calls id 0 address value m r m' h)
  exact ⟨fun a _ => Run.keepsPure Kept.refl a,
    fun first rest m => Run.keepsBind @Kept.trans (first m) fun a m _ => rest a m,
    fun _ => reads _ _, fun _ _ => writes _ _ _, fun _ => reads _ _, fun _ _ => writes _ _ _⟩

end

end Machine

namespace Grant
open Machine (Kept budgetLimit)

def latest (g : Grant) : Time := g.start + g.processor.period.scale (g.cycles - 1)

structure Within (g : Grant) (m : Machine) : Prop where
  config : m.config = g.machine.config
  frame : m.frame = some g.frame
  clock : m.timers.now = g.machine.timers.now
  sound : g.machine.timers.Sound → m.timers.Sound
  size : m.units.size = g.machine.units.size
  each : ∀ {i : Nat} {p : Processor}, g.machine.units[i]? = some p →
    ∃ p', m.units[i]? = some p' ∧ p.Kept g.start g.latest p'
  classes : ∀ id, m.classOf? id = g.machine.classOf? id
  budget : m.budget ≤ (min g.cycles budgetLimit : Nat)

variable {g : Grant} {m m' : Machine}

theorem cyclesPos (g : Grant) : 1 ≤ g.cycles := Nat.le_max_right ..

theorem withinNow (w : g.Within m) :
    m.now = g.start + g.processor.period.scale (m.consumedIn g.frame) := by
  obtain ⟨p, found, kept⟩ := w.each g.found
  unfold Machine.now
  rw [w.frame]
  dsimp only [frame]
  rw [found]
  dsimp only
  rw [Processor.period, Processor.period, kept.clock]

theorem startLeNow (w : g.Within m) : g.start ≤ m.now := by
  rw [withinNow w]
  exact Time.leAdd ..

theorem nowLeLatest (w : g.Within m) (left : 0 < m.budget) : m.now ≤ g.latest := by
  rw [withinNow w]
  refine Time.addMono (Time.scaleMono _ ?_)
  have := g.cyclesPos
  unfold Machine.consumedIn Word.clamp frame
  dsimp only
  omega

theorem withinKept (w : g.Within m) (left : 0 < m.budget) (kept : Kept m m') : g.Within m' := by
  refine ⟨kept.config.trans w.config, kept.frame.trans w.frame, kept.clock.trans w.clock,
    kept.sound ∘ w.sound, kept.size.trans w.size, fun found => ?_,
    fun id => (kept.classes id).trans (w.classes id), ?_⟩
  · obtain ⟨q, found, one⟩ := w.each found
    obtain ⟨r, found, two⟩ := kept.each found
    exact ⟨r, found, one.trans (two.widen (startLeNow w) (nowLeLatest w left))⟩
  · rw [kept.budget]
    exact w.budget

theorem withinCharge (w : g.Within m) (cycles : Nat) : g.Within (m.charge cycles) := by
  refine ⟨w.config, w.frame, w.clock, w.sound, w.size, w.each, w.classes, ?_⟩
  have := w.budget
  unfold Machine.charge Machine.budgetLimit at *
  dsimp only
  omega

def entered (g : Grant) : Machine :=
  { g.machine with
    frame := some g.frame
    budget := (min g.cycles budgetLimit : Nat) }.modifyUnit g.unit fun p =>
      { p with yieldRequested := false }

theorem withinEntered (g : Grant) : g.Within g.entered := by
  refine ⟨rfl, rfl, rfl, id, Array.size_modify, fun {i p} found => ?_, fun _ => rfl, Int.le_refl _⟩
  change ∃ p', (g.machine.units.modify _ _)[i]? = some p' ∧ _
  rw [Array.getElem?_modify, found]
  split
  · exact ⟨_, rfl, .still rfl rfl rfl rfl id⟩
  · exact ⟨p, rfl, .refl _ _ p⟩

theorem openedBudget (g : Grant) : g.opened.budget = (min g.cycles budgetLimit : Nat) :=
  (Kept.trace g.entered (.sliceStart g.processor.device g.start g.cycles)).budget

theorem budgetPos (g : Grant) : (0 : Int) < (min g.cycles budgetLimit : Nat) := by
  have := g.cyclesPos
  unfold budgetLimit
  omega

theorem withinOpened (g : Grant) : g.Within g.opened :=
  withinKept (withinEntered g) g.budgetPos (Kept.trace g.entered _)

def Started (g : Grant) (s : Start) : Prop := g.Within s.machine ∧ 0 < s.machine.budget

structure Stretch (g : Grant) (m : Machine) {α : Type} (notes : List Start)
    (r : Option (α × Machine)) : Prop where
  started : ∀ s ∈ notes, g.Started s
  paid : (notes.length : Int) ≤ max m.budget 0
  ends : ∀ a m', r = some (a, m') →
    g.Within m' ∧ -6 ≤ m'.budget ∧ m'.budget + notes.length ≤ m.budget

variable {α β : Type} {notes rest : List Start} {r : Option (α × Machine)} {s : Start}

theorem stretchQuiet (ends : ∀ a m', r = some (a, m') →
    g.Within m' ∧ -6 ≤ m'.budget ∧ m'.budget ≤ m.budget) : g.Stretch m [] r := by
  refine ⟨fun s mem => absurd mem List.not_mem_nil, ?_, fun a m' h => ?_⟩
  · rw [List.length_nil]
    omega
  · obtain ⟨w, low, less⟩ := ends a m' h
    rw [List.length_nil]
    exact ⟨w, low, by omega⟩

theorem stretchSame (a : α) (w : g.Within m') (low : -6 ≤ m.budget) (same : m'.budget = m.budget) :
    g.Stretch m [] (some (a, m')) := by
  refine stretchQuiet fun b m'' h => ?_
  cases h
  rw [same]
  exact ⟨w, low, Int.le_refl _⟩

theorem stretchStill (a : α) (w : g.Within m) (low : -6 ≤ m.budget) :
    g.Stretch m [] (some (a, m)) :=
  stretchSame a w low rfl

theorem stretchFails : g.Stretch m [] (none : Option (α × Machine)) :=
  stretchQuiet fun _ _ h => by cases h

theorem stretchLost (lost : g.Stretch m notes (none : Option (α × Machine))) :
    g.Stretch m notes (none : Option (β × Machine)) :=
  ⟨lost.started, lost.paid, fun _ _ h => by cases h⟩

theorem stretchBroken (started : g.Started s) (same : s.machine.budget = m.budget) :
    g.Stretch m [s] (none : Option (α × Machine)) := by
  have left := started.2
  refine ⟨fun t mem => ?_, ?_, fun _ _ h => by cases h⟩
  · cases List.mem_singleton.mp mem
    exact started
  · rw [List.length_singleton]
    omega

theorem chargeBudget {cycles : Nat} (most : cycles ≤ Acc8.interruptCycles) (left : 0 < m.budget) :
    (m.charge cycles).budget = m.budget - cycles := by
  unfold Acc8.interruptCycles at most
  unfold Machine.charge Machine.budgetLimit
  dsimp only
  omega

theorem chargeAll (w : g.Within m) (left : 0 < m.budget) :
    (m.charge m.budget.toNat).budget = 0 := by
  have most := w.budget
  unfold Machine.charge
  unfold budgetLimit at *
  dsimp only
  omega

theorem stretchOnce (a : α) (started : g.Started s) (same : s.machine.budget = m.budget)
    (w : g.Within m') (kept : m'.budget = m.budget) {cycles : Nat} (least : 1 ≤ cycles)
    (most : cycles ≤ Acc8.interruptCycles) :
    g.Stretch m [s] (some (a, m'.charge cycles)) := by
  have left := started.2
  have charged := chargeBudget most (m := m') (by omega)
  refine ⟨(stretchBroken (α := α) started same).started, ?_, fun b m'' h => ?_⟩
  · rw [List.length_singleton]
    omega
  · cases h
    unfold Acc8.interruptCycles at most
    refine ⟨withinCharge w cycles, ?_, ?_⟩
    · omega
    · rw [List.length_singleton]
      omega

theorem stretchMore {b : β} (first : g.Stretch m notes (some (b, m')))
    (more : g.Stretch m' rest r) : g.Stretch m (notes ++ rest) r := by
  obtain ⟨-, -, cost⟩ := first.ends b m' rfl
  have paid := first.paid
  have paid' := more.paid
  refine ⟨fun s mem => ?_, ?_, fun a m'' h => ?_⟩
  · rcases List.mem_append.mp mem with mem | mem
    · exact first.started s mem
    · exact more.started s mem
  · rw [List.length_append, Int.natCast_add]
    omega
  · obtain ⟨w, low, cost'⟩ := more.ends a m'' h
    rw [List.length_append, Int.natCast_add]
    exact ⟨w, low, by omega⟩

section
variable {call : Callback} (calls : ∀ s m, Machine.Acts (call s) m) {port : Acc8.Port Run}
  (kept : port.Keeps Kept)
include calls kept

theorem turnStretch (cpu : Acc8) (w : g.Within m) (low : -6 ≤ m.budget) :
    ((Recorder.starts call).turn g.unit port.quiet cpu).Ensures m (g.Stretch m) := by
  have begins : ∀ {m₁ cpu' taken}, Recorder.Boundary g.unit cpu m m₁ cpu' taken →
      g.Within m₁ ∧ 0 < m₁.budget ∧ m₁.budget = m.budget := fun boundary => by
    have left := Machine.boundaryLeft boundary
    have kept := Machine.boundaryKept boundary
    exact ⟨withinKept w left kept, by rw [kept.budget]; exact left, kept.budget⟩
  refine Recorder.plainEnsures (fun _ => stretchStill _ w low) (fun m₁ cpu' boundary _ => ?_)
    (fun m₁ cpu' taken boundary => ?_) (fun m₁ cpu' cpu₂ work m₂ boundary _ ran => ?_)
    fun m₁ cpu' line vector m₂ cpu₂ m₃ boundary asked entered => ?_
  · -- idle: the rest of the budget goes at once
    obtain ⟨w₁, left₁, same⟩ := begins boundary
    refine stretchQuiet fun a m' h => ?_
    cases h
    have gone := chargeAll w₁ left₁
    refine ⟨withinCharge w₁ _, ?_, ?_⟩
    · rw [gone]
      decide
    · rw [gone, ← same]
      exact Int.le_of_lt left₁
  · obtain ⟨w₁, left₁, same⟩ := begins boundary
    exact stretchBroken ⟨w₁, left₁⟩ same
  · obtain ⟨w₁, left₁, same⟩ := begins boundary
    have stepped := Machine.stepWorkInv ran
    obtain ⟨least, most⟩ := Acc8.stepCost stepped
    have second := Acc8.stepRelated kept cpu' m₁ _ m₂ stepped
    exact stretchOnce _ ⟨w₁, left₁⟩ same (withinKept w₁ left₁ second) (second.budget.trans same) least most
  · obtain ⟨w₁, left₁, same⟩ := begins boundary
    have second := Machine.acknowledgeKept calls line m₁ vector m₂ asked
    have third := second.trans (Acc8.enterRelated kept _ cpu' m₂ _ m₃ entered)
    exact stretchOnce _ ⟨w₁, left₁⟩ same (withinKept w₁ left₁ third) (third.budget.trans same)
      (by decide) (Nat.le_refl _)

theorem loopStretch (bound : Nat) (cpu : Acc8) (w : g.Within m) (low : -6 ≤ m.budget) :
    ((Recorder.starts call).loop g.unit port.quiet bound cpu).Ensures m (g.Stretch m) := by
  induction bound generalizing cpu m with
  | zero => exact stretchStill _ w low
  | succ bound ih =>
    refine Watch.ensuresThen (turnStretch calls kept cpu w low) (fun _ => stretchLost)
      fun _ row m' turn => ?_
    obtain ⟨w', low', -⟩ := turn.ends _ _ rfl
    obtain ⟨cpu', on⟩ := row
    dsimp only
    cases on with
    | true => exact Watch.ensuresMono (ih cpu' w' low') fun _ _ more => stretchMore turn more
    | false => exact stretchMore turn (stretchStill cpu' w' low')

end

theorem stretchFrom {m₁ : Machine} (h : g.Stretch m₁ notes r) (same : m₁.budget = m.budget) :
    g.Stretch m notes r := by
  refine ⟨h.started, ?_, fun a m' goes => ?_⟩
  · rw [← same]
    exact h.paid
  · rw [← same]
    exact h.ends a m' goes

theorem withinConsumed (w : g.Within m) (low : -6 ≤ m.budget) : m.consumed ≤ g.cycles + 6 := by
  unfold Machine.consumed
  rw [w.frame]
  unfold Machine.consumedIn Word.clamp frame
  dsimp only [Option.elim]
  omega

theorem withinTree (w : g.Within m) {id : DeviceId} {f : Seat → Seat}
    (h : ∀ node, m.tree.get? id = some node →
      (f node.device).device.kind = node.device.device.kind) :
    g.Within { m with tree := m.tree.modify id f } :=
  { w with classes := fun id => (Machine.treeModify m Device.kind h id).trans (w.classes id) }

def Counted (g : Grant) (m : Machine) (notes : List Start) (r : Option ((α × Nat) × Machine)) :
    Prop :=
  g.Stretch m notes r ∧ ∀ out m', r = some (out, m') → out.2 ≤ g.cycles + 6

section
variable {call : Callback} (calls : ∀ s m, Machine.Acts (call s) m)
include calls

theorem acc8Counted {port : Acc8.Port Run} (kept : port.Keeps Kept) (cpu : Acc8)
    (w : g.Within m) (left : 0 < m.budget) :
    ((Recorder.starts call).acc8 g.unit g.cycles port.quiet cpu).Ensures m (g.Counted m) := by
  have runs : ∀ (cpu : Acc8) (m₁ : Machine), Kept m m₁ → (do
      let cpu ← (Recorder.starts call).loop g.unit port.quiet (min g.cycles budgetLimit) cpu
      return (cpu, Machine.consumed (← Watch.of get)) : Watch Start (Acc8 × Nat)).Ensures m₁
        (g.Counted m) := by
    intro cpu m₁ first
    have loop := loopStretch calls kept (min g.cycles budgetLimit) cpu (withinKept w left first)
      (by have := first.budget; omega)
    refine Watch.ensuresThen loop
      (fun _ lost => ⟨stretchFrom (stretchLost lost) first.budget, fun _ _ h => by cases h⟩)
      fun _ cpu' m₂ loop => ?_
    obtain ⟨w₂, low, -⟩ := loop.ends _ _ rfl
    refine Watch.ensuresGet ⟨?_, fun out m' h => ?_⟩
    · exact stretchFrom (stretchMore loop (stretchStill _ w₂ low)) first.budget
    · cases h
      exact withinConsumed w₂ low
  unfold Recorder.acc8
  split
  · refine ⟨stretchStill _ w (by omega), fun out m' h => ?_⟩
    cases h
    exact Nat.zero_le _
  · refine Watch.ensuresOf (fun h => by cases h) fun _ m₁ published => ?_
    have first := Machine.publishKept _ _ m₁ published
    rw [Acc8.prepareQuiet]
    refine Watch.ensuresOf (fun _ => ⟨stretchFails, fun _ _ h => by cases h⟩) fun cpu' m₂ prepared => ?_
    exact runs cpu' m₂ (first.trans (Acc8.prepareRelated kept cpu m₁ cpu' m₂ prepared))

theorem deviceCounted (id : DeviceId) (device : Device) (acc8 : device.kind ≠ .sequencer)
    (w : g.Within m) (left : 0 < m.budget) :
    ((Recorder.starts call).device g.unit g.cycles id device).Ensures m fun notes r =>
      g.Stretch m notes r ∧ ∀ d count m', r = some (some (d, count), m') →
        count ≤ g.cycles + 6 ∧ d.kind = device.kind := by
  have still : g.Stretch m [] (some ((none : Option (Device × Nat)), m)) :=
    stretchStill _ w (by omega)
  cases device with
  | sequencer s => exact absurd rfl acc8
  | peripheral p => exact ⟨still, fun _ _ _ h => by cases h⟩
  | acc8 cpu =>
    refine Watch.ensuresGet ?_
    cases m.ownedSpace id .program with
    | error e => exact ⟨still, fun _ _ _ h => by cases h⟩
    | ok program =>
      cases m.ownedSpace id .io with
      | error e => exact ⟨still, fun _ _ _ h => by cases h⟩
      | ok io =>
        have counted := acc8Counted calls (Machine.acc8PortKeeps calls program io) cpu w left
        refine Watch.ensuresThen counted (fun _ lost => ⟨stretchLost lost.1, fun _ _ _ h => by cases h⟩)
          fun _ out m₁ ended => ?_
        obtain ⟨stretch, bound⟩ := ended
        obtain ⟨w₁, low, -⟩ := stretch.ends _ _ rfl
        refine ⟨stretchMore stretch (stretchStill _ w₁ low), fun d count m' h => ?_⟩
        cases h
        exact ⟨bound _ _ rfl, rfl⟩

theorem grantCounted (id : DeviceId) (acc8 : g.machine.classOf? id ≠ some .sequencer)
    (w : g.Within m) (left : 0 < m.budget) :
    ((Recorder.starts call).grant g.unit g.cycles id).Ensures m fun notes r =>
      g.Stretch m notes r ∧ ∀ count trap m', r = some (some (count, trap), m') →
        count ≤ g.cycles + 6 := by
  refine Watch.ensuresGet ?_
  cases idle : m.idle id with
  | error e => exact ⟨stretchStill _ w (by omega), fun _ _ _ h => by cases h⟩
  | ok device =>
    have class_ : m.classOf? id = some device.kind := by
      obtain ⟨node, found, rfl, -⟩ := Machine.idleInv idle
      rw [Machine.classOf?, found, Option.map_some]
    refine Watch.ensuresOf (fun h => by cases h) fun _ m₁ taken => ?_
    cases taken
    have w₁ : g.Within (m.setBusy id true) := withinTree w fun _ _ => rfl
    have counted := deviceCounted calls id device (fun same => acc8 (by
      rw [← w.classes, class_, same])) w₁ left
    refine Watch.ensuresThen counted
      (fun _ lost => ⟨stretchFrom (stretchLost lost.1) rfl, fun _ _ _ h => by cases h⟩)
      fun _ outcome m₂ ended => ?_
    obtain ⟨stretch, bound⟩ := ended
    obtain ⟨w₂, low, cost⟩ := stretch.ends _ _ rfl
    refine Watch.ensuresOf (fun h => by cases h) fun _ m₃ back => ?_
    cases back
    have w₃ : g.Within (m₂.setBusy id false) := withinTree w₂ fun _ _ => rfl
    cases outcome with
    | none =>
      exact ⟨stretchFrom (stretchMore stretch (stretchSame _ w₃ low rfl)) rfl,
        fun _ _ _ h => by cases h⟩
    | some row =>
      obtain ⟨d, count⟩ := row
      obtain ⟨most, kind⟩ := bound d count m₂ rfl
      refine Watch.ensuresOf (fun h => by cases h) fun _ m₄ placed => ?_
      cases placed
      have w₄ : g.Within ((m₂.setBusy id false).withDevice id d) := by
        refine withinTree w₃ fun node found => ?_
        have same : (m₂.setBusy id false).classOf? id = m.classOf? id := by
          rw [w₃.classes, w.classes]
        rw [class_, Machine.classOf?, found, Option.map_some] at same
        exact kind.trans (Option.some.inj same).symm
      refine ⟨stretchFrom (stretchMore stretch (stretchSame _ w₄ low rfl)) rfl, fun _ _ _ h => ?_⟩
      cases h
      exact most

end

end Grant

end Lockstep
