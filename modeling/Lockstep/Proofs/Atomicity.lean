import Lockstep.Proofs.Callbacks
import Lockstep.Proofs.Cabling
import Lockstep.Proofs.Doings
import Lockstep.Proofs.Published
import Lockstep.Proofs.Separate

/-! What callbacks find of the processor that runs. An instruction moves its registers and stack as
it goes and is paid for at its end; handlers and sources of vectors, however deep they nest, find
the processor as it was at the boundary before. -/
namespace Lockstep

namespace Acc8

def listing (cpu : Acc8) : List (RegisterId × Nat) :=
  registers.map fun r => (r.id, (cpu.get? r.id).getD 0)

theorem listingIds (cpu : Acc8) : cpu.listing.map Prod.fst = registers.map (·.id) := by
  rw [listing, List.map_map]
  rfl

theorem listingLookup (cpu : Acc8) (id : RegisterId) : cpu.listing.lookup id = cpu.get? id := by
  have other : ∀ {reg : RegisterId}, ¬ id = reg → (id == reg) = false := beq_false_of_ne
  by_cases pc : id = pcId
  · rw [pc]
    rfl
  by_cases a : id = aId
  · rw [a]
    rfl
  by_cases x : id = xId
  · rw [x]
    rfl
  by_cases sp : id = spId
  · rw [sp]
    rfl
  by_cases flags : id = flagsId
  · rw [flags]
    rfl
  simp [listing, registers, get?, List.lookup_cons, pc, a, x, sp, flags, other pc, other a, other x,
    other sp, other flags]

theorem publishListing {p : Processor} (ids : p.published.map Prod.fst = registers.map (·.id))
    (cpu : Acc8) : (p.publish cpu.get?).published = cpu.listing := by
  have rows := congrArg (List.map fun id => (id, (cpu.get? id).getD 0)) ids
  rw [List.map_map, List.map_map] at rows
  exact rows

end Acc8

namespace Doing

def isBoundary : Doing → Bool
  | .boundary .. => true
  | _ => false

@[simp] def cost : Doing → Nat
  | .does work _ => work.cost
  | _ => 0

@[simp] def shows (cpu : Acc8) : Doing → Acc8
  | .boundary cpu' _ => cpu'
  | _ => cpu

/-- The states that callbacks pass through in what a processor does: those of the ports that it
reaches and of the source of its vectors. -/
inductive Reaches (unit : Nat) (w : Wiring) (depth : Nat) : Doing → Machine → Prop where
  | accepts {line m s m₁ m'}
      (calls : Machine.Calls (fun call => Machine.acknowledge call unit line) (Machine.invoke depth)
        m s m₁)
      (inner : Machine.Reaches depth s m₁ m') : Reaches unit w depth (.accepts line m) m'
  | asks {request m s m₁ m'}
      (calls : Machine.Calls (fun call => (Machine.acc8Port call w.program w.io).perform request)
        (Machine.invoke depth) m s m₁)
      (inner : Machine.Reaches depth s m₁ m') : Reaches unit w depth (.asks request m) m'

end Doing

def spent (log : List Doing) : Nat := (log.map Doing.cost).sum

def lastShown (cpu : Acc8) (log : List Doing) : Acc8 := log.foldl Doing.shows cpu

section
variable (left : Int) (cpu : Acc8) (d : Doing) (log : List Doing)

@[simp] theorem spentNil : spent [] = 0 := rfl

@[simp] theorem spentCons : spent (d :: log) = d.cost + spent log := by
  simp only [spent, List.map_cons, List.sum_cons]

@[simp] theorem shownNil : lastShown cpu [] = cpu := rfl

@[simp] theorem shownCons : lastShown cpu (d :: log) = lastShown (d.shows cpu) log := rfl

end

namespace Machine

theorem noteSame (m : Machine) (unit line : Nat) (vector : Option Nat) :
    (m.noteInterrupt unit line vector).units = m.units ∧
      (m.noteInterrupt unit line vector).tree = m.tree := by
  unfold noteInterrupt
  dsimp only
  split
  · exact ⟨traceUnits .., (traceSame ..).2.1⟩
  · exact ⟨rfl, rfl⟩

theorem deedBusy {command : Command} {a b : Machine} {id : DeviceId} (deed : Deed command a b)
    (busy : a.busyAt id = some true) : b.busyAt id = some true := by
  have same : ∀ {b : Machine}, b.tree = a.tree → b.busyAt id = some true := fun tree => by
    rw [busyAt, tree]
    exact busy
  cases deed with
  | still | freeze | poke | load | selectBank | switchBank | allocateTimer | cancelTimer | removeTimer
  | newCell | setCell | note => exact busy
  | map _ _ ok =>
    obtain rfl | ⟨_, _, -, rfl⟩ := mapInv ok
    · exact busy
    · exact busy
  | schedule | scheduleCycles => exact same (treeSteers.cut ..)
  | adjustTimer delay period =>
    unfold adjustTimer
    dsimp only
    split
    · exact same (treeSteers.cut ..)
    · exact busy
  | requestYield | boostInterleave => exact same (treeSteers.yield _)
  | driveLine ok => exact same (treeSteers.driveLine ok)
  | suspend ok => exact same (treeSteers.suspend ok)
  | resume ok => exact same (treeSteers.resume ok)
  | spin ok => exact same (treeSteers.spin ok)
  | driveReset ok => exact ((quietRestarts.driveReset ok).busy id).trans busy
  | setRegister ok =>
    obtain ⟨d, d', -, -, rfl⟩ := setRegisterInv ok
    exact ((quietDevice a _ d').busy id).trans busy
  | emit event => exact same (traceSame a event).2.1
  | @hold _ other _ _ =>
    -- a device that is held is in use all the more
    rw [busySet]
    split
    · rw [busy, Option.map_some]
    · exact busy

end Machine

namespace Grant
open Machine (Kept Lasts Concur AsShown budgetLimit invoke)

structure Poised (g : Grant) (left : Int) (cpu : Acc8) (m : Machine) : Prop where
  within : g.Within m
  budget : m.budget = left
  shows : ∃ p, m.unit g.processor.device = .ok (g.unit, p) ∧ p.published = cpu.listing
  busy : m.busyAt g.processor.device = some true

/-- What callbacks find of a processor that has used up so many cycles in a slice and was last at a
boundary as it is here: the time, the registers, and that it cannot be written or borrowed. -/
structure Sees (g : Grant) (cycles : Nat) (cpu : Acc8) (m : Machine) : Prop where
  now : ∀ call, Command.now.run call m =
    some (.time (g.start + g.processor.period.scale cycles), m)
  register : ∀ call id, (Command.getRegister g.processor.device id).run call m =
    some ((cpu.get? id).elim (.fault (.access (.register (.unknownId id)))) .word, m)
  write : ∀ call id value, (Command.setRegister g.processor.device id value).run call m =
    some (.fault (.access (.busy (m.tree.tag g.processor.device))), m)
  borrow : ∀ call as body, (Command.borrow g.processor.device as body).run call m =
    some (.fault (.access (.busy (m.tree.tag g.processor.device))), m)

inductive Paced (g : Grant) : (begun : Bool) → (left : Int) → Acc8 → List Doing → Prop where
  | done {begun left cpu} : Paced g begun left cpu []
  | boundary {begun left cpu cpu' m log} (rest : Paced g true left cpu' log) :
      Paced g begun left cpu (.boundary cpu' m :: log)
  | accepts {begun left cpu line m log} (positive : 0 < left) (poised : g.Poised left cpu m)
      (rest : Paced g begun left cpu log) : Paced g begun left cpu (.accepts line m :: log)
  | asks {begun left cpu request m log} (positive : 0 < left) (poised : g.Poised left cpu m)
      (rest : Paced g begun left cpu log) : Paced g begun left cpu (.asks request m :: log)
  | does {left cpu cpu' work log} (rest : Paced g true (left - work.cost) cpu log) :
      Paced g true left cpu (.does work cpu' :: log)

variable {g : Grant} {left : Int} {cpu cpu' : Acc8} {m m' : Machine} {log more : List Doing}
  {begun : Bool} {w : Wiring} {depth : Nat}

theorem poisedSees {cycles : Nat} (poised : g.Poised (g.cycles - cycles) cpu m)
    (short : cycles < 2 ^ 63) : g.Sees cycles cpu m := by
  obtain ⟨p, unit, published⟩ := poised.shows
  obtain ⟨-, row⟩ := Machine.unitInv unit
  have own := Machine.unitFound unit
  obtain ⟨node, found, busy⟩ := Option.map_eq_some_iff.mp poised.busy
  have taken : m.idle g.processor.device = .error (.busy (m.tree.tag g.processor.device)) := by
    simp [Machine.idle, Tree.tag, found, busy]
  have consumed : m.consumedIn g.frame = cycles := by
    rw [Machine.consumedIn, poised.budget]
    unfold Word.clamp Word.largest frame
    dsimp only
    omega
  refine ⟨fun call => ?_, fun call id => ?_, fun call id value => ?_, fun call as body => ?_⟩
  · unfold Command.run
    change some (Reply.time m.now, m) = _
    rw [withinNow poised.within, consumed]
  · -- it runs, so its registers are read off what it shows
    have executing : m.executing? = some g.processor.device := by
      rw [Machine.executing?, poised.within.frame]
      change (m.units[g.unit]?).map (·.device) = _
      rw [row, Option.map_some, own]
    have known : p.published? id = cpu.get? id := by
      rw [Processor.published?, published, Acc8.listingLookup]
    have got := Machine.registerShown executing unit id
    rw [known] at got
    unfold Command.run
    change some (Reply.ofAccess ((m.getRegister g.processor.device id).map .word), m) = _
    rw [got]
    cases cpu.get? id <;> rfl
  · have refused : m.setRegister g.processor.device id value =
        .error (.busy (m.tree.tag g.processor.device)) := by
      unfold Machine.setRegister
      rw [taken]
      rfl
    unfold Command.run
    exact Machine.attemptRefused refused
  · unfold Command.run Machine.borrowable
    rw [Run.getBind, taken]
    rfl

/-! The processor while it is out. -/

theorem poisedKept (positive : 0 < left) (kept : Kept m m') (shown : AsShown m m')
    (busy : m'.busyAt g.processor.device = some true) (poised : g.Poised left cpu m) :
    g.Poised left cpu m' := by
  obtain ⟨p, unit, published⟩ := poised.shows
  obtain ⟨p', unit', same⟩ := Machine.shownUnit shown unit
  exact ⟨withinKept poised.within (poised.budget ▸ positive) kept, kept.budget.trans poised.budget,
    ⟨p', unit', same.trans published⟩, busy⟩

theorem poisedBusy {other : DeviceId} (away : other ≠ g.processor.device) (busy : Bool)
    (poised : g.Poised left cpu m) : g.Poised left cpu (m.setBusy other busy) := by
  obtain ⟨p, unit, published⟩ := poised.shows
  have shown : AsShown m (m.setBusy other busy) := rfl
  obtain ⟨p', unit', same⟩ := Machine.shownUnit shown unit
  refine ⟨withinTree poised.within fun _ _ => rfl, poised.budget, ⟨p', unit', same.trans published⟩, ?_⟩
  rw [Machine.busySet, if_neg away]
  exact poised.busy

theorem poisedLasts (g : Grant) (cpu : Acc8) (positive : 0 < left) : Lasts (g.Poised left cpu) where
  touch touch poised := by
    have effect := Machine.touchEffect touch
    exact poisedKept positive (Machine.effectKept effect) (Machine.effectShown effect)
      (((Machine.touchQuiet touch).busy _).trans poised.busy) poised
  deed deed poised := by
    have effect := Machine.deedEffect deed
    exact poisedKept positive (Machine.effectKept effect) (Machine.effectShown effect)
      (Machine.deedBusy deed poised.busy) poised
  lent {m id d} idle poised := by
    -- the processor is in use, so what is lent is another device
    have away : id ≠ g.processor.device := by
      rintro rfl
      have free := Machine.busyIdle idle
      rw [poised.busy] at free
      cases free
    exact ⟨poisedBusy away true poised, fun m' => poisedBusy away false⟩

theorem poisedPublish (positive : 0 < left) (poised : g.Poised left cpu m) (cpu' : Acc8) :
    g.Poised left cpu' (m.modifyUnit g.unit (·.publish cpu'.get?)) := by
  obtain ⟨p, unit, published⟩ := poised.shows
  have kept : Kept m (m.modifyUnit g.unit (·.publish cpu'.get?)) :=
    Machine.publishKept cpu'.get? ⟨⟩ _ rfl
  refine ⟨withinKept poised.within (poised.budget ▸ positive) kept, poised.budget, ?_, poised.busy⟩
  refine ⟨_, Machine.unitModify (fun _ => rfl) unit, Acc8.publishListing ?_ cpu'⟩
  rw [published, Acc8.listingIds]

theorem poisedCharge (poised : g.Poised left cpu m) {cycles : Nat}
    (charged : (m.charge cycles).budget = left - cycles) :
    g.Poised (left - cycles) cpu (m.charge cycles) :=
  ⟨withinCharge poised.within cycles, charged, poised.shows, poised.busy⟩

theorem poisedAcknowledge (positive : 0 < left) {one other : Callback}
    (agree : ∀ s m, Concur (g.Poised left cpu) (one s) (other s) m) (line : Nat) (m : Machine) :
    Concur (g.Poised left cpu) (Machine.acknowledge one g.unit line)
      (Machine.acknowledge other g.unit line) m := by
  have bears := (poisedLasts g cpu positive).obeys.toBears
  refine bears.toServes.acknowledge agree (fun row => ?_) (fun line vector m => ?_) line m
  · refine Machine.concurModify fun poised => ?_
    exact poisedKept positive (.modifyUnit fun _ _ => .still rfl rfl rfl rfl id)
      (Machine.shownModify rfl fun _ => rfl) poised.busy poised
  · refine Machine.concurModify fun poised => ?_
    exact poisedKept positive (Machine.noteInterruptKept m line vector)
      (Machine.shownSame (Machine.noteSame m g.unit line vector).1)
      (by rw [Machine.busyAt, (Machine.noteSame m g.unit line vector).2]; exact poised.busy) poised

theorem poisedPort (positive : 0 < left) {one other : Callback}
    (agree : ∀ s m, Concur (g.Poised left cpu) (one s) (other s) m) (w : Wiring) :
    Acc8.Port.Related (fun _ x y => ∀ m, Concur (g.Poised left cpu) x y m)
      (Machine.acc8Port one w.program w.io) (Machine.acc8Port other w.program w.io) :=
  (poisedLasts g cpu positive).obeys.toServes.acc8Port agree w.program w.io

theorem poisedPerform (positive : 0 < left) {one other : Callback}
    (agree : ∀ s m, Concur (g.Poised left cpu) (one s) (other s) m) (request : Acc8.Request)
    (m : Machine) :
    Concur (g.Poised left cpu) ((Machine.acc8Port one w.program w.io).perform request)
      ((Machine.acc8Port other w.program w.io).perform request) m := by
  have ports := poisedPort positive agree w
  have serves := (poisedLasts g cpu positive).obeys.toServes
  cases request with
  | read a => exact serves.discard (ports.read a m)
  | write a v => exact ports.write a v m
  | input n => exact serves.discard (ports.input n m)
  | output n v => exact ports.output n v m

/-! The log of such a slice. -/

theorem Paced.append (first : g.Paced begun left cpu log)
    (rest : ∀ begun, g.Paced begun (left - spent log) (lastShown cpu log) more) :
    g.Paced begun left cpu (log ++ more) := by
  induction first with
  | done => simpa using rest _
  | boundary _ ih => exact .boundary (ih (by simpa using rest))
  | accepts positive poised _ ih => exact .accepts positive poised (ih (by simpa using rest))
  | asks positive poised _ ih => exact .asks positive poised (ih (by simpa using rest))
  | does _ ih => exact .does (ih (by simpa [Int.sub_sub] using rest))

theorem Paced.reached {before after : List Doing} {d : Doing}
    (paced : g.Paced begun left cpu (before ++ d :: after)) (reached : d.Reaches g.unit w depth m') :
    0 < left - spent before ∧ g.Poised (left - spent before) (lastShown cpu before) m' := by
  induction before generalizing begun left cpu with
  | nil =>
    simp only [spentNil, shownNil, Int.natCast_zero, Int.sub_zero]
    cases reached with
    | accepts calls inner =>
      cases paced with
      | accepts positive poised =>
        have lasts := poisedLasts g cpu positive
        exact ⟨positive, lasts.reaches inner (calls.holds
          (fun _ _ agree => poisedAcknowledge positive agree _ _) (lasts.invoke depth) poised)⟩
    | asks calls inner =>
      cases paced with
      | asks positive poised =>
        have lasts := poisedLasts g cpu positive
        exact ⟨positive, lasts.reaches inner (calls.holds
          (fun _ _ agree => poisedPerform positive agree _ _) (lasts.invoke depth) poised)⟩
  | cons e before ih =>
    cases paced with
    | boundary rest | accepts _ _ rest | asks _ _ rest => simpa using ih rest
    | does rest => simpa [Int.sub_sub] using ih rest

theorem Paced.unspent {before after : List Doing} (paced : g.Paced false left cpu (before ++ after))
    (fresh : ∀ d ∈ before, d.isBoundary = false) : spent before = 0 ∧ lastShown cpu before = cpu := by
  induction before with
  | nil => exact ⟨rfl, rfl⟩
  | cons d before ih =>
    rw [List.forall_mem_cons] at fresh
    cases paced with
    | boundary => cases fresh.1
    | accepts _ _ rest | asks _ _ rest => simpa using ih rest fresh.2

theorem Paced.asked {asks : List Doing} (positive : 0 < left)
    (asked : ∀ d ∈ asks, ∃ request m, d = .asks request m ∧ g.Poised left cpu m)
    (rest : g.Paced begun left cpu log) : g.Paced begun left cpu (asks ++ log) := by
  induction asks with
  | nil => exact rest
  | cons d asks ih =>
    rw [List.forall_mem_cons] at asked
    obtain ⟨⟨request, m, rfl, poised⟩, asked⟩ := asked
    exact .asks positive poised (ih asked)

theorem askedSpent {asks : List Doing} {P : Machine → Prop}
    (asked : ∀ d ∈ asks, ∃ request m, d = .asks request m ∧ P m) (cpu : Acc8) (log : List Doing) :
    spent (asks ++ log) = spent log ∧ lastShown cpu (asks ++ log) = lastShown cpu log := by
  induction asks with
  | nil => exact ⟨rfl, rfl⟩
  | cons d asks ih =>
    rw [List.forall_mem_cons] at asked
    obtain ⟨⟨request, m, rfl, -⟩, asked⟩ := asked
    simpa using ih asked

structure Runs (g : Grant) (begun : Bool) (left : Int) (cpu : Acc8) {α : Type} (log : List Doing)
    (r : Option (α × Machine)) : Prop where
  paced : g.Paced begun left cpu log
  ends : ∀ a m', r = some (a, m') → g.Poised (left - spent log) (lastShown cpu log) m'

namespace Runs
variable {α β : Type} {r : Option (α × Machine)}

theorem still (a : α) (poised : g.Poised left cpu m) : g.Runs begun left cpu [] (some (a, m)) := by
  refine ⟨.done, fun _ _ h => ?_⟩
  cases h
  simpa using poised

theorem stuck : g.Runs begun left cpu [] (none : Option (α × Machine)) :=
  ⟨.done, fun _ _ h => by cases h⟩

theorem boundary (rest : g.Runs true left cpu' log r) :
    g.Runs begun left cpu (.boundary cpu' m :: log) r :=
  ⟨.boundary rest.paced, by simpa using rest.ends⟩

theorem accepts (positive : 0 < left) (poised : g.Poised left cpu m) (line : Nat)
    (rest : g.Runs begun left cpu log r) : g.Runs begun left cpu (.accepts line m :: log) r :=
  ⟨.accepts positive poised rest.paced, by simpa using rest.ends⟩

theorem asked {asks : List Doing} (positive : 0 < left)
    (asked : ∀ d ∈ asks, ∃ request m, d = .asks request m ∧ g.Poised left cpu m)
    (rest : g.Runs begun left cpu log r) : g.Runs begun left cpu (asks ++ log) r := by
  obtain ⟨same, shown⟩ := askedSpent asked cpu log
  exact ⟨.asked positive asked rest.paced, by rw [same, shown]; exact rest.ends⟩

theorem does (work : Acc8.Work) (cpu' : Acc8) (a : α) (poised : g.Poised (left - work.cost) cpu m) :
    g.Runs true left cpu [.does work cpu'] (some (a, m)) := by
  refine ⟨.does .done, fun _ _ h => ?_⟩
  cases h
  simpa using poised

theorem worked {asks : List Doing} {work : Acc8.Work} (positive : 0 < left)
    (asked : ∀ d ∈ asks, ∃ request m, d = .asks request m ∧ g.Poised left cpu m)
    (poised : g.Poised left cpu m) (cheap : work.cost ≤ Acc8.interruptCycles) (cpu' : Acc8) (a : α) :
    g.Runs true left cpu (asks ++ [.does work cpu']) (some (a, m.charge work.cost)) := by
  have charged := chargeBudget cheap (poised.budget ▸ positive)
  rw [poised.budget] at charged
  exact Runs.asked positive asked (.does work cpu' a (poisedCharge poised charged))

theorem onward {b : β} (first : g.Runs begun left cpu log (some (b, m)))
    (rest : ∀ begun, g.Runs begun (left - spent log) (lastShown cpu log) more r) :
    g.Runs begun left cpu (log ++ more) r := by
  have sums : spent (log ++ more) = spent log + spent more := by simp [spent]
  have last : lastShown cpu (log ++ more) = lastShown (lastShown cpu log) more := List.foldl_append
  refine ⟨first.paced.append fun begun => (rest begun).paced, fun a m' h => ?_⟩
  rw [sums, last, Int.natCast_add, ← Int.sub_sub]
  exact (rest true).ends a m' h

end Runs

theorem portAsks (g : Grant) (cpu : Acc8) (positive : 0 < left) (depth : Nat) (w : Wiring) :
    Acc8.Port.Related (fun _ x (_ : Run _) => x.Asks (g.Poised left cpu))
      (Machine.acc8Port (invoke depth) w.program w.io).announced
      (Machine.acc8Port (invoke depth) w.program w.io) := by
  refine Acc8.Port.announcedAsks fun request m u m' poised ran => ?_
  have calls := (poisedLasts g cpu positive).invoke depth
  exact (poisedPerform positive calls request m poised).2 u m' ran

theorem turnPoised (depth : Nat) (w : Wiring) (cpu : Acc8) {last : Acc8}
    (poised : g.Poised left last m) (small : left ≤ budgetLimit) :
    ((Recorder.doings (invoke depth)).turn g.unit
      (Machine.acc8Port (invoke depth) w.program w.io).announced cpu).Ensures m
        (g.Runs begun left last) := by
  have begins : ∀ {m₁ cpu' taken}, Recorder.Boundary g.unit cpu m m₁ cpu' taken →
      0 < left ∧ g.Poised left cpu m₁ := fun {m₁ _ _} boundary => by
    have positive : 0 < left := poised.budget ▸ Machine.boundaryLeft boundary
    have published := boundary.published
    cases published
    exact ⟨positive, poisedPublish positive poised cpu⟩
  refine Recorder.turnEnsures (fun _ => .still _ poised) (fun m₁ cpu' boundary _ => ?_)
    (fun m₁ cpu' boundary _ => ?_) fun m₁ cpu' line boundary => ?_
  · -- idle: the rest of the budget goes at once
    obtain ⟨positive, poised⟩ := begins boundary
    have rest := Machine.chargeRest (poised.budget ▸ small) (poised.budget ▸ positive)
    have charged : (m₁.charge m₁.budget.toNat).budget = left - (m₁.budget.toNat : Nat) := by
      rw [rest, poised.budget]
      omega
    exact .boundary (.does (.idle m₁.budget.toNat) cpu' _ (poisedCharge poised charged))
  · obtain ⟨positive, poised⟩ := begins boundary
    obtain ⟨asked, ends⟩ := Acc8.stepWorkRelated (portAsks g cpu positive depth w) cpu' m₁ poised
    refine ⟨fun _ => ?_, fun cpu₂ work m₂ ran => .boundary ?_⟩
    · exact .boundary (by simpa [Moment.doings] using Runs.asked positive asked .stuck)
    have stepped := Machine.stepWorkInv ((congrFun (Acc8.stepWorkAnnounced _ cpu') m₁).symm.trans ran)
    exact Runs.worked positive asked (ends _ m₂ ran) (Acc8.stepCost stepped).2 cpu₂ _
  · obtain ⟨positive, poised⟩ := begins boundary
    have lasts := (poisedLasts g cpu positive).invoke depth
    refine ⟨fun _ => .boundary (.accepts positive poised line .stuck), fun vector m₂ ran => ?_⟩
    have poised' := (poisedAcknowledge positive lasts line m₁ poised).2 vector m₂ ran
    obtain ⟨asked, ends⟩ := Acc8.enterRelated (portAsks g cpu positive depth w) (vector.getD line) cpu'
      m₂ poised'
    refine ⟨fun _ => .boundary (.accepts positive poised line ?_), fun cpu₂ m₃ ran =>
      .boundary (.accepts positive poised line ?_)⟩
    · simpa using Runs.asked positive asked .stuck
    · exact Runs.worked positive asked (ends cpu₂ m₃ ran) (Nat.le_refl Acc8.Work.entry.cost) cpu₂ _

theorem loopPoised (depth : Nat) (w : Wiring) (bound : Nat) (cpu : Acc8) {last : Acc8}
    (poised : g.Poised left last m) (small : left ≤ budgetLimit) :
    ((Recorder.doings (invoke depth)).loop g.unit
      (Machine.acc8Port (invoke depth) w.program w.io).announced bound cpu).Ensures m
        (g.Runs begun left last) := by
  -- each turn has the budget and the boundary that the turn before has left
  induction bound generalizing begun left last cpu m with
  | zero => exact .still _ poised
  | succ bound ih =>
    refine Watch.ensuresThen (turnPoised depth w cpu poised small)
      (fun _ lost => ⟨lost.paced, fun _ _ h => by cases h⟩) fun log row m' turn => ?_
    obtain ⟨cpu', on⟩ := row
    have poised := turn.ends _ m' rfl
    cases on with
    | false => exact turn.onward fun _ => .still cpu' poised
    | true => exact turn.onward fun _ => ih cpu' poised (by omega)

theorem acc8Poised (depth : Nat) (w : Wiring)
    (opens : g.Poised left cpu (m.modifyUnit g.unit (·.publish cpu.get?))) (positive : 0 < left)
    (small : left ≤ budgetLimit) : g.Paced false left cpu
      ((Recorder.doings (invoke depth)).acc8 g.unit g.cycles
        (Machine.acc8Port (invoke depth) w.program w.io).announced cpu m).1 := by
  have turns : ∀ begun cpu' m', g.Poised left cpu m' → g.Paced begun left cpu
      ((Recorder.doings (invoke depth)).loop g.unit
        (Machine.acc8Port (invoke depth) w.program w.io).announced
        (min g.cycles budgetLimit) cpu' m').1 := fun _ cpu' _ poised =>
    Runs.paced (loopPoised depth w _ cpu' poised small)
  refine Recorder.acc8Ensures .done (fun cpu' => turns _ cpu' _ opens) fun _ => ?_
  obtain ⟨asked, ends⟩ := Acc8.readWordRelated (portAsks g cpu positive depth w) Acc8.resetVector _ opens
  refine ⟨fun _ => ?_, fun pc m' ran cpu' => .asked positive asked (turns _ cpu' m' (ends pc m' ran))⟩
  simpa using Paced.asked positive asked .done

theorem openedPoised (seated : g.Seated cpu w)
    (unit : g.machine.unit g.processor.device = .ok (g.unit, g.processor))
    (ids : g.processor.published.map Prod.fst = Acc8.registers.map (·.id)) :
    g.Poised (min g.cycles budgetLimit : Nat) cpu
      ((g.opened.setBusy g.processor.device true).modifyUnit g.unit (·.publish cpu.get?)) := by
  have full := g.openedBudget
  have within : g.Within (g.opened.setBusy g.processor.device true) :=
    withinTree (withinOpened g) fun _ _ => rfl
  have positive : 0 < (g.opened.setBusy g.processor.device true).budget := by
    change 0 < g.opened.budget
    rw [full]
    exact g.budgetPos
  have ready := Machine.unitModify (f := fun p => { p with yieldRequested := false }) (fun _ => rfl) unit
  have same : (g.opened.setBusy g.processor.device true).units =
      (g.machine.modifyUnit g.unit fun p => { p with yieldRequested := false }).units :=
    Machine.traceUnits ..
  have taken := Machine.unitUnits same ready
  refine ⟨withinKept within positive (Machine.publishKept cpu.get? ⟨⟩ _ rfl), full,
    ⟨_, Machine.unitModify (fun _ => rfl) taken, Acc8.publishListing ids cpu⟩, ?_⟩
  change (g.opened.setBusy g.processor.device true).busyAt g.processor.device = some true
  rw [Machine.busySet, if_pos rfl, Machine.busyIdle ((g.openedIdle _).trans seated.idle)]
  rfl

theorem slicePaced (seated : g.Seated cpu w)
    (unit : g.machine.unit g.processor.device = .ok (g.unit, g.processor))
    (ids : g.processor.published.map Prod.fst = Acc8.registers.map (·.id))
    (short : g.cycles < 2 ^ 63) (depth : Nat) :
    g.Paced false g.cycles cpu (g.doings (invoke depth)) := by
  have whole : min g.cycles budgetLimit = g.cycles := by
    unfold budgetLimit
    omega
  have opens := g.openedPoised seated unit ids
  rw [whole] at opens
  rw [g.doingsSeated seated]
  exact acc8Poised depth w opens (by rw [← whole]; exact g.budgetPos) (by omega)

end Grant

namespace Machine

/-- Handlers and sources of vectors never see the inside of an instruction, nor of an interrupt
entry, however deep they nest: they find the time, the registers and the refusals of the boundary
before it. Before the first boundary, as the reset vector is fetched, that is the start of the slice
with the processor as it was granted. -/
theorem callbacksAtomic {a : Assembly} {marks : List Mark} {m : Machine} {unit : Nat} {p : Processor}
    {cpu : Acc8} (assembled : Assembled a) (found : a.machine.units[unit]? = some p)
    (seat : a.machine.cpu? p.device = some cpu) (chronicle : Chronicle a.machine marks m) :
    (∃ last w, m.cpu? p.device = some last ∧ m.wiring? p.device = some w ∧
      ∀ (g : Grant) (depth : Nat) (before : List Doing) (d : Doing) (after : List Doing) (m' : Machine),
        g.unit = unit → (∃ timers, g.machine = { m with timers }) → g.cycles < 2 ^ 63 →
        g.doings (invoke depth) = before ++ d :: after → d.Reaches unit w depth m' →
        g.Sees (spent before) (lastShown last before) m' ∧
          ((∀ e ∈ before, e.isBoundary = false) → spent before = 0 ∧ lastShown last before = last)) ∧
    (∀ (g : Grant) (depth : Nat), ((Recorder.doings (invoke depth)).granted g).result g.machine =
      runSlice (invoke depth) g.unit g.target g.machine) ∧ a.Chronicled := by
  obtain ⟨c, seen, -⟩ := chronicleLife chronicle (assembledSight assembled found seat)
  obtain ⟨_, here, still⟩ := seen.seat
  obtain ⟨rfl, -⟩ := still rfl
  obtain ⟨w, wired⟩ := assembledCabled assembled p.device cpu seat
  have cabled := (chronicleWiring chronicle p.device).trans wired
  refine ⟨⟨c.cpu, w, here, cabled, ?_⟩, fun g depth => g.doingsSlice _, courseChronicled a⟩
  rintro g depth before d after m' rfl ⟨timers, same⟩ short log reached
  have row := g.found
  rw [same] at row
  have own : g.processor.device = p.device := (seen.apart row).mpr rfl
  -- a slice starts with its processor in the seat, where it is as its life has left it
  by_cases seats : ∃ cpu w, g.Seated cpu w
  · obtain ⟨cpu', w', seated⟩ := seats
    have away : g.machine.cpu? g.processor.device = some c.cpu := by
      rw [own, same]
      exact here
    cases idleCpu seated.idle away
    have wiring := seated.wiring
    rw [own, same] at wiring
    cases cabled.symm.trans wiring
    have listed := chronicleListed chronicle
    have ids := assembledListed assembled g.unit p found (classCpu.mpr ⟨cpu, seat⟩)
    obtain ⟨q, placed, lists⟩ := listedFound listed found
    cases row.symm.trans placed
    rw [← (Prod.mk.inj lists).2] at ids
    have unit : g.machine.unit g.processor.device = .ok (g.unit, g.processor) := by
      have place : g.machine.unitIndex? g.processor.device = some g.unit := by
        rw [own, same]
        exact seen.indexed.mpr rfl
      unfold unit
      rw [place, Option.bind_some, g.found]
      rfl
    have paced := Grant.slicePaced seated unit ids short depth
    rw [log] at paced
    obtain ⟨positive, poised⟩ := paced.reached reached
    exact ⟨Grant.poisedSees poised (by omega), paced.unspent⟩
  · rw [g.doingsUnseated fun cpu w seated => seats ⟨cpu, w, seated⟩] at log
    simp at log

end Machine

def tape : Port :=
  .mk "tape" true false (fun offset _ => .done (.word (if offset = 2 then 0x53 else 0)))
    fun _ _ _ => .ok

def pit : Port :=
  .mk "pit" false true (fun _ _ => .ok) fun _ _ _ =>
    .perform (.read (.owned ⟨0⟩ .program) 0x300 .byte)

def ear : Port := .mk "ear" true false (fun _ _ => .perform .now) fun _ _ _ => .ok

def booth : Assembly :=
  ((((Assembly.new { quantum := .ofMicros 20 } .builtin).extend "cpu" (.ofMhz 1)
    (.acc8 (.new "cpu" { resetPc := some 0x200 }))).wire "cpu" 0x200 0x202 tape).wire
      "cpu" 0x1FE 0x1FE pit).wire "cpu" 0x300 0x300 ear

theorem boothAssembled : Assembled booth :=
  ((((Assembled.new _ _).extend _ _ _).wire _ _ _ _).wire _ _ _ _).wire _ _ _ _

namespace Machine

def boothNests (w : Wiring) (last : Acc8) (log : List Doing) : Bool :=
  match log.drop 11 with
  | .asks (.write a v) m :: _ =>
      let byte := v.toNat % Bus.Width.byte.size
      match m.writeScript? w.program a.toNat byte with
      | some (.step (.read route address .byte) _) =>
          let m' := m.modifySpace w.program (·.drive byte)
          match m'.resolve route with
          | .ok id => (m'.readScript? id address).isSome && decide (spent (log.take 11) = 4) &&
              decide ((lastShown last (log.take 11)).pc = 0x202) &&
              decide ((lastShown last (log.take 11)).sp = 0xFF)
          | .error _ => false
      | _ => false
  | _ => false

theorem nestsInv {w : Wiring} {last : Acc8} {log : List Doing} (nests : boothNests w last log = true)
    (unit depth : Nat) : ∃ before d after m', log = before ++ d :: after ∧
      d.Reaches unit w (depth + 2) m' ∧ spent before = 4 ∧ (lastShown last before).pc = 0x202 ∧
      (lastShown last before).sp = 0xFF := by
  unfold boothNests at nests
  split at nests
  · rename_i a v m after asked
    dsimp only at nests
    split at nests
    · rename_i route address next pushed
      split at nests
      · rename_i id resolved
        simp only [Bool.and_eq_true, decide_eq_true_eq, Option.isSome_iff_exists] at nests
        obtain ⟨⟨⟨⟨s, heard⟩, paid⟩, pc⟩, sp⟩ := nests
        have reached : (Doing.asks (.write a v) m).Reaches unit w (depth + 2) _ :=
          .asks ((writeCalls a.toNat v.toNat).mpr ⟨pushed, rfl⟩)
            (.called ((commandReadCalls resolved).mpr ⟨heard, rfl⟩) .here)
        refine ⟨log.take 11, _, after, _, ?_, reached, paid, pc, sp⟩
        rw [← asked, List.take_append_drop]
      · cases nests
    · cases nests
  · cases nests

def boothChecks : Bool :=
  match booth.machine.units[0]? with
  | some p =>
      match booth.machine.cpu? p.device, booth.machine.wiring? p.device with
      | some last, some w =>
          boothNests w last (Recorder.sliceWith (Recorder.doings (invoke 3)).granted 0 (.ofMicros 20)
              booth.machine).1 &&
            decide (p.clock.cyclesCovering (booth.machine.sliceEnd p.localTime (.ofMicros 20) -
              p.localTime) < 2 ^ 63)
      | _, _ => false
  | none => false

theorem boothAtomic : ∃ p w last, booth.machine.units[0]? = some p ∧
    booth.machine.cpu? p.device = some last ∧ booth.machine.wiring? p.device = some w ∧
    ∃ (g : Grant) (before : List Doing) (d : Doing) (after : List Doing) (m' : Machine),
      g.machine = booth.machine ∧ g.doings (invoke 3) = before ++ d :: after ∧
      d.Reaches 0 w 3 m' ∧ (lastShown last before).pc = 0x202 ∧ (lastShown last before).sp = 0xFF ∧
      g.Sees 4 (lastShown last before) m' := by
  have checks : boothChecks = true := by decide +kernel
  unfold boothChecks at checks
  split at checks
  · rename_i p found
    split at checks
    · rename_i last w here wired
      simp only [Bool.and_eq_true, decide_eq_true_eq] at checks
      obtain ⟨nests, short⟩ := checks
      obtain ⟨before, d, after, m', log, reached, paid, pc, sp⟩ := nestsInv nests 0 1
      let g : Grant := ⟨booth.machine, 0, .ofMicros 20, p, found⟩
      rw [Recorder.sliceFound _ _ found] at log
      obtain ⟨⟨_, _, here', wired', atomic⟩, -, -⟩ := callbacksAtomic boothAssembled found here .origin
      cases here.symm.trans here'
      cases wired.symm.trans wired'
      have brief : g.cycles < 2 ^ 63 := Nat.max_lt.mpr ⟨short, by decide⟩
      obtain ⟨sees, -⟩ := atomic g 3 before d after m' rfl ⟨_, rfl⟩ brief log reached
      rw [paid] at sees
      exact ⟨p, w, last, found, here, wired, g, before, d, after, m', rfl, log, reached, pc, sp, sees⟩
    · cases checks
  · cases checks

end Machine

end Lockstep
