import Lockstep.Proofs.Fixtures
import Lockstep.Proofs.Moments

/-! What processors show of themselves. Only a processor that runs publishes its registers; what
commands do leaves the copy alone, and which registers it lists is settled when its device is
added. -/
namespace Lockstep

namespace Processor

def shown (p : Processor) : DeviceId × List (RegisterId × Nat) := (p.device, p.published)

def listed (p : Processor) : DeviceId × List RegisterId := (p.device, p.published.map Prod.fst)

theorem catchUpShown (p : Processor) (time : Time) : (p.catchUp time).shown = p.shown := by
  unfold catchUp
  split <;> rfl

theorem liftShown (now : Time) (reasons : Suspension) (p : Processor) :
    (p.lift now reasons).shown = p.shown := by
  unfold lift
  dsimp only
  split
  · exact catchUpShown ..
  · rfl

theorem listedShown {p q : Processor} (same : q.shown = p.shown) : q.listed = p.listed :=
  congrArg (fun row => (row.1, row.2.map Prod.fst)) same

theorem publishListed (p : Processor) (read : RegisterId → Option Nat) :
    (p.publish read).listed = p.listed := by
  simp [listed, publish, Function.comp_def]

end Processor

namespace Machine

def AsShown (a b : Machine) : Prop := b.units.map Processor.shown = a.units.map Processor.shown

def AsListed (a b : Machine) : Prop := b.units.map Processor.listed = a.units.map Processor.listed

section
variable {a b c m : Machine} {id : DeviceId} {index : Nat} {f : Processor → Processor}

theorem shownSame (units : b.units = a.units) : AsShown a b := by rw [AsShown, units]

theorem shownModify (units : b.units = (a.modifyUnit index f).units)
    (same : ∀ p, (f p).shown = p.shown) : AsShown a b := by
  rw [AsShown, units]
  exact mapModify same a.units index

theorem shownYield (units : b.units = a.units ∨ b.units = a.requestYield.units) : AsShown a b := by
  rcases units with units | units
  · exact shownSame units
  · unfold requestYield at units
    split at units
    · exact shownModify units fun _ => rfl
    · exact shownSame units

theorem shownSuspend {reasons : Suspension} (ok : a.suspend id reasons = .ok b) : AsShown a b := by
  obtain ⟨index, p, -, units⟩ := suspendUnits ok
  exact shownModify units fun _ => rfl

theorem actShown (act : Act a b) : AsShown a b := by
  cases act with
  | enter | count | sink | drive | countRead | countWrite | freeze | store | select | issue | newCell
  | setCell | allocateTimer | cancelTimer | removeTimer | hold | giveBack => rfl
  | map ok =>
    obtain rfl | ⟨_, _, -, rfl⟩ := mapInv ok
    · rfl
    · rfl
  | schedule => exact shownYield (cutUnits a _ _)
  | adjustTimer timer delay period =>
    unfold adjustTimer
    dsimp only
    split
    · exact shownYield (cutUnits a _ _)
    · rfl
  | requestYield => exact shownYield (.inr rfl)
  | boostInterleave quantum duration =>
    refine shownYield (.inr ?_)
    unfold boostInterleave requestYield
    dsimp only
    split <;> rfl
  | suspend ok => exact shownSuspend ok
  | resume ok =>
    obtain ⟨index, p, -, ⟨-, rfl⟩ | ⟨-, units⟩⟩ := resumeUnits ok
    · rfl
    · exact shownModify units (Processor.liftShown _ _)
  | driveLine ok =>
    obtain ⟨index, p, lines, -, -, units⟩ := driveLineUnits ok
    refine shownModify units fun q => ?_
    split
    · exact Processor.liftShown ..
    · rfl
  | @driveReset _ device asserted ok =>
    cases asserted with
    | true => exact shownSuspend ok
    | false =>
      obtain ⟨index, p, -, ⟨-, rfl⟩ | ⟨-, units⟩⟩ := driveResetUnits ok
      · rfl
      · exact shownModify units fun q => Processor.liftShown _ _ q.cleared
  | setRegister ok =>
    obtain ⟨d, d', -, -, rfl⟩ := setRegisterInv ok
    rfl

theorem effectShown (effect : Effect a b) : AsShown a b :=
  effect.lift (fun _ => rfl) (fun first rest => rest.trans first) actShown

theorem shownUnit {p : Processor} (same : AsShown a b) (unit : a.unit id = .ok (index, p)) :
    ∃ q, b.unit id = .ok (index, q) ∧ q.published = p.published := by
  have rows := congrArg (·[index]?) same
  simp only [Array.getElem?_map, (unitInv unit).2, Option.map_some, Option.map_eq_some_iff] at rows
  obtain ⟨q, found, row⟩ := rows
  have devices : b.units.map (·.device) = a.units.map (·.device) := by
    have firsts := congrArg (Array.map Prod.fst) same
    rwa [Array.map_map, Array.map_map] at firsts
  exact ⟨q, unitDevices devices unit found, congrArg Prod.snd row⟩

theorem registerShown {p : Processor} (executing : m.executing? = some id)
    (unit : m.unit id = .ok (index, p)) (reg : RegisterId) : m.getRegister id reg =
      (p.published? reg).elim (.error (.register (.unknownId reg))) .ok := by
  unfold getRegister
  rw [if_pos executing, unit]
  dsimp only [bind, Except.bind]
  cases p.published? reg <;> rfl

theorem listedShown (same : AsShown a b) : AsListed a b := by
  have lists := congrArg (Array.map fun row => (row.1, row.2.map Prod.fst)) same
  rwa [Array.map_map, Array.map_map] at lists

theorem listedModify (units : b.units = (a.modifyUnit index f).units)
    (same : ∀ p, (f p).listed = p.listed) : AsListed a b := by
  rw [AsListed, units]
  exact mapModify same a.units index

theorem listedFound {p : Processor} (same : AsListed a b) (found : a.units[index]? = some p) :
    ∃ q, b.units[index]? = some q ∧ q.listed = p.listed := by
  have rows := congrArg (·[index]?) same
  simpa only [Array.getElem?_map, found, Option.map_some, Option.map_eq_some_iff] using rows

theorem listedCarries : Carries AsListed where
  refl _ := rfl
  trans first rest := rest.trans first
  touch {a b} touch := by
    cases touch with
    | unmapped => exact listedShown (shownSame (traceUnits ..))
    | drive | countRead | countWrite | store => rfl
  tick {a b} tick := by
    cases tick with
    | pulse pulse =>
      cases pulse with
      | publish unit read => exact listedModify rfl fun p => p.publishListed read
      | accept => exact listedModify rfl fun _ => rfl
      | enter | count | charge => rfl
    | ready | disable => exact listedModify rfl fun _ => rfl
    | settle => exact listedModify (settleUnits ..) fun _ => rfl
    | restart now index =>
      cases reset : a.resetUnit index with
      | ok s =>
        exact listedModify (restartUnits now reset) fun p =>
          Processor.listedShown (Processor.catchUpShown ..)
      | error e =>
        rw [restartSkipped _ reset]
        rfl
    | place | grant | close | freeze | sink => rfl
  lent _ inner := inner

theorem chronicleListed {marks : List Mark} (chronicle : Chronicle a marks m) : AsListed a m :=
  chronicleCarries listedCarries (fun effect => listedShown (effectShown effect)) (fun _ _ => rfl)
    chronicle

end

def Listed (m : Machine) : Prop := ∀ (i : Nat) (p : Processor), m.units[i]? = some p →
  m.classOf? p.device = some .acc8 → p.published.map Prod.fst = Acc8.registers.map (·.id)

section
variable {a b : Machine}

theorem listedKept (listed : Listed a) (same : AsListed a b)
    (classes : ∀ id, b.classOf? id = a.classOf? id) : Listed b := by
  intro i q found acc8
  obtain ⟨p, row, lists⟩ := listedFound same.symm found
  obtain ⟨device, ids⟩ := Prod.mk.inj lists
  rw [classes, ← device] at acc8
  exact ids ▸ listed i p row acc8

theorem listedInstance {a b : Assembly} {tag typeName : String} {clock : ClockRate}
    {parent : Option DeviceId} {device : Device} {id : DeviceId} (distinct : Distinct a.machine)
    (listed : Listed a.machine)
    (added : a.addInstance tag typeName clock parent device = .ok (b, id)) : Listed b.machine := by
  have units := fun {i : Nat} {p : Processor} => unitAdded added (i := i) (p := p)
  obtain ⟨tree, placed, rfl⟩ := addInstanceInv added
  have same : (Assembly.seat a.machine device).1.tree = a.machine.tree := seatTree a.machine device
  have made := Tree.addInv (a := ⟨tag, typeName, clock, parent, (Assembly.seat a.machine device).2⟩)
    placed
  rw [same] at made
  have old : ∀ {i : Nat} {p : Processor}, a.machine.units[i]? = some p →
      ((tree.get? p.device).map fun node => node.device.device.kind) = some .acc8 →
      p.published.map Prod.fst = Acc8.registers.map (·.id) := by
    intro i p found acc8
    obtain ⟨node, there⟩ := Option.isSome_iff_exists.mp (distinct.known found)
    rw [made.kept there] at acc8
    refine listed i p found ?_
    rw [classOf?, there]
    exact acc8
  intro i p found acc8
  rcases units found with found | rfl
  · exact old found acc8
  · rw [classOf?, show (Assembly.processor id clock device).device = id from rfl, made.new] at acc8
    have kind : (Assembly.seat a.machine device).2.device.kind = .acc8 := Option.some.inj acc8
    rw [(Assembly.seatTree a.machine device).2] at kind
    cases device with
    | acc8 cpu => rfl
    | peripheral | sequencer => cases kind

theorem assembledListed {a : Assembly} (h : Assembled a) : Listed a.machine := by
  refine h.keeps (fun config => ?_) (fun memory listed => listed) (fun acts listed => ?_)
    (fun index source listed => ?_) fun before => listedInstance (assembledDistinct before)
  · exact fun i p found => by cases found
  · exact listedKept listed (listedShown (effectShown acts)) (effectKept acts).classes
  · exact listedKept listed (listedModify rfl fun _ => rfl) fun _ => rfl

end

end Machine

end Lockstep
