import Lockstep.Machine.Lifecycle
import Lockstep.Proofs.Run
import Mathlib.Logic.Relation

/-! What callbacks and hosts can do to a machine: one act for each change that a
command makes, in any order and number. A script, a bus access and the hooks of a
reset or a start are sequences of acts, whatever their callbacks do. -/
namespace Lockstep.Machine
open Bus (Width Region)

inductive Act : Machine → Machine → Prop where
  | enter {m} (entry : Activity) : Act m (m.enter entry)
  | count {m} (f : Diag → Diag) : Act m (m.count f)
  | sink {m} (name : Option String) : Act m (m.setSink name).1
  | drive {m} (id : SpaceId) (value : Nat) : Act m (m.modifySpace id (·.drive value))
  | countRead {m} (id : SpaceId) : Act m (m.modifySpace id (·.countRead))
  | countWrite {m} (id : SpaceId) : Act m (m.modifySpace id (·.countWrite))
  | freeze {m} (id : SpaceId) : Act m (m.modifySpace id (·.freeze))
  | map {m m' override id first last handler}
      (ok : m.map override id first last handler = .ok m') : Act m m'
  | store {m} (block : Memory.BlockId) (offset : Nat) (bytes : List UInt8) :
      Act m { m with memory := m.memory.write block offset bytes }
  | select {m bank index memory} (ok : m.memory.selectBank bank index = .ok memory) :
      Act m { m with memory }
  | issue {m} (id : Timer.Id) : Act m (m.issue id).1
  | newCell {m} : Act m m.newCell.1
  | setCell {m} (cell value : Nat) : Act m { m with cells := m.cells.setIfInBounds cell value }
  | schedule {m} (owner : DeviceId) (delay period : Time) (param : Nat) :
      Act m (m.schedule owner delay period param).1
  | allocateTimer {m} (owner : DeviceId) (param : Nat) : Act m (m.allocateTimer owner param).1
  | adjustTimer {m} (id : Timer.Id) (delay period : Time) : Act m (m.adjustTimer id delay period).1
  | cancelTimer {m} (id : Timer.Id) : Act m (m.cancelTimer id).1
  | removeTimer {m} (id : Timer.Id) : Act m (m.removeTimer id)
  | requestYield {m} : Act m m.requestYield
  | suspend {m m' device reasons} (ok : m.suspend device reasons = .ok m') : Act m m'
  | resume {m m' device reasons} (ok : m.resume device reasons = .ok m') : Act m m'
  | driveLine {m m' device line state vector}
      (ok : m.driveLine device line state vector = .ok m') : Act m m'
  | driveReset {m m' device asserted} (ok : m.driveReset device asserted = .ok m') : Act m m'
  | boostInterleave {m} (quantum duration : Time) : Act m (m.boostInterleave quantum duration)
  | setRegister {m m' device id value} (ok : m.setRegister device id value = .ok m') : Act m m'
  | hold {m device d} (idle : m.idle device = .ok d) : Act m (m.setBusy device true)
  | giveBack {m} (device : DeviceId) : Act m (m.setBusy device false)

def Effect : Machine → Machine → Prop := Relation.ReflTransGen Act

namespace Effect
variable {a b c : Machine}

theorem refl (m : Machine) : Effect m m := Relation.ReflTransGen.refl

theorem trans (first : Effect a b) (rest : Effect b c) : Effect a c :=
  Relation.ReflTransGen.trans first rest

theorem act (h : Act a b) : Effect a b := Relation.ReflTransGen.single h

theorem lift {R : Machine → Machine → Prop} (refl : ∀ m, R m m)
    (trans : ∀ {a b c}, R a b → R b c → R a c) (acts : ∀ {a b}, Act a b → R a b)
    (h : Effect a b) : R a b := by
  induction h with
  | refl => exact refl a
  | tail _ last ih => exact trans ih (acts last)

theorem traced (m : Machine) (event : TraceEvent) : Effect m (m.trace event) := by
  unfold trace
  split
  · split
    · exact act (.enter _)
    · exact refl m
  · exact refl m

theorem unmapped (m : Machine) (kind : Bus.SpaceKind) (address : Nat) (write : Bool) :
    Effect m (m.noteUnmapped kind address write) :=
  (act (.count _)).trans (traced _ _)

end Effect

abbrev Acts {α : Type} (x : Run α) (m : Machine) : Prop := Run.Keeps Effect x m

namespace Acts
variable {α β : Type} {m : Machine}

theorem pure (a : α) : Acts (pure a) m := Run.keepsPure Effect.refl a

theorem modify {g : Machine → Machine} (h : Effect m (g m)) : Acts (modify g) m :=
  Run.keepsModify h

theorem bind {x : Run α} {f : α → Run β} (first : Acts x m) (rest : ∀ a m, Acts (f a) m) :
    Acts (x >>= f) m :=
  Run.keepsBind @Effect.trans first fun a m₁ _ => rest a m₁

theorem get {f : Machine → Run α} (h : Acts (f m) m) : Acts (get >>= f) m := h

theorem discard {x : Run α} (h : Acts x m) : Acts (discard x) m := by
  intro _ m' ok
  obtain ⟨a, m₁, first, rest⟩ := Run.bindInv (x := x) (f := fun _ => Pure.pure PUnit.unit) ok
  obtain ⟨-, rfl⟩ := Run.pureInv rest
  exact h a m₁ first

end Acts

inductive Touch : Machine → Machine → Prop where
  | drive {m} (id : SpaceId) (value : Nat) : Touch m (m.modifySpace id (·.drive value))
  | countRead {m} (id : SpaceId) : Touch m (m.modifySpace id (·.countRead))
  | countWrite {m} (id : SpaceId) : Touch m (m.modifySpace id (·.countWrite))
  | unmapped {m} (kind : Bus.SpaceKind) (address : Nat) (write : Bool) :
      Touch m (m.noteUnmapped kind address write)
  | store {m} (block : Memory.BlockId) (offset : Nat) (bytes : List UInt8) :
      Touch m { m with memory := m.memory.write block offset bytes }

def Touches : Machine → Machine → Prop := Relation.ReflTransGen Touch

inductive Contact (held : SpaceId → Prop) : Machine → Machine → Prop where
  | drive {m} (id : SpaceId) (value : Nat) : Contact held m (m.modifySpace id (·.drive value))
  | store {m} (block : Memory.BlockId) (offset : Nat) (bytes : List UInt8) :
      Contact held m { m with memory := m.memory.write block offset bytes }
  | missRead {m id} (known : held id) (kind : Bus.SpaceKind) (address : Nat) :
      Contact held m ((m.modifySpace id (·.countRead)).noteUnmapped kind address false)
  | missWrite {m id} (known : held id) (kind : Bus.SpaceKind) (address : Nat) :
      Contact held m ((m.modifySpace id (·.countWrite)).noteUnmapped kind address true)

theorem contactTouches {held : SpaceId → Prop} {a b : Machine} (h : Contact held a b) :
    Touches a b := by
  cases h with
  | drive id value => exact .single (.drive id value)
  | store block offset bytes => exact .single (.store block offset bytes)
  | missRead _ kind address =>
    exact (Relation.ReflTransGen.single (.countRead _)).tail (.unmapped kind address false)
  | missWrite _ kind address =>
    exact (Relation.ReflTransGen.single (.countWrite _)).tail (.unmapped kind address true)

structure Serves (held : SpaceId → Prop) (Q : (α : Type) → Run α → Run α → Machine → Prop) :
    Prop where
  pure : ∀ {α : Type} {m : Machine} (a : α), Q α (pure a) (pure a) m
  bind : ∀ {α β : Type} {m : Machine} {x y : Run α} {f g : α → Run β}, Q α x y m →
    (∀ a m, Q β (f a) (g a) m) → Q β (x >>= f) (y >>= g) m
  get : ∀ {α : Type} {m : Machine} {f g : Machine → Run α}, Q α (f m) (g m) m →
    Q α (get >>= f) (get >>= g) m
  known : ∀ {α : Type} {m : Machine} {id : SpaceId} {space : Bus.Space Port} {x y : Run α},
    m.space? id = some space → (held id → Q α x y m) → Q α x y m
  contact : ∀ {m : Machine} {g : Machine → Machine}, Contact held m (g m) →
    Q PUnit (modify g) (modify g) m

structure Bears (Q : (α : Type) → Run α → Run α → Machine → Prop) : Prop
    extends Serves (fun _ => True) Q where
  touch : ∀ {m : Machine} {g : Machine → Machine}, Touches m (g m) →
    Q PUnit (modify g) (modify g) m
  known := fun _ inner => inner trivial
  contact := fun h => touch (contactTouches h)

theorem bearsFollows {R : Machine → Machine → Prop} (refl : ∀ m, R m m)
    (trans : ∀ {a b c}, R a b → R b c → R a c) (touch : ∀ {a b}, Touch a b → R a b) :
    Bears fun _ => Run.Follows R where
  pure a := Run.followsSame (Run.keepsPure refl a)
  bind first rest := Run.followsBind @trans first rest
  get h := h
  touch {m g} touches := by
    refine Run.followsSame (Run.keepsModify ?_)
    generalize g m = m' at touches
    induction touches with
    | refl => exact refl m
    | tail _ last ih => exact trans ih (touch last)

theorem touchEffect {a b : Machine} (touch : Touch a b) : Effect a b := by
  cases touch with
  | drive id value => exact .act (.drive id value)
  | countRead id => exact .act (.countRead id)
  | countWrite id => exact .act (.countWrite id)
  | unmapped kind address write => exact .unmapped ..
  | store block offset bytes => exact .act (.store block offset bytes)

theorem effectBears : Bears fun _ => Run.Follows Effect :=
  bearsFollows Effect.refl Effect.trans touchEffect

namespace Serves
variable {held : SpaceId → Prop} {Q : (α : Type) → Run α → Run α → Machine → Prop}
  (serves : Serves held Q) {α β : Type} {m : Machine}
include serves

theorem discard {x y : Run α} (h : Q α x y m) : Q PUnit (discard x) (discard y) m :=
  serves.bind (f := fun _ => Pure.pure PUnit.unit) (g := fun _ => Pure.pure PUnit.unit) h
    fun _ _ => serves.pure _

variable {call other : Callback} (calls : ∀ s m, Q Reply (call s) (other s) m)
include calls

theorem readHandler (order : Bus.ByteOrder) (region : Region Port) (address : Nat)
    (width : Width) (m : Machine) : Q _ (readHandler call order region address width)
      (readHandler other order region address width) m := by
  unfold Machine.readHandler
  cases region.handler with
  | ram | rom | bank => exact serves.get (serves.pure _)
  | unmapped => exact serves.pure _
  | port p =>
    dsimp only
    split
    · exact serves.bind (calls _ m) fun _ _ => serves.pure _
    · exact serves.pure _

section
variable {id : SpaceId} (known : held id)
include known

theorem readRegion (space : Bus.Space Port) (region : Region Port) (address : Nat) (width : Width)
    (m : Machine) : Q _ (readRegion call id space region address width)
      (readRegion other id space region address width) m := by
  refine serves.bind (serves.readHandler calls _ _ _ _ m) fun value m => ?_
  cases value with
  | some value => exact serves.bind (serves.contact (.drive id value)) fun _ _ => serves.pure _
  | none =>
    exact serves.bind (serves.contact (.missRead known space.shape.kind address)) fun _ _ =>
      serves.get (serves.pure _)

theorem writeHandler (space : Bus.Space Port) (region : Region Port) (address : Nat)
    (width : Width) (value : Nat) (m : Machine) :
    Q _ (writeHandler call id space region address width value)
      (writeHandler other id space region address width value) m := by
  unfold Machine.writeHandler
  cases region.handler with
  | ram => exact serves.contact (.store ..)
  | rom => exact serves.pure _
  | bank id =>
    refine serves.get ?_
    split
    · split
      · exact serves.contact (.store ..)
      · exact serves.pure _
    · exact serves.pure _
  | port p =>
    dsimp only
    split
    · exact serves.discard (calls _ m)
    · exact serves.pure _
  | unmapped => exact serves.contact (.missWrite known space.shape.kind address)

theorem writeRegion (space : Bus.Space Port) (region : Region Port) (address : Nat)
    (width : Width) (value : Nat) (m : Machine) :
    Q _ (writeRegion call id space region address width value)
      (writeRegion other id space region address width value) m :=
  serves.bind (serves.contact (.drive id value)) fun _ _ =>
    serves.writeHandler calls known _ _ _ _ _ _

end

theorem readRank (id : SpaceId) (rank : Nat) (address : Nat) (m : Machine) :
    Q _ (readRank call id rank address) (readRank other id rank address) m := by
  induction rank generalizing address m with
  | zero =>
    refine serves.get ?_
    cases found : m.space? id with
    | none => exact serves.pure _
    | some space => exact serves.known found fun known => serves.readRegion calls known _ _ _ _ _
  | succ rank ih =>
    refine serves.get ?_
    cases found : m.space? id with
    | none => exact serves.pure _
    | some space =>
      dsimp only
      split
      · exact serves.bind (ih _ m) fun _ m => serves.bind (ih _ m) fun _ _ => serves.pure _
      · exact serves.known found fun known => serves.readRegion calls known _ _ _ _ _

theorem writeRank (id : SpaceId) (rank : Nat) (address value : Nat) (m : Machine) :
    Q _ (writeRank call id rank address value) (writeRank other id rank address value) m := by
  induction rank generalizing address value m with
  | zero =>
    refine serves.get ?_
    cases found : m.space? id with
    | none => exact serves.pure _
    | some space =>
      exact serves.known found fun known => serves.writeRegion calls known _ _ _ _ _ _
  | succ rank ih =>
    refine serves.get ?_
    cases found : m.space? id with
    | none => exact serves.pure _
    | some space =>
      dsimp only
      split
      · exact serves.bind (ih _ _ m) fun _ m => ih _ _ m
      · exact serves.known found fun known => serves.writeRegion calls known _ _ _ _ _ _

end Serves

section
variable {call : Callback} (calls : ∀ s m, Acts (call s) m)
include calls

theorem readRankActs (id : SpaceId) (rank : Nat) (address : Nat) (m : Machine) :
    Acts (readRank call id rank address) m :=
  (effectBears.readRank (fun s m => Run.followsSame (calls s m)) id rank address m).keeps

theorem writeRankActs (id : SpaceId) (rank : Nat) (address value : Nat) (m : Machine) :
    Acts (writeRank call id rank address value) m :=
  (effectBears.writeRank (fun s m => Run.followsSame (calls s m)) id rank address value m).keeps

end

end Lockstep.Machine
