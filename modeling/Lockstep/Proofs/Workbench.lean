import Lockstep.Machine.Assembly
import Lockstep.Proofs.Naming

/-! The bench at which a machine is put together: an assembly and the indexes that grow with it.
A verb changes them step by step, and each of its steps may fail. Taken together the steps do what
the assembly does at once, and a step that fails is before the first that changes anything. -/
namespace Lockstep

/-- An assembly with the place of the processor and the spaces of each device. -/
structure Bench where
  assembly : Assembly
  unitAt : Array (Option Nat) := #[]
  spaceAt : DeviceId → Bus.SpaceKind → Option SpaceId := fun _ _ => none

namespace Bench

/-- A step at the bench; if it fails, the bench is what it was by then. -/
abbrev Step := EStateM ConfigError Bench

def machine (b : Bench) : Machine := b.assembly.machine

def onMachine (b : Bench) (f : Machine → Machine) : Bench :=
  { b with assembly := { b.assembly with machine := f b.assembly.machine } }

def noted (b : Bench) (journal : Array Activity) : Bench :=
  b.onMachine fun m => { m with journal }

def onTree (b : Bench) (f : Tree Seat → Tree Seat) : Bench :=
  b.onMachine fun m => { m with tree := f m.tree }

def onNodes (b : Bench) (f : Array (Node Seat) → Array (Node Seat)) : Bench :=
  b.onTree fun t => { t with nodes := f t.nodes }

def resize (b : Bench) (count : Nat) : Bench :=
  { b with unitAt := b.unitAt.extract 0 count ++ Array.replicate (count - b.unitAt.size) none }

def register (b : Bench) (id : DeviceId) (row : Bus.SpaceKind × SpaceId) : Bench :=
  { b with spaceAt := fun other kind =>
      if other = id ∧ kind = row.1 then some row.2 else b.spaceAt other kind }

def enter (a : Tree.Addition Seat) : Step DeviceId := do
  let full ← ofExcept ((← get).machine.tree.fullTag a.tag a.parent)
  if (← get).machine.tree.names.contains full then throw (.duplicateTag full)
  if Tree.capacity ≤ (← get).machine.tree.size then throw (.tooManyDevices full)
  let id : DeviceId := ⟨(← get).machine.tree.size⟩
  if let some p := a.parent then
    modify (·.onNodes (·.modify p.index fun n => { n with children := n.children ++ [id] }))
  modify (·.onTree fun t => { t with names := t.names.insert full id })
  modify (·.onNodes (·.push
    { tag := full, typeName := a.typeName, clock := a.clock, parent := a.parent,
      device := a.device }))
  return id

def enlist (id : DeviceId) (clock : ClockRate) (device : Device) : Step Unit := do
  modify fun b => { b with unitAt := b.unitAt.setIfInBounds id.index (some b.machine.units.size) }
  modify (·.onMachine fun m =>
    { m with units := m.units.push (Assembly.processor id clock device) })

def insert (a : Tree.Addition Device) : Step DeviceId := do
  let m := (← get).machine
  if a.device.isUnit && a.clock.isZero then
    throw (.zeroClock (← ofExcept (m.tree.fullTag a.tag a.parent)))
  let (housed, seat) := Assembly.seat m a.device
  let id ← enter ⟨a.tag, a.typeName, a.clock, a.parent, seat⟩
  modify (·.onMachine fun m => { m with spaces := housed.spaces })
  seat.spaces.forM fun row => modify (·.register id row)
  modify (·.resize (id.index + 1))
  if a.device.isUnit then enlist id a.clock a.device
  return id

def make (tag typeName : String) (clock : ClockRate) (parent : Option DeviceId) :
    Step DeviceId := do
  let full ← ofExcept ((← get).machine.tree.fullTag tag parent)
  let (entries, made) := (← get).assembly.registry.create typeName ⟨full, clock, parent⟩
  modify (·.onMachine (·.enterAll entries))
  insert ⟨tag, typeName, clock, parent, ← ofExcept made⟩

def addBlock (block : Memory.Block) : Step Unit := do
  if (← get).machine.memory.blockTags.contains block.tag then
    throw (.duplicateMemoryTag block.tag)
  modify (·.onMachine fun m => { m with memory := m.memory.putBlock block })

def addBank (tag : String) (entries : List (Memory.BlockId × Nat)) (readOnly : Bool) :
    Step Unit := do
  let bank ← ofExcept ((← get).machine.memory.newBank tag entries readOnly)
  if (← get).machine.memory.bankTags.contains bank.tag then throw (.duplicateMemoryTag bank.tag)
  modify (·.onMachine fun m => { m with memory := { m.memory with
    banks := m.memory.banks.push bank
    bankTags := m.memory.bankTags.insert bank.tag ⟨m.memory.banks.size⟩ } })

def place (override : Bool) (id : SpaceId) (first last : Nat) (handler : Bus.Handler Port) :
    Step Unit := do
  let some space := (← get).machine.space? id | return ()
  ofExcept (space.validate (← get).machine.memory first last handler)
  let after := Bus.Space.upFrom space.entries first
  if !override then
    if let some other := after.head?.filter (·.first ≤ last) then
      throw (.overlap space.name first last other.first other.last)
  let entry : Bus.Entry Port := ⟨first, last, first, handler⟩
  let entries :=
    if override then Bus.Space.carve space.entries entry
    else Bus.Space.below space.entries first ++ entry :: after
  modify (·.onMachine (·.modifySpace id fun _ => { space with entries }))

def map (override : Bool) (tag : String) (kind : Bus.SpaceKind) (first last : Nat)
    (handler : Bus.Handler Port) : Step Unit := do
  let b ← get
  let some id := b.machine.tree.find? tag | throw (.missingDevice "machine" tag)
  let some space := (b.spaceAt id kind).or (kind.fallback?.bind (b.spaceAt id))
    | throw (.missingAddressSpace (b.machine.tree.tag id) kind)
  place override space first last handler

inductive Verb where
  | make (tag typeName : String) (clock : ClockRate) (parent : Option DeviceId)
  | add (a : Tree.Addition Device)
  | ram (tag : String) (length : Nat)
  | rom (tag : String) (image : Array UInt8)
  | bank (tag : String) (entries : List (Memory.BlockId × Nat)) (readOnly : Bool)
  | windows (tag : String) (block : Memory.BlockId) (stride count : Nat) (readOnly : Bool)
  | map (override : Bool) (tag : String) (kind : Bus.SpaceKind) (first last : Nat)
      (handler : Bus.Handler Port)

def Verb.steps : Verb → Step (Option DeviceId)
  | .make tag typeName clock parent => some <$> Bench.make tag typeName clock parent
  | .add a => some <$> Bench.insert a
  | .ram tag length => do addBlock (.zeroed tag length); return none
  | .rom tag image => do addBlock ⟨tag, image⟩; return none
  | .bank tag entries readOnly => do addBank tag entries readOnly; return none
  | .windows tag block stride count readOnly => do
      addBank tag (Memory.Bank.strides block stride count) readOnly
      return none
  | .map override tag kind first last handler => do
      Bench.map override tag kind first last handler
      return none

def tried (a : Assembly) : Except ConfigError (Assembly × Option DeviceId) →
    Assembly × Except ConfigError (Option DeviceId)
  | .ok (a, made) => (a, .ok made)
  | .error e => (a, .error e)

def Verb.apply (a : Assembly) : Verb → Assembly × Except ConfigError (Option DeviceId)
  | .make tag typeName clock parent =>
      (a.addDevice tag typeName clock parent).map (fun a => a) (·.map some)
  | .add d => tried a ((a.addInstance d.tag d.typeName d.clock d.parent d.device).map fun (a, id) =>
      (a, some id))
  | .ram tag length => tried a ((a.addBlock (.zeroed tag length)).map (·, none))
  | .rom tag image => tried a ((a.addBlock ⟨tag, image⟩).map (·, none))
  | .bank tag entries readOnly => tried a ((a.addBank tag entries readOnly).map (·, none))
  | .windows tag block stride count readOnly =>
      tried a ((a.addBank tag (Memory.Bank.strides block stride count) readOnly).map (·, none))
  | .map override tag kind first last handler =>
      tried a ((a.map override tag kind first last handler).map (·, none))

def new (config : Config) (registry : Registry) (stock : Memory) : Bench :=
  { assembly := { Assembly.new config registry with
      machine := { config, memory := { stock with blockTags := {}, bankTags := {} } } } }

def after (b : Bench) (verb : Verb) : Bench :=
  match verb.steps b with
  | .ok _ b => b
  | .error _ b => b

section
variable {α β : Type} {b : Bench}

theorem Step.getBind (f : Bench → Step β) : (get >>= f) b = f b b := rfl

theorem Step.modifyBind (f : Bench → Bench) (g : Unit → Step β) :
    ((modify f : Step Unit) >>= g) b = g () (f b) := rfl

theorem Step.okBind (x : α) (f : α → Step β) :
    ((ofExcept (.ok x : Except ConfigError α) : Step α) >>= f) b = f x b := rfl

theorem Step.errorBind (e : ConfigError) (f : α → Step β) :
    ((ofExcept (.error e : Except ConfigError α) : Step α) >>= f) b = .error e b := rfl

theorem Step.bindOk {x : Step α} {f : α → Step β} {a : α} {c : Bench} (ran : x b = .ok a c) :
    (x >>= f) b = f a c := by
  simp only [bind, EStateM.bind, ran]

theorem Step.bindError {x : Step α} {f : α → Step β} {e : ConfigError} {c : Bench}
    (ran : x b = .error e c) : (x >>= f) b = .error e c := by
  simp only [bind, EStateM.bind, ran]

end

variable {b : Bench}

theorem enterCases (a : Tree.Addition Seat) :
    (∃ e, enter a b = .error e b ∧ a.addTo b.machine.tree = .error e) ∨
    ∃ tree id, enter a b = .ok id (b.onTree fun _ => tree) ∧
      a.addTo b.machine.tree = .ok (tree, id) := by
  unfold enter Tree.Addition.addTo Tree.add
  rw [Step.getBind]
  cases b.machine.tree.fullTag a.tag a.parent with
  | error e => exact .inl ⟨e, Step.errorBind .., rfl⟩
  | ok full =>
    rw [Step.okBind, Step.getBind]
    by_cases taken : b.machine.tree.names.contains full = true
    · rw [if_pos taken]
      exact .inl ⟨.duplicateTag full, rfl, if_pos taken⟩
    · rw [if_neg taken]
      dsimp only
      rw [Step.getBind]
      by_cases spent : Tree.capacity ≤ b.machine.tree.size
      · rw [if_pos spent]
        exact .inl ⟨.tooManyDevices full, rfl, (if_neg taken).trans (if_pos spent)⟩
      · rw [if_neg spent]
        refine .inr ⟨_, _, ?_, (if_neg taken).trans (if_neg spent)⟩
        cases a.parent <;> rfl

def rowsFrom (first : Nat) : List SpaceSpec → List (Bus.SpaceKind × SpaceId)
  | [] => []
  | spec :: rest => (spec.shape.kind, ⟨first⟩) :: rowsFrom (first + 1) rest

def specsOf (device : Device) : List SpaceSpec := Bus.SpaceKind.all.filterMap device.spaceOf?

def blank (spec : SpaceSpec) : Bus.Space Port := { name := spec.name, shape := spec.shape }

theorem seatIs (m : Machine) (device : Device) : Assembly.seat m device =
    ({ m with spaces := m.spaces ++ ((specsOf device).map blank).toArray },
      { device, spaces := rowsFrom m.spaces.size (specsOf device) }) := by
  change _ = (_, { ({ device } : Seat) with
    spaces := ({ device } : Seat).spaces ++ rowsFrom m.spaces.size (specsOf device) })
  unfold Assembly.seat specsOf
  generalize Bus.SpaceKind.all.filterMap device.spaceOf? = specs
  generalize ({ device } : Seat) = seat
  induction specs generalizing m seat with
  | nil => simp [rowsFrom]
  | cons spec rest ih =>
    rw [List.foldl_cons, ih]
    simp [Machine.newSpace, rowsFrom, blank]

theorem spaceOfKind {device : Device} {kind : Bus.SpaceKind} {spec : SpaceSpec}
    (owns : device.spaceOf? kind = some spec) : spec.shape.kind = kind := by
  simpa using List.find?_some owns

theorem kindsNodup (device : Device) : ((specsOf device).map (·.shape.kind)).Nodup := by
  have kinds (all : List Bus.SpaceKind) : (all.filterMap device.spaceOf?).map (·.shape.kind) =
      all.filter fun kind => (device.spaceOf? kind).isSome := by
    induction all with
    | nil => rfl
    | cons kind rest ih =>
      cases owns : device.spaceOf? kind with
      | none => simp [owns, ih]
      | some spec => simp [owns, ih, spaceOfKind owns]
  unfold specsOf
  rw [kinds]
  exact List.Pairwise.filter _ (by decide)

theorem rowKinds (first : Nat) (specs : List SpaceSpec) :
    (rowsFrom first specs).map (·.1) = specs.map (·.shape.kind) := by
  induction specs generalizing first with
  | nil => rfl
  | cons spec rest ih => simp [rowsFrom, ih]

theorem rowLookup (first : Nat) (specs : List SpaceSpec) (kind : Bus.SpaceKind) :
    (rowsFrom first specs).lookup kind =
      (specs.findIdx? (·.shape.kind == kind)).map fun i => ⟨first + i⟩ := by
  induction specs generalizing first with
  | nil => rfl
  | cons spec rest ih =>
    rw [rowsFrom, List.lookup_cons, List.findIdx?_cons, ih]
    by_cases same : spec.shape.kind = kind
    · simp [same]
    · have other : (kind == spec.shape.kind) = false := beq_false_of_ne (Ne.symm same)
      simp [same, other, Function.comp_def, Nat.add_assoc, Nat.add_comm 1]

theorem specFind (device : Device) (kind : Bus.SpaceKind) :
    (specsOf device).find? (·.shape.kind == kind) = device.spaceOf? kind := by
  have asked (k : Bus.SpaceKind) : ((device.spaceOf? k).any (·.shape.kind == kind)) =
      (k == kind && (device.spaceOf? kind).isSome) := by
    cases owns : device.spaceOf? k with
    | none => by_cases same : k = kind <;> simp_all
    | some spec =>
      have own := spaceOfKind owns
      by_cases same : k = kind <;> simp_all
  unfold specsOf
  rw [List.find?_filterMap]
  simp only [asked]
  cases owns : device.spaceOf? kind <;> cases kind <;> simp [Bus.SpaceKind.all, owns]

theorem registerAll (id : DeviceId) {rows : List (Bus.SpaceKind × SpaceId)}
    (once : (rows.map (·.1)).Nodup) :
    (rows.forM fun row => (modify (·.register id row) : Step Unit)) b =
      .ok () { b with spaceAt := fun other kind =>
        if other = id then (rows.lookup kind).or (b.spaceAt other kind)
        else b.spaceAt other kind } := by
  induction rows generalizing b with
  | nil =>
    simp only [List.lookup_nil, Option.none_or, ite_self]
    rfl
  | cons row rest ih =>
    obtain ⟨first, space⟩ := row
    obtain ⟨new, once⟩ := List.nodup_cons.mp once
    have tail := ih (b := b.register id (first, space)) once
    change (rest.forM fun row => (modify (·.register id row) : Step Unit))
      (b.register id (first, space)) = _
    rw [tail]
    congr 1
    simp only [register]
    congr 1
    funext other kind
    by_cases here : other = id
    · by_cases same : kind = first
      · have gone : rest.lookup first = none := by
          refine List.lookup_eq_none_iff.mpr fun row mem => bne_iff_ne.mpr ?_
          rintro rfl
          exact new (List.mem_map.mpr ⟨row, mem, rfl⟩)
        simp [here, same, gone]
      · simp [here, same, List.lookup_cons, beq_false_of_ne same]
    · simp [here]

theorem seatMachine (m : Machine) (device : Device) : (Assembly.seat m device).1 =
    { m with spaces := (Assembly.seat m device).1.spaces } := by
  rw [seatIs]

def grown (b : Bench) (a : Tree.Addition Device) (tree : Tree Seat) (id : DeviceId) : Bench :=
  let m := b.machine
  let (housed, seat) := Assembly.seat m a.device
  let room := (b.resize (id.index + 1)).unitAt
  { assembly := { b.assembly with machine := { m with
      tree
      spaces := housed.spaces
      units :=
        if a.device.isUnit then m.units.push (Assembly.processor id a.clock a.device)
        else m.units } }
    unitAt := if a.device.isUnit then room.setIfInBounds id.index (some m.units.size) else room
    spaceAt := fun other kind =>
      if other = id then (seat.spaces.lookup kind).or (b.spaceAt other kind)
      else b.spaceAt other kind }

def seated (a : Tree.Addition Device) (m : Machine) : Tree.Addition Seat :=
  ⟨a.tag, a.typeName, a.clock, a.parent, (Assembly.seat m a.device).2⟩

theorem seatedDevice (a : Tree.Addition Device) (m : Machine) : (seated a m).device =
    { device := a.device, spaces := rowsFrom m.spaces.size (specsOf a.device) } := by
  rw [seated, seatIs]

theorem insertCases (a : Tree.Addition Device) :
    (∃ e, insert a b = .error e b ∧
      b.assembly.addInstance a.tag a.typeName a.clock a.parent a.device = .error e) ∨
    ∃ tree id, insert a b = .ok id (b.grown a tree id) ∧
      b.assembly.addInstance a.tag a.typeName a.clock a.parent a.device =
        .ok ((b.grown a tree id).assembly, id) ∧
      b.machine.tree.Added (seated a b.machine) tree id ∧
      (a.device.isUnit = true → a.clock.isZero = false) := by
  unfold insert Assembly.addInstance
  rw [Step.getBind, show b.assembly.machine = b.machine from rfl]
  by_cases unclocked : (a.device.isUnit && a.clock.isZero) = true
  · simp only [if_pos unclocked]
    cases b.machine.tree.fullTag a.tag a.parent with
    | error e => exact .inl ⟨e, rfl, rfl⟩
    | ok full => exact .inl ⟨.zeroClock full, rfl, rfl⟩
  · simp only [if_neg unclocked]
    have clocked : a.device.isUnit = true → a.clock.isZero = false := fun unit => by
      rw [unit, Bool.true_and, Bool.not_eq_true] at unclocked
      exact unclocked
    have tree : (Assembly.seat b.machine a.device).1.tree = b.machine.tree := by
      rw [seatMachine]
    obtain ⟨e, failed, refused⟩ | ⟨tree', id, done, placed⟩ := enterCases (b := b) (seated a b.machine)
    · refine .inl ⟨e, Step.bindError failed, ?_⟩
      unfold Tree.Addition.addTo seated at refused
      rw [tree, refused]
      rfl
    · refine .inr ⟨tree', id, (Step.bindOk done).trans ?_, ?_, Tree.addInv placed, clocked⟩
      · have once : ((Assembly.seat b.machine a.device).2.spaces.map (·.1)).Nodup := by
          rw [seatIs, rowKinds]
          exact kindsNodup a.device
        rw [Step.modifyBind, Step.bindOk (registerAll id once), Step.modifyBind]
        by_cases unit : a.device.isUnit = true
        · simp only [if_pos unit, grown]
          rfl
        · simp only [if_neg unit, grown]
          rfl
      · unfold Tree.Addition.addTo seated at placed
        rw [tree, placed, seatMachine]
        rfl

theorem addBlockIs (block : Memory.Block) : addBlock block b =
    match b.machine.memory.addBlock block with
    | .ok memory => .ok () (b.onMachine fun m => { m with memory })
    | .error e => .error e b := by
  unfold addBlock Memory.addBlock
  rw [Step.getBind]
  split <;> rfl

theorem addBankIs (tag : String) (entries : List (Memory.BlockId × Nat)) (readOnly : Bool) :
    addBank tag entries readOnly b =
      match b.machine.memory.newBank tag entries readOnly >>= b.machine.memory.addBank with
      | .ok memory => .ok () (b.onMachine fun m => { m with memory })
      | .error e => .error e b := by
  unfold addBank
  rw [Step.getBind]
  cases b.machine.memory.newBank tag entries readOnly with
  | error e => rfl
  | ok bank =>
    rw [Step.okBind, Step.getBind]
    simp only [bind, Except.bind, Memory.addBank]
    split <;> rfl

theorem placeIs (override : Bool) (id : SpaceId) (first last : Nat) (handler : Bus.Handler Port) :
    place override id first last handler b =
      match b.machine.map override id first last handler with
      | .ok m => .ok () (b.onMachine fun _ => m)
      | .error e => .error e b := by
  unfold place Machine.map
  rw [Step.getBind]
  cases b.machine.space? id with
  | none => rfl
  | some space =>
    simp only [Step.getBind]
    cases override with
    | true =>
      simp only [Bus.Space.override]
      cases space.validate b.machine.memory first last handler <;> rfl
    | false =>
      simp only [Bus.Space.install]
      cases space.validate b.machine.memory first last handler with
      | error e => rfl
      | ok =>
        rw [Step.okBind]
        cases (Bus.Space.upFrom space.entries first).head?.filter (·.first ≤ last) <;> rfl

end Bench

end Lockstep
