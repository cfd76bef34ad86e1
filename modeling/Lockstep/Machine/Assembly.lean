import Lockstep.Device.Registry
import Lockstep.Machine.Lifecycle

/-! A machine under assembly. Each step either extends it or is refused and leaves it
as it was. Processors are scheduled in the order in which their devices are added. -/
namespace Lockstep

structure Assembly where
  machine : Machine
  registry : Registry := .builtin

namespace Assembly

def new (config : Config) (registry : Registry) : Assembly := { machine := { config }, registry }

def seat (m : Machine) (device : Device) : Machine × Seat :=
  (Bus.SpaceKind.all.filterMap device.spaceOf?).foldl (fun (m, s) spec =>
    let (m, id) := m.newSpace spec
    (m, { s with spaces := s.spaces ++ [(spec.shape.kind, id)] })) (m, { device })

def processor (id : DeviceId) (clock : ClockRate) (device : Device) : Processor :=
  { device := id
    clock := clock
    lines := .ofCount device.lineCount
    published := device.registers.map fun r => (r.id, 0) }

def addInstance (a : Assembly) (tag typeName : String) (clock : ClockRate)
    (parent : Option DeviceId) (device : Device) : Except ConfigError (Assembly × DeviceId) := do
  if device.isUnit && clock.isZero then throw (.zeroClock (← a.machine.tree.fullTag tag parent))
  let (m, seat) := seat a.machine device
  let (tree, id) ← m.tree.add tag typeName clock parent seat
  let units :=
    if device.isUnit then m.units.push (processor id clock device) else m.units
  return ({ a with machine := { m with tree, units } }, id)

def addDevice (a : Assembly) (tag typeName : String) (clock : ClockRate)
    (parent : Option DeviceId) : Assembly × Except ConfigError DeviceId :=
  match a.machine.tree.fullTag tag parent with
  | .error e => (a, .error e)
  | .ok full =>
      let (entries, made) := a.registry.create typeName ⟨full, clock, parent⟩
      let a := { a with machine := a.machine.enterAll entries }
      match made.bind (a.addInstance tag typeName clock parent) with
      | .ok (a, id) => (a, .ok id)
      | .error e => (a, .error e)

def addBlock (a : Assembly) (block : Memory.Block) : Except ConfigError Assembly := do
  let memory ← a.machine.memory.addBlock block
  return { a with machine := { a.machine with memory } }

def addBank (a : Assembly) (tag : String) (entries : List (Memory.BlockId × Nat))
    (readOnly : Bool) : Except ConfigError Assembly := do
  let bank ← a.machine.memory.newBank tag entries readOnly
  let memory ← a.machine.memory.addBank bank
  return { a with machine := { a.machine with memory } }

def space (a : Assembly) (tag : String) (kind : Bus.SpaceKind) : Except ConfigError SpaceId :=
  match a.machine.tree.find? tag with
  | some id => a.machine.ownedSpace id kind
  | none => .error (.missingDevice "machine" tag)

def spaceName (a : Assembly) (tag : String) (kind : Bus.SpaceKind) : Except ConfigError String :=
  (a.space tag kind).map fun id => (a.machine.space? id).elim "" (·.name)

def map (a : Assembly) (override : Bool) (tag : String) (kind : Bus.SpaceKind) (first last : Nat)
    (handler : Bus.Handler Port) : Except ConfigError Assembly := do
  let id ← a.space tag kind
  return { a with machine := ← a.machine.map override id first last handler }

def setVectorSource (a : Assembly) (tag : String) (source : Nat → Script) :
    Except ConfigError Assembly :=
  match (a.machine.tree.find? tag).bind a.machine.unitIndex? with
  | some index => .ok { a with machine := a.machine.modifyUnit index fun p =>
      { p with lines := { p.lines with source := some source } } }
  | none => .error (.missingDevice "machine" tag)

def setVectors (a : Assembly) (tag : String) (vectors : List Nat)
    (tasks : (line : Nat) → List Task) : Except ConfigError Assembly :=
  let (machine, cell) := a.machine.newCell
  { a with machine }.setVectorSource tag (vectorSource cell vectors tasks)

def build (a : Assembly) (call : Callback) : Option (Option ConfigError × Machine) :=
  Machine.start call a.machine

end Assembly

end Lockstep
