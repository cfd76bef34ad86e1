import Lockstep.Device.Kinds
import Lockstep.Bus.Space

/-! The state of a machine: its devices, processors, spaces, memory and timers, the
slice that runs, and what it has recorded. A device that is in use further up is
busy; it cannot be used again until it comes back. -/
namespace Lockstep

structure Seat where
  device : Device
  busy : Bool := false
  spaces : List (Bus.SpaceKind × SpaceId) := []

structure Processor where
  device : DeviceId
  clock : ClockRate
  lines : InputLines (Nat → Script)
  published : List (RegisterId × Nat)
  localTime : Time := .zero
  totalCycles : Nat := 0
  suspension : Suspension := {}
  yieldRequested : Bool := false

structure Frame where
  unit : Nat
  start : Time
  requested : Nat
  finish : Time
  deriving DecidableEq, Repr

structure Boost where
  quantum : Time
  expires : Time
  deriving DecidableEq, Repr

structure Machine where
  config : Config
  tree : Tree Seat := {}
  units : Array Processor := #[]
  spaces : Array (Bus.Space Port) := #[]
  memory : Memory := {}
  timers : Timer.Queue := {}
  frame : Option Frame := none
  budget : Int := 0
  boost : Option Boost := none
  diag : Diag := {}
  sink : Option String := none
  handles : Array Timer.Id := #[]
  cells : Array Nat := #[]
  journal : Array Activity := #[]

namespace Processor

def period (p : Processor) : Time := max (p.clock.period?.getD .never) (.ofAttos 1)

def isLive (p : Processor) : Bool := p.suspension.isEmpty

def published? (p : Processor) (id : RegisterId) : Option Nat := p.published.lookup id

def publish (p : Processor) (read : RegisterId → Option Nat) : Processor :=
  { p with published := p.published.map fun (id, _) => (id, (read id).getD 0) }

def catchUp (p : Processor) (t : Time) : Processor :=
  if p.localTime < t then { p with localTime := t } else p

end Processor

namespace Machine

def enter (m : Machine) (entry : Activity) : Machine := { m with journal := m.journal.push entry }

def enterAll (m : Machine) (entries : List Activity) : Machine := entries.foldl enter m

def takeJournal (m : Machine) : List Activity × Machine :=
  (m.journal.toList, { m with journal := #[] })

def trace (m : Machine) (event : TraceEvent) : Machine :=
  if m.config.tracing then
    match m.sink with
    | some sink => m.enter (.traced sink event)
    | none => m
  else m

def count (m : Machine) (f : Diag → Diag) : Machine := { m with diag := f m.diag }

def modifyUnit (m : Machine) (index : Nat) (f : Processor → Processor) : Machine :=
  { m with units := m.units.modify index f }

def modifySpace (m : Machine) (id : SpaceId) (f : Bus.Space Port → Bus.Space Port) : Machine :=
  { m with spaces := m.spaces.modify id.index f }

def space? (m : Machine) (id : SpaceId) : Option (Bus.Space Port) := m.spaces[id.index]?

def unitIndex? (m : Machine) (device : DeviceId) : Option Nat :=
  m.units.findIdx? (·.device == device)

def unit (m : Machine) (device : DeviceId) : Except AccessError (Nat × Processor) :=
  match (m.unitIndex? device).bind fun index => (m.units[index]?).map (index, ·) with
  | some found => .ok found
  | none => .error (.notExecutionUnit (m.tree.tag device))

def consumedIn (m : Machine) (f : Frame) : Nat := Word.clamp (Int.toNat (f.requested - m.budget))

def now (m : Machine) : Time :=
  match m.frame with
  | some f =>
      match m.units[f.unit]? with
      | some p => f.start + p.period.scale (m.consumedIn f)
      | none => f.start
  | none => m.timers.now

def executing? (m : Machine) : Option DeviceId :=
  m.frame.bind fun f => (m.units[f.unit]?).map (·.device)

def requestYield (m : Machine) : Machine :=
  match m.frame with
  | some f => m.modifyUnit f.unit fun p => { p with yieldRequested := true }
  | none => m

def ownedSpace (m : Machine) (device : DeviceId) (kind : Bus.SpaceKind) :
    Except ConfigError SpaceId :=
  let own (kind : Bus.SpaceKind) : Option SpaceId :=
    (m.tree.get? device).bind fun node => node.device.spaces.lookup kind
  match (own kind).or (kind.fallback?.bind own) with
  | some id => .ok id
  | none => .error (.missingAddressSpace (m.tree.tag device) kind)

def resolve (m : Machine) : Route → Except ConfigError SpaceId
  | .direct id => .ok id
  | .owned device kind => m.ownedSpace device kind

def position? (m : Machine) (id : Timer.Id) : Option Nat := m.handles.findIdx? (· == id)

def issue (m : Machine) (id : Timer.Id) : Machine × Reply :=
  ({ m with handles := m.handles.push id }, .timer m.handles.size id)

def newCell (m : Machine) : Machine × Nat := ({ m with cells := m.cells.push 0 }, m.cells.size)

def newSpace (m : Machine) (spec : SpaceSpec) : Machine × SpaceId :=
  ({ m with spaces := m.spaces.push { name := spec.name, shape := spec.shape } }, ⟨m.spaces.size⟩)

def withDevice (m : Machine) (id : DeviceId) (device : Device) : Machine :=
  { m with tree := m.tree.modify id fun s => { s with device } }

def setBusy (m : Machine) (id : DeviceId) (busy : Bool) : Machine :=
  { m with tree := m.tree.modify id fun s => { s with busy } }

def idle (m : Machine) (id : DeviceId) : Except AccessError Device :=
  match m.tree.get? id with
  | none => .error (.notFound id.text)
  | some node => if node.device.busy then .error (.busy node.tag) else .ok node.device.device

end Machine

/-- A computation on a machine; it has no result if a callback nests deeper or a run
goes on longer than allowed. -/
abbrev Run := StateT Machine Option

/-- How the script of a callback is carried out. -/
abbrev Callback := Script → Run Reply

end Lockstep
