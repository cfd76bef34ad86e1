import Lockstep.Device.Kinds
import Lockstep.Directory
import Lockstep.Text.Quoted

/-! Device types by name. A constructor gets the full tag, the clock and the
parent; it yields a device or a refusal, and what it enters in the journal. -/
namespace Lockstep

structure DeviceParams where
  tag : String
  clock : ClockRate
  parent : Option DeviceId
  deriving DecidableEq, Repr

abbrev DeviceConstructor := DeviceParams → List Activity × Except ConfigError Device

namespace DeviceConstructor

def acc8 : DeviceConstructor := fun p => ([], .ok (.acc8 (.new p.tag {})))

def refusing (reason : String) : DeviceConstructor := fun p => ([], .error (.device p.tag reason))

def probe : DeviceConstructor := fun p =>
  ([.constructed p.tag p.clock p.parent],
    .ok (.peripheral { name := p.tag : Probe }.peripheral))

end DeviceConstructor

abbrev Registry := Directory DeviceConstructor

namespace Registry

def empty : Registry := {}

def builtin : Registry := Directory.insert {} Acc8.typeName DeviceConstructor.acc8

def create (r : Registry) (typeName : String) (params : DeviceParams) :
    List Activity × Except ConfigError Device :=
  match r.find? typeName with
  | some construct => construct params
  | none => ([], .error (.unknownDeviceType typeName))

def text (r : Registry) : String :=
  "\x7b" ++ ", ".intercalate (r.names.map Quoted.encode) ++ "\x7d"

end Registry

end Lockstep
