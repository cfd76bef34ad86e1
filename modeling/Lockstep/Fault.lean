import Lockstep.Bus.Shape
import Lockstep.DeviceId
import Lockstep.Text.Hex

/-! What can go wrong, as causes, with the name and the text of each. Faults of assembly come
first, then those of banks, registers and access to devices. -/
namespace Lockstep

inductive ConfigError where
  | duplicateTag (tag : String)
  | invalidTag (tag : String)
  | unknownDeviceType (name : String)
  | unknownParent (parent : DeviceId)
  | missingDevice (requestedBy tag : String)
  | missingAddressSpace (tag : String) (kind : Bus.SpaceKind)
  | invertedRange (space : String) (first last : Nat)
  | rangeOutOfBounds (space : String) (first last max : Nat)
  | overlap (space : String) (first last otherFirst otherLast : Nat)
  | spaceSealed (space : String)
  | memoryTooSmall (tag : String) (length needed : Nat)
  | emptyBank (tag : String)
  | duplicateMemoryTag (tag : String)
  | zeroClock (tag : String)
  | tooManyDevices (tag : String)
  | device (tag reason : String)
  deriving DecidableEq, Repr

def rangeText (first last : Nat) : String := s!"{Hex.number first}..={Hex.number last}"

def ConfigError.message : ConfigError → String
  | .duplicateTag tag => s!"duplicate device tag `{tag}`"
  | .invalidTag tag => s!"invalid device tag `{tag}`"
  | .unknownDeviceType name => s!"unknown device type `{name}`"
  | .unknownParent parent => s!"unknown parent device {parent.text}"
  | .missingDevice requestedBy tag => s!"device `{requestedBy}` references missing device `{tag}`"
  | .missingAddressSpace tag kind => s!"device `{tag}` has no {kind.title} address space"
  | .invertedRange space first last => s!"inverted range {rangeText first last} in space `{space}`"
  | .rangeOutOfBounds space first last max =>
      s!"range {rangeText first last} exceeds space `{space}` (max address {Hex.number max})"
  | .overlap space first last otherFirst otherLast =>
      s!"range {rangeText first last} overlaps {rangeText otherFirst otherLast} in space `{space}`"
  | .spaceSealed space => s!"address space `{space}` is sealed"
  | .memoryTooSmall tag length needed =>
      s!"memory `{tag}` holds {Hex.number length} bytes but the mapping needs {Hex.number needed}"
  | .emptyBank tag => s!"bank `{tag}` has no entries"
  | .duplicateMemoryTag tag => s!"duplicate memory tag `{tag}`"
  | .zeroClock tag => s!"execution unit `{tag}` needs a non-zero clock"
  | .tooManyDevices tag => s!"no device handle left for `{tag}`"
  | .device tag reason => s!"device `{tag}` failed to start: {reason}"

def ConfigError.name : ConfigError → String
  | .duplicateTag _ => "DuplicateTag"
  | .invalidTag _ => "InvalidTag"
  | .unknownDeviceType _ => "UnknownDeviceType"
  | .unknownParent _ => "UnknownParent"
  | .missingDevice .. => "MissingDevice"
  | .missingAddressSpace .. => "MissingAddressSpace"
  | .invertedRange .. => "InvertedRange"
  | .rangeOutOfBounds .. => "RangeOutOfBounds"
  | .overlap .. => "Overlap"
  | .spaceSealed _ => "SpaceSealed"
  | .memoryTooSmall .. => "MemoryTooSmall"
  | .emptyBank _ => "EmptyBank"
  | .duplicateMemoryTag _ => "DuplicateMemoryTag"
  | .zeroClock _ => "ZeroClock"
  | .tooManyDevices _ => "TooManyDevices"
  | .device .. => "Device"

inductive BankError where
  | entryOutOfRange (tag : String) (index count : Nat)
  | unknownBank (tag : String)
  deriving DecidableEq, Repr

def BankError.message : BankError → String
  | .entryOutOfRange tag index count => s!"bank `{tag}` has no entry {index} ({count} entries)"
  | .unknownBank tag => s!"no bank tagged `{tag}`"

def BankError.name : BankError → String
  | .entryOutOfRange .. => "EntryOutOfRange"
  | .unknownBank _ => "UnknownBank"

structure RegisterId where
  number : Nat
  deriving DecidableEq, Repr, Inhabited

inductive RegisterError where
  | unknownId (id : RegisterId)
  | readOnly (id : RegisterId)
  deriving DecidableEq, Repr

def RegisterError.message : RegisterError → String
  | .unknownId id => s!"unknown state id {id.number}"
  | .readOnly id => s!"state id {id.number} is read-only"

def RegisterError.name : RegisterError → String
  | .unknownId _ => "UnknownId"
  | .readOnly _ => "ReadOnly"

inductive AccessError where
  | notFound (tag : String)
  | busy (tag : String)
  | wrongType (tag : String)
  | notExecutionUnit (tag : String)
  | unknownInputLine (tag : String) (line : Nat)
  | register (cause : RegisterError)
  deriving DecidableEq, Repr

def AccessError.message : AccessError → String
  | .notFound tag => s!"no device tagged `{tag}`"
  | .busy tag => s!"device `{tag}` is busy"
  | .wrongType tag => s!"device `{tag}` has a different type"
  | .notExecutionUnit tag => s!"device `{tag}` is not an execution unit"
  | .unknownInputLine tag line => s!"device `{tag}` has no input line {line}"
  | .register cause => cause.message

def AccessError.name : AccessError → String
  | .notFound _ => "NotFound"
  | .busy _ => "Busy"
  | .wrongType _ => "WrongType"
  | .notExecutionUnit _ => "NotExecutionUnit"
  | .unknownInputLine .. => "UnknownInputLine"
  | .register _ => "State"

inductive Fault where
  | config (cause : ConfigError)
  | bank (cause : BankError)
  | access (cause : AccessError)
  deriving DecidableEq, Repr

def Fault.message : Fault → String
  | .config cause => cause.message
  | .bank cause => cause.message
  | .access cause => cause.message

def Fault.name : Fault → String
  | .config cause => cause.name
  | .bank cause => cause.name
  | .access cause => cause.name

end Lockstep
