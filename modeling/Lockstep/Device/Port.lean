import Lockstep.Script
import Lockstep.Text.Quoted

/-! Ports that enter their accesses in the journal, carry out tasks, and answer a
read in one of a few ways. Each keeps the last value written to it in a cell. -/
namespace Lockstep

inductive PortMode where
  | readWrite | readOnly | writeOnly
  | raw
  deriving DecidableEq, Repr, Inhabited

inductive PortAnswer where
  | fixed (value : Nat)
  | offset
  | latch
  | last
  | nothing
  deriving DecidableEq, Repr, Inhabited

structure PortSpec where
  label : String
  mode : PortMode
  answer : PortAnswer
  onRead : (offset : Nat) → Bus.Width → List Task
  onWrite : (offset : Nat) → Bus.Width → (value : Nat) → List Task
  deriving Inhabited

namespace PortSpec

def mapLabel (p : PortSpec) : String := if p.mode = .raw then "callback" else p.label

def reply (p : PortSpec) (cell offset : Nat) (last : Reply) : Script :=
  match p.answer with
  | .fixed value => .done (.word value)
  | .offset => .done (.word offset)
  | .latch => .perform (.getCell cell)
  | .last => .done (.word (last.number?.getD 0))
  | .nothing => .done (if p.mode = .raw then .absent else .word 0)

def read (p : PortSpec) (cell offset : Nat) (width : Bus.Width) : Script :=
  .noting (.read p.label offset width) <|
    (Task.runAll (p.onRead offset width) .absent).andThen (p.reply cell offset)

def write (p : PortSpec) (cell offset : Nat) (width : Bus.Width) (value : Nat) : Script :=
  .noting (.write p.label offset width value) <|
    .step (.setCell cell value) fun _ => Task.runAll (p.onWrite offset width value) .ok

def port (p : PortSpec) (cell : Nat) : Port :=
  .mk p.mapLabel (p.mode != .writeOnly) (p.mode != .readOnly) (p.read cell) (p.write cell)

def attach (p : PortSpec) (rest : Port → Script) : Script :=
  .step .newCell fun reply => rest (p.port (reply.number?.getD 0))

end PortSpec

def Port.text (p : Port) : String :=
  s!"FnHandler \x7b label: {Quoted.encode p.label}, read: {p.reads}, write: {p.writes} \x7d"

def vectorSource (cell : Nat) (vectors : List Nat) (tasks : (line : Nat) → List Task) (line : Nat) :
    Script :=
  .step (.getCell cell) fun reply =>
    let call := reply.number?.getD 0
    let vector := (vectors[min call (vectors.length - 1)]?).getD 0
    .step (.setCell cell (call + 1)) fun _ =>
      .noting (.vector line vector) <|
        (Task.runAll (tasks line) .ok).andThen fun _ => .done (.word vector)

end Lockstep
