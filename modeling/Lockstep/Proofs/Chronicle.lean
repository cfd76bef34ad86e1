import Lockstep.Machine.Assembly
import Lockstep.Proofs.Passes

/-! A chronicle of a machine: everything that happens to its processors, in order, down to what
callbacks do inside callbacks. Lines are driven, registers written and processors reset by commands;
the rest a processor does itself, boundary by boundary. -/
namespace Lockstep

/-- What happens to one processor. What it does itself shows the machine as it is then. -/
inductive Happening where
  | driven (line : Nat) (state : LineState) (vector : Option Nat)
  | written (id : RegisterId) (value : Nat)
  | reset
  | boundary (cpu : Acc8) (machine : Machine)
  | accepted (line : Nat) (machine : Machine)
  | answered (line : Nat) (reply : Reply) (machine : Machine)
  | entered (line : Nat) (vector : Option Nat) (cpu : Acc8) (machine : Machine)
  | executed (work : Acc8.Work) (cpu : Acc8) (machine : Machine)

structure Mark where
  unit : Nat
  what : Happening

def Mark.about? (unit : Nat) (k : Mark) : Option Happening :=
  if k.unit = unit then some k.what else none

def about (unit : Nat) (marks : List Mark) : List Happening := marks.filterMap (·.about? unit)

/-- How scripts are carried out, with what happens meanwhile. -/
abbrev Teller := Script → Watch Mark Reply

namespace Machine
open Watch (of)
open Bus (Width Region)

def unitMark (m : Machine) (device : DeviceId) (what : Happening) : List Mark :=
  match m.unitIndex? device with
  | some index => [⟨index, what⟩]
  | none => []

def deedMarks (m : Machine) : Command → List Mark
  | .driveLine device line state vector =>
      match m.driveLine device line state vector with
      | .ok _ => m.unitMark device (.driven line state vector)
      | .error _ => []
  | .setRegister device id value =>
      match m.setRegister device id value with
      | .ok _ => m.unitMark device (.written id value)
      | .error _ => []
  | .driveReset device false =>
      match m.driveReset device false, m.unit device with
      | .ok _, .ok (index, p) => if p.suspension.reset then [⟨index, .reset⟩] else []
      | _, _ => []
  | _ => []

section
variable (call : Teller)

def tellReadHandler (order : Bus.ByteOrder) (region : Region Port) (address : Nat) (width : Width) :
    Watch Mark (Option Nat) :=
  match region.handler with
  | .port p =>
      if p.reads then do
        let reply ← call (p.onRead (address - region.origin) width)
        return reply.driven?.map (· % width.size)
      else return none
  | _ => of (readHandler mute order region address width)

def tellReadRegion (id : SpaceId) (space : Bus.Space Port) (region : Region Port) (address : Nat)
    (width : Width) : Watch Mark Nat := do
  match ← tellReadHandler call space.shape.byteOrder region address width with
  | some value =>
      of (modify (·.modifySpace id (·.drive value)))
      return value
  | none =>
      of (modify fun m =>
        (m.modifySpace id (·.countRead)).noteUnmapped space.shape.kind address false)
      return ((← of get).space? id).elim 0 (·.floating address width)

def tellWriteHandler (id : SpaceId) (space : Bus.Space Port) (region : Region Port) (address : Nat)
    (width : Width) (value : Nat) : Watch Mark Unit :=
  match region.handler with
  | .port p =>
      if p.writes then do
        let _ ← call (p.onWrite (address - region.origin) width value)
        return
      else return
  | _ => of (writeHandler mute id space region address width value)

def tellWriteRegion (id : SpaceId) (space : Bus.Space Port) (region : Region Port) (address : Nat)
    (width : Width) (value : Nat) : Watch Mark Unit := do
  of (modify (·.modifySpace id (·.drive value)))
  tellWriteHandler call id space region address width value

def tellRead (id : SpaceId) : (rank : Nat) → (address : Nat) → Watch Mark Nat
  | 0, address => do
      match (← of get).space? id with
      | none => return 0
      | some space =>
          let address := space.shape.wrap address
          tellReadRegion call id space (space.region address) address .byte
  | rank + 1, address => do
      match (← of get).space? id with
      | none => return 0
      | some space =>
          let width := Width.ofRank (rank + 1)
          let half := Width.ofRank rank
          let address := space.shape.wrap address
          let region := space.region address
          if space.mustSplit region address width then
            let lower ← tellRead id rank address
            let higher ← tellRead id rank (space.shape.wrap (address + half.bytes))
            return space.shape.byteOrder.join half lower higher
          else tellReadRegion call id space region address width

def tellWrite (id : SpaceId) : (rank : Nat) → (address : Nat) → (value : Nat) → Watch Mark Unit
  | 0, address, value => do
      match (← of get).space? id with
      | none => return
      | some space =>
          let address := space.shape.wrap address
          tellWriteRegion call id space (space.region address) address .byte
            (value % Width.byte.size)
  | rank + 1, address, value => do
      match (← of get).space? id with
      | none => return
      | some space =>
          let width := Width.ofRank (rank + 1)
          let half := Width.ofRank rank
          let value := value % width.size
          let address := space.shape.wrap address
          let region := space.region address
          if space.mustSplit region address width then
            let (lower, higher) := space.shape.byteOrder.part half value
            tellWrite id rank address lower
            tellWrite id rank (space.shape.wrap (address + half.bytes)) higher
          else tellWriteRegion call id space region address width value

def tellOnSpace (route : Route) (f : SpaceId → Watch Mark Reply) : Watch Mark Reply := do
  match (← of get).resolve route with
  | .ok id => f id
  | .error e => return .fault (.config e)

end

end Machine

open Machine in
open Watch (of jot) in
mutual

def Command.tell (call : Teller) : Command → Watch Mark Reply
  | .read route address width => tellOnSpace route fun id => do
      return .word (← tellRead call id width.rank address)
  | .write route address width value => tellOnSpace route fun id => do
      tellWrite call id width.rank address value
      return .ok
  | .borrow id as body => do
      match (← of get).borrowable id as with
      | .error e => return .fault (.access e)
      | .ok device =>
          of (modify (·.setBusy id true))
          let inner ← Script.tell call body
          of (modify (·.setBusy id false))
          return .borrowed (if as.isSome then device.occupant else .any device.isUnit) inner
  | command => do
      let m ← of get
      let reply ← of (Command.run mute command)
      jot fun _ => m.deedMarks command
      return reply

def Script.tell (call : Teller) : Script → Watch Mark Reply
  | .done reply => return reply
  | .step command next => do
      let reply ← Command.tell call command
      Script.tell call (next reply)

end

namespace Machine
open Watch (of jot note)

def tellInvoke : (depth : Nat) → Teller
  | 0, _ => of fun _ => none
  | depth + 1, script => script.tell (tellInvoke depth)

section
variable (call : Teller)

def tellAcknowledge (unit line : Nat) : Watch Mark (Option Nat) := do
  let vector ← match ((← of get).units[unit]?).bind (·.lines.acknowledge? line) with
    | none => pure none
    | some (lines, answer) => do
        of (modify (·.modifyUnit unit fun p => { p with lines }))
        note fun m => ⟨unit, .accepted line m⟩
        match answer with
        | .stored vector => pure vector
        | .ask source => do
            let reply ← call (source line)
            note fun m => ⟨unit, .answered line reply m⟩
            pure (some (reply.driven?.getD 0))
  of (modify (·.noteInterrupt unit line vector))
  return vector

def tellPort (program io : SpaceId) : Acc8.Port (Watch Mark) where
  read a := do return UInt8.ofNat (← tellRead call program 0 a.toNat)
  write a v := tellWrite call program 0 a.toNat v.toNat
  input a := do return UInt8.ofNat (← tellRead call io 0 a.toNat)
  output a v := tellWrite call io 0 a.toNat v.toNat

def tellResetDevices : List DeviceId → Watch Mark Unit
  | [] => return
  | id :: rest => do
      match (← of get).idle id with
      | .error _ => tellResetDevices rest
      | .ok device =>
          of (modify (·.setBusy id true))
          match device with
          | .peripheral p => discard (call p.reset)
          | _ => pure ()
          of (modify (·.setBusy id false))
          tellResetDevices rest

def restartMarks (m : Machine) (index : Nat) : List Mark :=
  match m.units[index]?, m.resetUnit index with
  | some _, .ok _ => [⟨index, .reset⟩]
  | _, _ => []

def tellRestarts (now : Time) : List Nat → Watch Mark Unit
  | [] => return
  | index :: rest => do
      let m ← of get
      of (modify (restartUnit now · index))
      jot fun _ => m.restartMarks index
      tellRestarts now rest

def tellReset : Watch Mark Unit := do
  tellResetDevices call (← of get).tree.ids
  let m ← of get
  tellRestarts m.now (List.range m.units.size)

def tellStartDevices : List DeviceId → Watch Mark (Option ConfigError)
  | [] => return none
  | id :: rest => do
      let m ← of get
      match m.idle id with
      | .error _ => return some (.device (m.tree.tag id) "device busy during start")
      | .ok device =>
          of (modify (·.setBusy id true))
          let reply ← match device with
            | .peripheral p => call (p.start id)
            | _ => pure .ok
          of (modify (·.setBusy id false))
          match reply with
          | .fault (.config e) => return some e
          | _ => tellStartDevices rest

def tellStart : Watch Mark (Option ConfigError) := do
  match ← tellStartDevices call (← of get).tree.ids with
  | some e => return some e
  | none =>
      of (modify fun m => { m with spaces := m.spaces.map (·.freeze) })
      tellReset call
      return none

end

end Machine

def Moment.marks (unit : Nat) : Moment → List Mark
  | .boundary cpu m => [⟨unit, .boundary cpu m⟩]
  | .entered line vector cpu m => [⟨unit, .entered line vector cpu m⟩]
  | .executed work cpu m => [⟨unit, .executed work cpu m⟩]
  | _ => []

def Recorder.marks (call : Teller) : Recorder Mark where
  pen := Moment.marks
  call
  acknowledge := Machine.tellAcknowledge call
  port := Machine.tellPort call

def Diary.marks (call : Teller) : Diary Mark where
  pen _ := []
  call
  slice := Recorder.sliceWith (Recorder.marks call).granted

/-- What happens from a machine on while a host starts it, resets it, has it carry out scripts,
replaces its sink and has it go on pass by pass. The machines are those of the runs. -/
inductive Chronicle (origin : Machine) : List Mark → Machine → Prop where
  | origin : Chronicle origin [] origin
  | start {marks m m' failed} (depth : Nat) (before : Chronicle origin marks m)
      (ran : Machine.start (Machine.invoke depth) m = some (failed, m')) :
      Chronicle origin (marks ++ (Machine.tellStart (Machine.tellInvoke depth) m).1) m'
  | script {marks m m' reply} (depth : Nat) (script : Script) (before : Chronicle origin marks m)
      (ran : Machine.invoke depth script m = some (reply, m')) :
      Chronicle origin (marks ++ (Machine.tellInvoke depth script m).1) m'
  | reset {marks m m' u} (depth : Nat) (before : Chronicle origin marks m)
      (ran : Machine.reset (Machine.invoke depth) m = some (u, m')) :
      Chronicle origin (marks ++ (Machine.tellReset (Machine.tellInvoke depth) m).1) m'
  | pass {marks m m' on} (depth : Nat) (target : Time) (before : Chronicle origin marks m)
      (ran : Machine.pass (Machine.invoke depth) target m = some (on, m')) :
      Chronicle origin (marks ++ ((Diary.marks (Machine.tellInvoke depth)).pass target m).1) m'
  | sink {marks m} (name : Option String) (before : Chronicle origin marks m) :
      Chronicle origin marks (m.setSink name).1

end Lockstep
