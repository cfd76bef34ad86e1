import Lockstep.Machine.Advance

/-! Start, reset and stop of a machine. Every device is started once, in the order of
addition; then the maps are closed and the machine is reset. -/
namespace Lockstep.Machine

def startDevices (call : Callback) : List DeviceId → Run (Option ConfigError)
  | [] => return none
  | id :: rest => do
      let m ← get
      match m.idle id with
      | .error _ => return some (.device (m.tree.tag id) "device busy during start")
      | .ok device =>
          modify (·.setBusy id true)
          let reply ← match device with
            | .peripheral p => call (p.start id)
            | _ => pure .ok
          modify (·.setBusy id false)
          match reply with
          | .fault (.config e) => return some e
          | _ => startDevices call rest

def resetDevices (call : Callback) : List DeviceId → Run Unit
  | [] => return
  | id :: rest => do
      match (← get).idle id with
      | .error _ => pure ()
      | .ok device =>
          modify (·.setBusy id true)
          match device with
          | .peripheral p => discard (call p.reset)
          | _ => pure ()
          modify (·.setBusy id false)
      resetDevices call rest

def restartUnit (now : Time) (m : Machine) (index : Nat) : Machine :=
  match m.resetUnit index with
  | .error _ => m
  | .ok m => m.modifyUnit index fun p =>
      { p with suspension := p.suspension.diff { trapped := true, spin := true } }.catchUp now

def reset (call : Callback) : Run Unit := do
  resetDevices call (← get).tree.ids
  modify fun m => (List.range m.units.size).foldl (restartUnit m.now) m

def start (call : Callback) : Run (Option ConfigError) := do
  match ← startDevices call (← get).tree.ids with
  | some e => return some e
  | none =>
      modify fun m => { m with spaces := m.spaces.map (·.freeze) }
      reset call
      return none

def setSink (m : Machine) (sink : Option String) : Machine × Option String :=
  ({ m with sink }, m.sink)

def stop (m : Machine) : Machine :=
  m.tree.ids.foldl (fun m id =>
    match m.idle id with
    | .ok (.peripheral p) => m.enterAll p.stop
    | _ => m) m

end Lockstep.Machine
