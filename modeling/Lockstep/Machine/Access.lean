import Lockstep.Machine.State

/-! Bus accesses. An access resolves its region, is halved while it is wider than
the bus or leaves the region, and reaches memory, a port or nothing. The region
of the second half is resolved after the first half is done, so a port may edit
the map in between. -/
namespace Lockstep

namespace Machine
open Bus (Width Region)

def noteUnmapped (m : Machine) (kind : Bus.SpaceKind) (address : Nat) (write : Bool) : Machine :=
  (m.count (·.unmapped write)).trace (.unmappedAccess m.executing? kind address write)

def readMemory (m : Machine) (order : Bus.ByteOrder) (block : Memory.BlockId) (offset : Nat)
    (width : Width) : Option Nat :=
  (m.memory.read? block offset width.bytes).map order.assemble

def writeMemory (m : Machine) (order : Bus.ByteOrder) (block : Memory.BlockId) (offset : Nat)
    (width : Width) (value : Nat) : Machine :=
  let bytes := (List.range width.bytes).map (order.byteAt width.bytes value)
  { m with memory := m.memory.write block offset bytes }

def readHandler (call : Callback) (order : Bus.ByteOrder) (region : Region Port) (address : Nat)
    (width : Width) : Run (Option Nat) := do
  let offset := address - region.origin
  match region.handler with
  | .ram block base | .rom block base =>
      return (← get).readMemory order block (base + offset) width
  | .bank id =>
      let m ← get
      return (m.memory.bank? id).bind fun bank =>
        m.readMemory order bank.target.1 (bank.target.2 + offset) width
  | .port p =>
      if p.reads then
        let reply ← call (p.onRead offset width)
        return reply.driven?.map (· % width.size)
      else return none
  | .unmapped => return none

def readRegion (call : Callback) (id : SpaceId) (space : Bus.Space Port) (region : Region Port)
    (address : Nat) (width : Width) : Run Nat := do
  match ← readHandler call space.shape.byteOrder region address width with
  | some value =>
      modify (·.modifySpace id (·.drive value))
      return value
  | none =>
      modify fun m => (m.modifySpace id (·.countRead)).noteUnmapped space.shape.kind address false
      return ((← get).space? id).elim 0 (·.floating address width)

def writeHandler (call : Callback) (id : SpaceId) (space : Bus.Space Port) (region : Region Port)
    (address : Nat) (width : Width) (value : Nat) : Run Unit := do
  let order := space.shape.byteOrder
  let offset := address - region.origin
  match region.handler with
  | .ram block base => modify (·.writeMemory order block (base + offset) width value)
  | .rom .. => return
  | .bank bankId =>
      match (← get).memory.bank? bankId with
      | some bank =>
          if !bank.readOnly then
            modify (·.writeMemory order bank.target.1 (bank.target.2 + offset) width value)
      | none => return
  | .port p => if p.writes then discard (call (p.onWrite offset width value))
  | .unmapped =>
      modify fun m => (m.modifySpace id (·.countWrite)).noteUnmapped space.shape.kind address true

def writeRegion (call : Callback) (id : SpaceId) (space : Bus.Space Port) (region : Region Port)
    (address : Nat) (width : Width) (value : Nat) : Run Unit := do
  modify (·.modifySpace id (·.drive value))
  writeHandler call id space region address width value

def readRank (call : Callback) (id : SpaceId) : (rank : Nat) → (address : Nat) → Run Nat
  | 0, address => do
      match (← get).space? id with
      | none => return 0
      | some space =>
          let address := space.shape.wrap address
          readRegion call id space (space.region address) address .byte
  | rank + 1, address => do
      match (← get).space? id with
      | none => return 0
      | some space =>
          let width := Width.ofRank (rank + 1)
          let half := Width.ofRank rank
          let address := space.shape.wrap address
          let region := space.region address
          if space.mustSplit region address width then
            let lower ← readRank call id rank address
            let higher ← readRank call id rank (space.shape.wrap (address + half.bytes))
            return space.shape.byteOrder.join half lower higher
          else readRegion call id space region address width

def writeRank (call : Callback) (id : SpaceId) :
    (rank : Nat) → (address : Nat) → (value : Nat) → Run Unit
  | 0, address, value => do
      match (← get).space? id with
      | none => return
      | some space =>
          let address := space.shape.wrap address
          writeRegion call id space (space.region address) address .byte
            (value % Width.byte.size)
  | rank + 1, address, value => do
      match (← get).space? id with
      | none => return
      | some space =>
          let width := Width.ofRank (rank + 1)
          let half := Width.ofRank rank
          let value := value % width.size
          let address := space.shape.wrap address
          let region := space.region address
          if space.mustSplit region address width then
            let (lower, higher) := space.shape.byteOrder.part half value
            writeRank call id rank address lower
            writeRank call id rank (space.shape.wrap (address + half.bytes)) higher
          else writeRegion call id space region address width value

def read (call : Callback) (id : SpaceId) (address : Nat) (width : Width) : Run Nat :=
  readRank call id width.rank address

def write (call : Callback) (id : SpaceId) (address : Nat) (width : Width) (value : Nat) :
    Run Unit :=
  writeRank call id width.rank address value

end Machine

end Lockstep
