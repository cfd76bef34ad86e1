import Lockstep.Directory
import Lockstep.Memory.Bank
import Lockstep.Memory.Block

/-! All blocks and banks of a machine. Mappings name them by handle, so a block
stays in use even after its tag names another one. A loose bank can be mapped and
selected by whoever holds it, but it is not among the machine's own. -/
namespace Lockstep

structure Memory where
  blocks : Array Memory.Block := #[]
  banks : Array Memory.Bank := #[]
  blockTags : Directory Memory.BlockId := {}
  bankTags : Directory Memory.BankId := {}
  looseTags : Directory Memory.BankId := {}
  deriving Inhabited

namespace Memory

def block? (m : Memory) (id : BlockId) : Option Block := m.blocks[id.index]?

def bank? (m : Memory) (id : BankId) : Option Bank := m.banks[id.index]?

def blockId? (m : Memory) (tag : String) : Option BlockId := m.blockTags.find? tag

def bankId? (m : Memory) (tag : String) : Option BankId :=
  (m.bankTags.find? tag).or (m.looseTags.find? tag)

def blockTagged? (m : Memory) (tag : String) : Option Block := m.blockId? tag >>= m.block?

def bankTagged? (m : Memory) (tag : String) : Option Bank := m.bankId? tag >>= m.bank?

def blockLength (m : Memory) (id : BlockId) : Nat := (m.block? id).elim 0 Block.length

def window (m : Memory) (b : Bank) : Nat := b.window m.blockLength

def read? (m : Memory) (id : BlockId) (offset count : Nat) : Option (List UInt8) := do
  let block ← m.block? id
  (List.range count).mapM fun i => block.get? (offset + i)

def write (m : Memory) (id : BlockId) (offset : Nat) (values : List UInt8) : Memory :=
  { m with blocks := m.blocks.modify id.index (·.setAll offset values) }

def putBlock (m : Memory) (b : Block) : Memory :=
  { m with
    blocks := m.blocks.push b
    blockTags := m.blockTags.insert b.tag ⟨m.blocks.size⟩ }

def addBlock (m : Memory) (b : Block) : Except ConfigError Memory :=
  if m.blockTags.contains b.tag then .error (.duplicateMemoryTag b.tag) else .ok (m.putBlock b)

def newBank (m : Memory) (tag : String) (entries : List (BlockId × Nat)) (readOnly : Bool) :
    Except ConfigError Bank :=
  if h : 0 < entries.toArray.size then
    match entries.find? fun (id, offset) => m.blockLength id < offset with
    | some (id, offset) =>
        .error (.memoryTooSmall ((m.block? id).elim "" Block.tag) (m.blockLength id) offset)
    | none => .ok ⟨tag, entries.toArray, 0, readOnly, h⟩
  else .error (.emptyBank tag)

def addBank (m : Memory) (b : Bank) : Except ConfigError Memory :=
  if m.bankTags.contains b.tag then .error (.duplicateMemoryTag b.tag)
  else .ok
    { m with
      banks := m.banks.push b
      bankTags := m.bankTags.insert b.tag ⟨m.banks.size⟩ }

def addLoose (m : Memory) (b : Bank) : Memory :=
  { m with
    banks := m.banks.push b
    looseTags := m.looseTags.insert b.tag ⟨m.banks.size⟩ }

def selectBank (m : Memory) (id : BankId) (index : Nat) : Except BankError Memory :=
  match m.bank? id with
  | none => .ok m
  | some bank => do
      let bank ← bank.select index
      .ok { m with banks := m.banks.setIfInBounds id.index bank }

def switch (m : Memory) (tag : String) (index : Nat) : Except BankError Memory :=
  match m.bankTags.find? tag with
  | none => .error (.unknownBank tag)
  | some id => m.selectBank id index

end Memory

end Lockstep
