import Lockstep.Directory
import Lockstep.Fault
import Lockstep.Time

/-! Devices in the order of addition, as a tree named by paths, with the device of each name. The
tag of a child is its parent's tag, a colon and its own. `δ` is what a node holds. -/
namespace Lockstep

namespace Tag

def segments : List Char → List (List Char)
  | [] => [[]]
  | c :: rest =>
      let parts := segments rest
      if c = ':' then [] :: parts
      else match parts with
        | part :: others => (c :: part) :: others
        | [] => [[c]]

def valid (tag : String) : Bool := (segments tag.toList).all (!·.isEmpty)

def join (parent child : String) : String := parent ++ ":" ++ child

end Tag

structure Node (δ : Type) where
  tag : String
  typeName : String
  clock : ClockRate
  parent : Option DeviceId
  children : List DeviceId := []
  device : δ

@[ext]
structure Tree (δ : Type) where
  nodes : Array (Node δ) := #[]
  names : Directory DeviceId := {}

namespace Tree
variable {δ : Type}

def capacity : Nat := 0x1_0000_0000

def size (t : Tree δ) : Nat := t.nodes.size

def get? (t : Tree δ) (id : DeviceId) : Option (Node δ) := t.nodes[id.index]?

def tag (t : Tree δ) (id : DeviceId) : String := (t.get? id).elim "" (·.tag)

def ids (t : Tree δ) : List DeviceId := (List.range t.size).map DeviceId.mk

def find? (t : Tree δ) (tag : String) : Option DeviceId := t.names.find? tag

def fullTag (t : Tree δ) (tag : String) (parent : Option DeviceId) : Except ConfigError String :=
  if Tag.valid tag then
    match parent with
    | none => .ok tag
    | some id =>
        match t.get? id with
        | some node => .ok (Tag.join node.tag tag)
        | none => .error (.unknownParent id)
  else .error (.invalidTag tag)

def add (t : Tree δ) (tag typeName : String) (clock : ClockRate) (parent : Option DeviceId)
    (device : δ) : Except ConfigError (Tree δ × DeviceId) := do
  let full ← t.fullTag tag parent
  if t.names.contains full then throw (.duplicateTag full)
  if capacity ≤ t.size then throw (.tooManyDevices full)
  let id : DeviceId := ⟨t.size⟩
  let nodes := match parent with
    | some p => t.nodes.modify p.index fun n => { n with children := n.children ++ [id] }
    | none => t.nodes
  return ({ nodes := nodes.push { tag := full, typeName, clock, parent, device }
            names := t.names.insert full id }, id)

def findFrom? (t : Tree δ) (origin : DeviceId) (tag : String) : Option DeviceId := do
  let node ← t.get? origin
  let sibling := (node.parent.bind t.get?).bind fun p => t.find? (Tag.join p.tag tag)
  (t.find? (Tag.join node.tag tag)).or (sibling.or (t.find? tag))

def modify (t : Tree δ) (id : DeviceId) (f : δ → δ) : Tree δ :=
  { t with nodes := t.nodes.modify id.index fun n => { n with device := f n.device } }

end Tree

end Lockstep
