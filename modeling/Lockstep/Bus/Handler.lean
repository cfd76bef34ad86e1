import Lockstep.Memory.Store

/-! What a mapped range leads to: memory, a bank, a port of a device, or an
explicit hole. `κ` is the type of ports. -/
namespace Lockstep.Bus
open Memory (BlockId BankId)

inductive Handler (κ : Type) where
  | ram (block : BlockId) (offset : Nat)
  | rom (block : BlockId) (offset : Nat)
  | bank (id : BankId)
  | port (port : κ)
  | unmapped

inductive HandlerKind where
  | ram | rom | bank | callback | unmapped
  deriving DecidableEq, Repr

def HandlerKind.title : HandlerKind → String
  | .ram => "Ram"
  | .rom => "Rom"
  | .bank => "Bank"
  | .callback => "Callback"
  | .unmapped => "Unmapped"

structure RangeInfo where
  first : Nat
  last : Nat
  origin : Nat
  kind : HandlerKind
  label : String
  deriving DecidableEq, Repr

def RangeInfo.contains (r : RangeInfo) (address : Nat) : Bool :=
  decide (r.first ≤ address) && decide (address ≤ r.last)

structure Demand where
  tag : String
  available : Nat
  needed : Nat
  deriving DecidableEq, Repr

namespace Handler
variable {κ : Type}

def kind : Handler κ → HandlerKind
  | .ram .. => .ram
  | .rom .. => .rom
  | .bank _ => .bank
  | .port _ => .callback
  | .unmapped => .unmapped

def label (memory : Memory) (portLabel : κ → String) : Handler κ → String
  | .ram block _ | .rom block _ => (memory.block? block).elim "" (·.tag)
  | .bank id => (memory.bank? id).elim "" (·.tag)
  | .port p => portLabel p
  | .unmapped => "unmapped"

def demand? (memory : Memory) (length : Nat) : Handler κ → Option Demand
  | .ram block offset | .rom block offset =>
      (memory.block? block).map fun b => ⟨b.tag, b.length, Word.add offset (Word.clamp length)⟩
  | .bank id => (memory.bank? id).map fun b => ⟨b.tag, memory.window b, Word.clamp length⟩
  | .port _ | .unmapped => none

def text (memory : Memory) (portLabel : κ → String) (h : Handler κ) : String :=
  let name := h.label memory portLabel
  match h with
  | .ram _ offset | .rom _ offset => s!"{h.kind.title}({name}+{Hex.number offset})"
  | _ => s!"{h.kind.title}({name})"

end Handler

end Lockstep.Bus
