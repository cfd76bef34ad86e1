import Lockstep.Snapshot.Record

/-! The fingerprint of a snapshot: the bytes that stand for the state that matters to
scheduling, and a 64-bit FNV-1a digest of them. Numbers are little-endian, tags
are in UTF-8, and nothing separates the parts. -/
namespace Lockstep

def littleEndian : (count : Nat) → Nat → List UInt8
  | 0, _ => []
  | count + 1, n => UInt8.ofNat n :: littleEndian count (n / 256)

def utf8 (s : String) : List UInt8 := s.toUTF8.toList

namespace Snapshot

def unitBytes (u : UnitSnapshot) : List UInt8 :=
  utf8 u.tag ++ littleEndian 16 u.localTime.attos ++ littleEndian 8 u.totalCycles ++
    [UInt8.ofNat u.runState.code, UInt8.ofNat u.suspension] ++
    u.registers.flatMap fun (id, value) => littleEndian 2 id.number ++ littleEndian 8 value

def timerBytes (t : Timer.Info) : List UInt8 :=
  littleEndian 4 t.owner.index ++ littleEndian 8 t.param ++ littleEndian 16 t.fireTime.attos

def bankBytes (b : BankSelection) : List UInt8 := utf8 b.tag ++ littleEndian 8 b.selected

def imageBytes (i : MemoryImage) : List UInt8 := utf8 i.tag ++ i.bytes

def stream (s : Snapshot) : List UInt8 :=
  littleEndian 16 s.time.attos ++ s.units.flatMap unitBytes ++ s.timers.flatMap timerBytes ++
    s.banks.flatMap bankBytes ++ s.memory.flatMap imageBytes

end Snapshot

namespace Fnv1a

def offsetBasis : UInt64 := 0xcbf29ce484222325
def prime : UInt64 := 0x100000001b3

def step (hash : UInt64) (byte : UInt8) : UInt64 := (hash ^^^ byte.toUInt64) * prime

def digest (bytes : List UInt8) : UInt64 := bytes.foldl step offsetBasis

end Fnv1a

def Snapshot.fingerprint (s : Snapshot) : UInt64 := Fnv1a.digest s.stream

end Lockstep
