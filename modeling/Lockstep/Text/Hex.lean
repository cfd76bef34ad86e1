/-! Hexadecimal text in lower case: numbers with the `0x` mark, and bytes as
two digits each; where bytes are read, a last digit without its pair counts for nothing. -/
namespace Lockstep.Hex

def digits (n : Nat) : String := String.ofList (Nat.toDigits 16 n)

def number (n : Nat) : String := "0x" ++ digits n

def byteDigits (b : UInt8) : List Char :=
  [Nat.digitChar (b.toNat / 16), Nat.digitChar (b.toNat % 16)]

def ofBytes (bytes : List UInt8) : String :=
  String.ofList (bytes.flatMap byteDigits)

def value? (c : Char) : Option Nat :=
  if '0' ≤ c ∧ c ≤ '9' then some (c.toNat - '0'.toNat)
  else if 'a' ≤ c ∧ c ≤ 'f' then some (c.toNat - 'a'.toNat + 10)
  else if 'A' ≤ c ∧ c ≤ 'F' then some (c.toNat - 'A'.toNat + 10)
  else none

def readBytes : List Char → Option (List UInt8)
  | high :: low :: rest => do
      let h ← value? high
      let l ← value? low
      let tail ← readBytes rest
      some (UInt8.ofNat (h * 16 + l) :: tail)
  | _ => some []

def toBytes? (s : String) : Option (List UInt8) := readBytes s.toList

end Lockstep.Hex
