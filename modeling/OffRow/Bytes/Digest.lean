namespace OffRow.Bytes

def hexByte (b : UInt8) : List Char :=
  [Nat.digitChar (b.toNat / 16), Nat.digitChar (b.toNat % 16)]

def hex (b : ByteArray) : String :=
  String.ofList (b.data.toList.flatMap hexByte)

/-- The 64-bit FNV-1a hash: each byte is mixed in by exclusive or and then spread by a
multiplication. -/
def hash (b : ByteArray) : UInt64 :=
  b.data.foldl (fun h x => (h ^^^ x.toUInt64) * 0x100000001b3) 0xcbf29ce484222325

def hexWord : Nat → Nat → List Char
  | 0, _ => []
  | n + 1, w => hexWord n (w / 16) ++ [Nat.digitChar (w % 16)]

def longestHex : Nat := 32

def digest (b : ByteArray) : String :=
  if b.size ≤ longestHex then hex b
  else s!"#{b.size}:" ++ String.ofList (hexWord 16 (hash b).toNat)

def hexValue? (c : Char) : Option Nat :=
  if '0' ≤ c ∧ c ≤ '9' then some (c.toNat - '0'.toNat)
  else if 'a' ≤ c ∧ c ≤ 'f' then some (c.toNat - 'a'.toNat + 10)
  else if 'A' ≤ c ∧ c ≤ 'F' then some (c.toNat - 'A'.toNat + 10)
  else none

def ofHexDigits? : List Char → Option (List UInt8)
  | [] => some []
  | [_] => none
  | c :: d :: rest => do
    let high ← hexValue? c
    let low ← hexValue? d
    let tail ← ofHexDigits? rest
    some (UInt8.ofNat (16 * high + low) :: tail)

def ofHex? (text : String) : Option ByteArray :=
  (ofHexDigits? text.toList).map fun bytes => ⟨bytes.toArray⟩

end OffRow.Bytes
