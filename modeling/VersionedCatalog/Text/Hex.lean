import VersionedCatalog.Bytes
import VersionedCatalog.Text.Numeral

/-! # Bytes in hexadecimal

A byte string is shown as two lowercase hexadecimal digits for each byte.
-/

namespace VersionedCatalog.Hex

def encode (bytes : Bytes) : String :=
  String.join (bytes.map fun b => Text.hexadecimal 2 b.toNat)

def digit? (c : Char) : Option Nat :=
  if '0' ≤ c ∧ c ≤ '9' then some (c.toNat - '0'.toNat)
  else if 'a' ≤ c ∧ c ≤ 'f' then some (c.toNat - 'a'.toNat + 10)
  else if 'A' ≤ c ∧ c ≤ 'F' then some (c.toNat - 'A'.toNat + 10)
  else none

def decodeChars? : List Char → Option Bytes
  | [] => some []
  | [_] => none
  | high :: low :: rest => do
    let high ← digit? high
    let low ← digit? low
    let others ← decodeChars? rest
    return UInt8.ofNat (16 * high + low) :: others

def decode? (s : String) : Option Bytes := decodeChars? s.toList

end VersionedCatalog.Hex
