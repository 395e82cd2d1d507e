import VersionedCatalog.Bytes

/-! # CRC-32

The cyclic redundancy check with the reflected polynomial `0xEDB88320`: the register starts at
all ones, takes the message bit by bit, low bit of a byte first, and is complemented at the end.
`checksum` takes a byte at a time through a table of 256 entries; `bitwiseChecksum` takes a bit at
a time and is the definition that the table shortens.
-/

namespace VersionedCatalog.Crc32

def polynomial : UInt32 := 0xEDB88320

/-- One division step: the register moves right and the polynomial is subtracted if a one left. -/
def shift (register : UInt32) : UInt32 :=
  if register &&& 1 = 1 then (register >>> 1) ^^^ polynomial else register >>> 1

def shifts : Nat → UInt32 → UInt32
  | 0, register => register
  | n + 1, register => shifts n (shift register)

/-- What eight steps make of each value of the low byte. -/
def table : Array UInt32 := Array.ofFn fun low : Fin 256 => shifts 8 (UInt32.ofNat low.val)

def tableStep (register : UInt32) (byte : UInt8) : UInt32 :=
  (register >>> 8) ^^^ table.getD ((register ^^^ byte.toUInt32) &&& 0xFF).toNat 0

def checksum (bytes : Bytes) : UInt32 := ~~~ bytes.foldl tableStep 0xFFFFFFFF

/-- The bits of a byte, low bit first. -/
def bits (byte : UInt8) : List Bool := (List.range 8).map byte.toNat.testBit

def bitStep (register : UInt32) (bit : Bool) : UInt32 :=
  shift (register ^^^ if bit then 1 else 0)

def bitwiseChecksum (bytes : Bytes) : UInt32 := ~~~ (bytes.flatMap bits).foldl bitStep 0xFFFFFFFF

end VersionedCatalog.Crc32
