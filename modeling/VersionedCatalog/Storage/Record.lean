import VersionedCatalog.Checksum
import VersionedCatalog.Storage.Fault
import VersionedCatalog.Storage.Rows

/-! # Batch records

A log is a sequence of records, one for each batch:

    magic (4)  version (2)  length of the body (4)  body  checksum (4)

The body is the number of operations (4) and the operations, each a tag (1), the length of the key
(4) and the key, and for a put the length of the value (4) and the value. Numbers are least
significant byte first. The checksum covers all bytes before it.

A record that stops before its announced end is torn: the write of it never finished. Anything
else that is not a record is damage.
-/

namespace VersionedCatalog.Storage

namespace Record

def magic : Bytes := [0x4C, 0x4B, 0x56, 0x42]

def version : Nat := 1

def headerSize : Nat := 10

def checksumSize : Nat := 4

def putTag : UInt8 := 1

def deleteTag : UInt8 := 2

def word (n : Nat) : Bytes := Bytes.little 4 n

/-- The length of a part as four bytes, if it fits. -/
def lengthWord (n : Nat) : Except Fault Bytes :=
  if n < UInt32.size then .ok (word n) else .error (.oversized n)

def sized (bytes : Bytes) : Except Fault Bytes := do
  let length ← lengthWord bytes.length
  return length ++ bytes

def encodeOp : Op → Except Fault Bytes
  | .put key value => do
    let key ← sized key
    let value ← sized value
    return putTag :: key ++ value
  | .delete key => do
    let key ← sized key
    return deleteTag :: key

def encodeOps : Batch → Except Fault Bytes
  | [] => .ok []
  | op :: rest => do
    let first ← encodeOp op
    let others ← encodeOps rest
    return first ++ others

def withChecksum (bytes : Bytes) : Bytes :=
  bytes ++ word (Crc32.checksum bytes).toNat

def encode (batch : Batch) : Except Fault Bytes := do
  let count ← lengthWord batch.length
  let ops ← encodeOps batch
  let body ← sized (count ++ ops)
  return withChecksum (magic ++ Bytes.little 2 version ++ body)

def takeOr (n : Nat) (bytes : Bytes) : Except Damage (Bytes × Bytes) :=
  match bytes.take? n with
  | some parts => .ok parts
  | none => .error .shortBody

def takeWord (bytes : Bytes) : Except Damage (Nat × Bytes) := do
  let (digits, rest) ← takeOr 4 bytes
  return (Bytes.ofLittle digits, rest)

def takeSized (bytes : Bytes) : Except Damage (Bytes × Bytes) := do
  let (length, rest) ← takeWord bytes
  takeOr length rest

def decodeOp : Bytes → Except Damage (Op × Bytes)
  | [] => .error .shortBody
  | tag :: rest => do
    let (key, rest) ← takeSized rest
    if tag = putTag then
      let (value, rest) ← takeSized rest
      return (.put key value, rest)
    else if tag = deleteTag then return (.delete key, rest)
    else .error (.tag tag)

def decodeOps : Nat → Bytes → Except Damage Batch
  | 0, rest => if rest.isEmpty then .ok [] else .error .longBody
  | count + 1, bytes => do
    let (op, rest) ← decodeOp bytes
    let others ← decodeOps count rest
    return op :: others

def decodeBody (body : Bytes) : Except Damage Batch := do
  let (count, rest) ← takeWord body
  decodeOps count rest

/-- What a byte string that should start with a record starts with. -/
inductive Reading
  | record (batch : Batch) (size : Nat)
  | torn
  deriving DecidableEq

def decode (bytes : Bytes) : Except Damage Reading :=
  if bytes.length < headerSize then .ok .torn
  else if bytes.take 4 ≠ magic then .error .magic
  else
    let found := Bytes.ofLittle ((bytes.drop 4).take 2)
    if found ≠ version then .error (.version found)
    else
      let checked := headerSize + Bytes.ofLittle ((bytes.drop 6).take 4)
      if bytes.length < checked + checksumSize then .ok .torn
      else
        let stored := UInt32.ofNat (Bytes.ofLittle ((bytes.drop checked).take checksumSize))
        let computed := Crc32.checksum (bytes.take checked)
        if stored ≠ computed then .error (.checksum stored computed)
        else do
          let batch ← decodeBody ((bytes.take checked).drop headerSize)
          return .record batch (checked + checksumSize)

end Record

/-- What a log holds: its rows and the length of its complete records. -/
structure Replayed where
  rows : Rows
  length : Nat
  deriving DecidableEq

namespace Replayed

/-- Reads records from an offset on until the bytes end or a torn record is met. A record is never
empty, so as many steps as there are bytes suffice. -/
def run : Nat → Replayed → Bytes → Except Fault Replayed
  | 0, done, _ => .ok done
  | steps + 1, done, bytes =>
    if bytes.isEmpty then .ok done
    else
      match Record.decode bytes with
      | .error damage => .error (.corrupted (.inRecord done.length damage))
      | .ok .torn => .ok done
      | .ok (.record batch size) =>
        run steps ⟨done.rows.apply batch, done.length + size⟩ (bytes.drop size)

end Replayed

def replay (bytes : Bytes) : Except Fault Replayed := Replayed.run bytes.length ⟨∅, 0⟩ bytes

end VersionedCatalog.Storage
