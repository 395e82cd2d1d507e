import VersionedCatalog.Document

/-! # CBOR

Documents in the Concise Binary Object Representation. Writing uses definite lengths and the
shortest heads. Reading takes any head width and indefinite lengths too, where the pieces of a text
must each be text of their own and may again be made of pieces.
-/

namespace VersionedCatalog.Cbor

/-- The first bytes of an item. A length that is not given ends with a stop. -/
inductive Head
  | unsigned (n : Nat)
  | negative (n : Nat)
  | bytes (length : Option Nat)
  | text (length : Option Nat)
  | list (length : Option Nat)
  | dict (length : Option Nat)
  | tag (n : Nat)
  | simple (n : Nat)
  | float
  | stop
  deriving DecidableEq

/-- The head of a major type with an argument; `info` is the low part of the first byte. -/
def Head.of? (major info : Nat) (argument : Option Nat) : Option Head :=
  match major with
  | 0 => argument.map .unsigned
  | 1 => argument.map .negative
  | 2 => some (.bytes argument)
  | 3 => some (.text argument)
  | 4 => some (.list argument)
  | 5 => some (.dict argument)
  | 6 => argument.map .tag
  | _ =>
    match argument with
    | none => some .stop
    | some n => if info ≤ 24 then some (.simple n) else some .float

def head? : Bytes → Option (Head × Bytes)
  | [] => none
  | first :: rest =>
    let major := first.toNat / 32
    let info := first.toNat % 32
    if info < 24 then (Head.of? major info (some info)).map fun head => (head, rest)
    else if info < 28 then do
      let (digits, rest) ← Bytes.take? (1 <<< (info - 24)) rest
      let head ← Head.of? major info (some (Bytes.ofBig digits))
      return (head, rest)
    else if info = 31 then (Head.of? major info none).map fun head => (head, rest)
    else none

/-- The pieces of a text or byte string of indefinite length, joined. `waiting` counts the
strings that still wait for their stop. -/
def pieces? (length? : Head → Option (Option Nat)) (accepts : Bytes → Bool) :
    Nat → Nat → Bytes → Option (Bytes × Bytes)
  | 0, _, _ => none
  | steps + 1, waiting, bytes => do
    let (head, rest) ← head? bytes
    if head = .stop then
      match waiting with
      | 0 => none
      | 1 => return ([], rest)
      | waiting + 1 => pieces? length? accepts steps waiting rest
    else
      match ← length? head with
      | none => pieces? length? accepts steps (waiting + 1) rest
      | some length => do
        let (piece, rest) ← Bytes.take? length rest
        if !accepts piece then none
        let (others, rest) ← pieces? length? accepts steps waiting rest
        return (piece ++ others, rest)

def bytesLength? : Head → Option (Option Nat)
  | .bytes length => some length
  | _ => none

def textLength? : Head → Option (Option Nat)
  | .text length => some length
  | _ => none

def itemsOf (item? : Bytes → Option (Document × Bytes)) :
    Nat → Bytes → Option (List Document × Bytes)
  | 0, bytes => some ([], bytes)
  | count + 1, bytes => do
    let (item, rest) ← item? bytes
    let (others, rest) ← itemsOf item? count rest
    return (item :: others, rest)

def entriesOf (item? : Bytes → Option (Document × Bytes)) :
    Nat → Bytes → Option (List (Document × Document) × Bytes)
  | 0, bytes => some ([], bytes)
  | count + 1, bytes => do
    let (key, rest) ← item? bytes
    let (value, rest) ← item? rest
    let (others, rest) ← entriesOf item? count rest
    return ((key, value) :: others, rest)

/-- The rest behind a stop, if one comes next. -/
def stop? : Bytes → Option Bytes
  | [] => none
  | first :: rest => if first = 0xFF then some rest else none

def itemsToStop (item? : Bytes → Option (Document × Bytes)) :
    Nat → Bytes → Option (List Document × Bytes)
  | 0, _ => none
  | steps + 1, bytes =>
    match stop? bytes with
    | some rest => some ([], rest)
    | none => do
      let (item, rest) ← item? bytes
      let (others, rest) ← itemsToStop item? steps rest
      return (item :: others, rest)

def entriesToStop (item? : Bytes → Option (Document × Bytes)) :
    Nat → Bytes → Option (List (Document × Document) × Bytes)
  | 0, _ => none
  | steps + 1, bytes =>
    match stop? bytes with
    | some rest => some ([], rest)
    | none => do
      let (key, rest) ← item? bytes
      let (value, rest) ← item? rest
      let (others, rest) ← entriesToStop item? steps rest
      return ((key, value) :: others, rest)

def simple? : Nat → Option Document
  | 20 => some (.bool false)
  | 21 => some (.bool true)
  | 22 => some .absent
  | 23 => some .absent
  | _ => none

/-- Reads one item. Every item takes a byte at least, so as many steps as there are bytes reach
every level and the end of every list. -/
def item? : Nat → Bytes → Option (Document × Bytes)
  | 0, _ => none
  | steps + 1, bytes => do
    let (head, rest) ← head? bytes
    match head with
    | .unsigned n => return (.int n, rest)
    | .negative n => return (.int (-1 - (n : Int)), rest)
    | .bytes (some length) => do
      let (value, rest) ← Bytes.take? length rest
      return (.bytes value true, rest)
    | .bytes none => do
      let (value, rest) ← pieces? bytesLength? (fun _ => true) steps 1 rest
      return (.bytes value false, rest)
    | .text (some length) => do
      let (piece, rest) ← Bytes.take? length rest
      let value ← Utf8.decode? piece
      return (.text value true, rest)
    | .text none => do
      let isText := fun piece => (Utf8.decode? piece).isSome
      let (joined, rest) ← pieces? textLength? isText steps 1 rest
      let value ← Utf8.decode? joined
      return (.text value false, rest)
    | .list (some count) => do
      let (items, rest) ← itemsOf (item? steps) count rest
      return (.list items, rest)
    | .list none => do
      let (items, rest) ← itemsToStop (item? steps) steps rest
      return (.list items, rest)
    | .dict (some count) => do
      let (entries, rest) ← entriesOf (item? steps) count rest
      return (.dict entries, rest)
    | .dict none => do
      let (entries, rest) ← entriesToStop (item? steps) steps rest
      return (.dict entries, rest)
    | .tag n => do
      let (item, rest) ← item? steps rest
      return (.tagged n item, rest)
    | .simple n => do return (← simple? n, rest)
    | .float => return (.real true, rest)
    | .stop => none

/-- The document at the front of a byte string and the bytes behind it. -/
def read? (bytes : Bytes) : Option (Document × Bytes) := item? bytes.length bytes

/-- The shortest head of a major type, for a number of at most eight bytes. -/
def writeHead? (major n : Nat) : Option Bytes :=
  let first := fun info => UInt8.ofNat (32 * major + info)
  if n < 24 then some [first n]
  else if n < UInt8.size then some (first 24 :: Bytes.big 1 n)
  else if n < UInt16.size then some (first 25 :: Bytes.big 2 n)
  else if n < UInt32.size then some (first 26 :: Bytes.big 4 n)
  else if n < UInt64.size then some (first 27 :: Bytes.big 8 n)
  else none

mutual

/-- Writes a document, unless a part of it names no value that is known or has a number or a length
that no head takes. -/
def write? : Document → Option Bytes
  | .unit => some [0xF6]
  | .absent => some [0xF6]
  | .bool value => some [if value then 0xF5 else 0xF4]
  | .int value => if 0 ≤ value then writeHead? 0 value.toNat else writeHead? 1 (-1 - value).toNat
  | .real _ => none
  | .garbled => none
  | .text value _ => do
    let encoded := Utf8.encode value
    let head ← writeHead? 3 encoded.length
    return head ++ encoded
  | .bytes value _ => do
    let head ← writeHead? 2 value.length
    return head ++ value
  | .list items => do
    let head ← writeHead? 4 items.length
    let body ← writeItems? items
    return head ++ body
  | .dict entries => do
    let head ← writeHead? 5 entries.length
    let body ← writeEntries? entries
    return head ++ body
  | .tagged tag item => do
    let head ← writeHead? 6 tag
    let body ← write? item
    return head ++ body

def writeItems? : List Document → Option Bytes
  | [] => some []
  | item :: rest => do
    let first ← write? item
    let others ← writeItems? rest
    return first ++ others

def writeEntries? : List (Document × Document) → Option Bytes
  | [] => some []
  | (key, value) :: rest => do
    let first ← write? key
    let second ← write? value
    let others ← writeEntries? rest
    return first ++ second ++ others

end

end VersionedCatalog.Cbor
