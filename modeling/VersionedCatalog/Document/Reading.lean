import VersionedCatalog.Document
import VersionedCatalog.OrderedMap

/-! # Reading values from documents

A record is a dictionary with its field names for keys. Fields that a reader does not know are
skipped, a known field may come once only, and whether a field may be missing is up to the field.

What else is taken depends on where the document comes from. CBOR may tag any value, may write an
integer as the bytes of its magnitude and a list of small integers as bytes, and its records are
dictionaries. JSON also takes a record as the list of its fields. A variant is told by one field of
its record, so the record is buffered before the field is known, and what is read from the buffer
is held to the union of the two rules.
-/

namespace VersionedCatalog

inductive Dialect
  | cbor
  | json
  | buffered
  deriving DecidableEq

/-- A dialect and the number of levels that may still be opened below a document. -/
structure Source where
  dialect : Dialect
  room : Nat
  deriving DecidableEq

namespace Source

def cbor : Source := ⟨.cbor, 256⟩

def json : Source := ⟨.json, 127⟩

def buffered : Source := ⟨.buffered, 0⟩

def inner (source : Source) : Source := { source with room := source.room - 1 }

def isCbor (source : Source) : Bool := source.dialect = .cbor

/-- The item behind all tags. -/
def untagged : Document → Document
  | .tagged _ item => untagged item
  | document => document

def bare (source : Source) (document : Document) : Document :=
  if source.isCbor then untagged document else document

def bool? : Document → Option Bool
  | .bool value => some value
  | _ => none

def plainInt? : Document → Option Int
  | .int value => some value
  | _ => none

/-- The value of a large integer, at most 16 bytes after its leading zeros. -/
def magnitude? (bytes : Bytes) : Option Nat :=
  let digits := bytes.dropWhile (· = 0)
  if digits.length ≤ 16 then some (Bytes.ofBig digits) else none

/-- An integer, also one that is written as the bytes of its magnitude behind the tag 2, or 3 if it
is negative. Nothing else may stand behind these two tags. -/
def taggedInt? : Document → Option Int
  | .int value => some value
  | .tagged 2 (.bytes value _) => (magnitude? value).map fun n => n
  | .tagged 3 (.bytes value _) => (magnitude? value).map fun n => -1 - (n : Int)
  | .tagged 2 _ => none
  | .tagged 3 _ => none
  | .tagged _ item => taggedInt? item
  | _ => none

variable (source : Source)

def flag? (document : Document) : Option Bool := bool? (source.bare document)

def int? (document : Document) : Option Int :=
  if source.isCbor then taggedInt? document else plainInt? document

/-- An integer of one word without sign. -/
def word? (document : Document) : Option UInt64 := do
  let value ← source.int? document
  if 0 ≤ value ∧ value < UInt64.size then some (UInt64.ofNat value.toNat) else none

/-- An integer of one word with sign. -/
def signedWord? (document : Document) : Option Int :=
  (source.int? document).filter fun value => -0x8000000000000000 ≤ value && value < 0x8000000000000000

def text? (document : Document) : Option String :=
  match source.bare document with
  | .text value _ => some value
  | .bytes value _ => if source.dialect = .buffered then Utf8.decode? value else none
  | _ => none

/-- Whether a document stands for the missing value. -/
def isMissing (document : Document) : Bool :=
  match document with
  | .absent => source.dialect ≠ .json
  | .unit => source.dialect ≠ .cbor
  | _ => false

def option? (read? : Document → Option α) (document : Document) : Option (Option α) :=
  if source.isMissing document then some none else (read? document).map some

def items? (document : Document) : Option (List Document) :=
  match source.bare document with
  | .list items => some items
  | .bytes value _ =>
    if source.isCbor then some (value.map fun b => .ofNat b.toNat) else none
  | _ => none

def list? (read? : Document → Option α) (document : Document) : Option (List α) :=
  source.items? document >>= List.mapM read?

def entries? (document : Document) : Option (List (Document × Document)) :=
  match source.bare document with
  | .dict entries => some entries
  | _ => none

def pairs? (readKey? : Document → Option κ) (readValue? : Document → Option ν)
    (document : Document) : Option (List (κ × ν)) := do
  let entries ← source.entries? document
  entries.mapM fun entry => do return (← readKey? entry.1, ← readValue? entry.2)

/-- A table of texts; of two values for one key the later counts. -/
def texts? (document : Document) : Option (OrderedMap String String) :=
  (source.pairs? source.text? source.text? document).map .ofList

/-- What a key says of a field: its name in UTF-8 or its position. -/
inductive Label
  | name (bytes : Bytes)
  | position (n : Nat)
  deriving DecidableEq

def Label.pick : Label → List String → Option String
  | .name bytes, names => names.find? fun name => Utf8.encode name = bytes
  | .position n, names => names[n]?

/-- The longest name of a field that CBOR keys may have, in bytes. -/
def longestName : Nat := 4096

def wholeName? (bytes : Bytes) (whole : Bool) : Option Bytes :=
  if whole && bytes.length ≤ longestName then some bytes else none

def label? (key : Document) : Option Label :=
  match source.dialect, source.bare key with
  | .cbor, .text value whole => (wholeName? (Utf8.encode value) whole).map .name
  | .cbor, .bytes value whole => (wholeName? value whole).map .name
  | .json, .text value _ => some (.name (Utf8.encode value))
  | .buffered, .text value _ => some (.name (Utf8.encode value))
  | .buffered, .bytes value _ => some (.name value)
  | .buffered, .int value => if 0 ≤ value then some (.position value.toNat) else none
  | _, _ => none

/-- Whether the value of an unknown field may be skipped. In CBOR it takes room for its levels; the
grammar of JSON is checked without counting them. -/
def skips (value : Document) : Bool :=
  !source.isCbor || (value.isSkippable && value.height ≤ source.inner.room)

end Source

/-- The fields found in a record. -/
abbrev Fields := List (String × Document)

namespace Fields

def required? (fields : Fields) (name : String) (read? : Document → Option α) : Option α :=
  fields.lookup name >>= read?

def optional? (fields : Fields) (name : String) (default : α) (read? : Document → Option α) :
    Option α :=
  match fields.lookup name with
  | some document => read? document
  | none => some default

/-- The fields of a dictionary with known names, each at most once. -/
def collect? (source : Source) (names : List String) :
    List (Document × Document) → Option Fields
  | [] => some []
  | (key, value) :: rest => do
    let label ← source.label? key
    let fields ← collect? source names rest
    match label.pick names with
    | some name =>
      if (fields.lookup name).isSome then none
      return (name, value) :: fields
    | none =>
      if !source.skips value then none
      return fields

def ofDocument? (source : Source) (names : List String) (document : Document) : Option Fields :=
  match source.bare document with
  | .dict entries => collect? source names entries
  | .list items =>
    if !source.isCbor && items.length ≤ names.length then some (names.zip items) else none
  | _ => none

end Fields

namespace Source

/-- A variant without fields: its name, or a dictionary from its name to nothing. -/
def variant? (names : List (String × α)) (document : Document) : Option α :=
  let pick := fun label : Option Label => do
    let label ← label
    let name ← label.pick (names.map (·.1))
    names.lookup name
  match document with
  | .text value _ => pick (some (.name (Utf8.encode value)))
  | .dict [(key, .unit)] => pick (buffered.label? key)
  | .dict [(key, .dict [])] => pick (buffered.label? key)
  | _ => none

end Source

end VersionedCatalog
