import VersionedCatalog.Text.Utf8

/-! # Documents

A payload body is a tree of lists, dictionaries and plain values, whichever of the two formats it
is written in. The tree keeps what a reader may have to know about the writing: whether a text or
byte string came in one piece, tags, and the parts that are well written but name no value, such as
a quoted text with half a surrogate pair or a number beyond the range of doubles. Such parts do no
harm where they are skipped.

The two formats write the missing value in ways that some readers tell apart: `unit` is the null of
JSON, `absent` the null and the undefined of CBOR.
-/

namespace VersionedCatalog

inductive Document
  | unit
  | absent
  | bool (value : Bool)
  | int (value : Int)
  | real (finite : Bool)
  | text (value : String) (whole : Bool)
  | garbled
  | bytes (value : Bytes) (whole : Bool)
  | list (items : List Document)
  | dict (entries : List (Document × Document))
  | tagged (tag : Nat) (item : Document)

namespace Document

def ofText (s : String) : Document := .text s true

def ofNat (n : Nat) : Document := .int n

def ofOption (write : α → Document) : Option α → Document
  | none => .absent
  | some a => write a

/-- A record: a dictionary with the names of its fields for keys. -/
def ofFields (fields : List (String × Document)) : Document :=
  .dict (fields.map fun field => (ofText field.1, field.2))

mutual

/-- Whether every part of a document passes a test. -/
def every (p : Document → Bool) : Document → Bool
  | .list items => p (.list items) && everyItem p items
  | .dict entries => p (.dict entries) && everyEntry p entries
  | .tagged tag item => p (.tagged tag item) && every p item
  | document => p document

def everyItem (p : Document → Bool) : List Document → Bool
  | [] => true
  | item :: rest => every p item && everyItem p rest

def everyEntry (p : Document → Bool) : List (Document × Document) → Bool
  | [] => true
  | (key, value) :: rest => every p key && every p value && everyEntry p rest

end

/-- Whether a tag and the item behind it stand for an integer, tag 2 for a natural number and tag 3
for a negative one: the item is then a byte string in one piece that is no longer than 16. -/
def isLargeInt (tag : Nat) (item : Document) : Bool :=
  match tag, item with
  | 2, .bytes value true => value.length ≤ 16
  | 3, .bytes value true => value.length ≤ 16
  | _, _ => false

mutual

/-- How deep lists, dictionaries and tags are nested. The tag of an integer opens no level. -/
def height : Document → Nat
  | .list items => 1 + heightOfItems items
  | .dict entries => 1 + heightOfEntries entries
  | .tagged tag item => if isLargeInt tag item then 0 else 1 + height item
  | _ => 0

def heightOfItems : List Document → Nat
  | [] => 0
  | item :: rest => max (height item) (heightOfItems rest)

def heightOfEntries : List (Document × Document) → Nat
  | [] => 0
  | (key, value) :: rest => max (max (height key) (height value)) (heightOfEntries rest)

end

/-- A part that may be skipped: only a negative integer is ever out of range, the magnitude of which
has no room for a sign in its 16 bytes. -/
def isSkippablePart : Document → Bool
  | .tagged 3 (.bytes value true) =>
    16 < value.length || Bytes.ofBig value < 0x80000000000000000000000000000000
  | _ => true

/-- A part that names a plain value: nothing tagged or garbled and no number out of range. -/
def isPlainPart : Document → Bool
  | .tagged _ _ => false
  | .garbled => false
  | .real finite => finite
  | .int value => -0x8000000000000000 ≤ value && value < UInt64.size
  | _ => true

def isSkippable (document : Document) : Bool := document.every isSkippablePart

def isPlain (document : Document) : Bool := document.every isPlainPart

end Document

end VersionedCatalog
