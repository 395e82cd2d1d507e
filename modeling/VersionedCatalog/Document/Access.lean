import VersionedCatalog.Document
import VersionedCatalog.OrderedMap

/-! # Looking into documents

The fields of a record by name, and the plain values in them. A field that is missing or holds
something else has no value.
-/

namespace VersionedCatalog.Document

def asText? : Document → Option String
  | .text value _ => some value
  | _ => none

def asNat? : Document → Option Nat
  | .int value => if 0 ≤ value then some value.toNat else none
  | _ => none

def asBool? : Document → Option Bool
  | .bool value => some value
  | _ => none

def asItems? : Document → Option (List Document)
  | .list items => some items
  | _ => none

def isKey (name : String) (key : Document) : Bool := key.asText? = some name

def field? (document : Document) (name : String) : Option Document :=
  match document with
  | .dict entries => (entries.find? fun entry => isKey name entry.1).map fun entry => entry.2
  | _ => none

def text? (document : Document) (name : String) : Option String := document.field? name >>= asText?

def nat? (document : Document) (name : String) : Option Nat := document.field? name >>= asNat?

def bool? (document : Document) (name : String) : Option Bool := document.field? name >>= asBool?

def items? (document : Document) (name : String) : Option (List Document) :=
  document.field? name >>= asItems?

/-- The entries of a table of texts; what is no text is left out. -/
def texts? : Document → Option (OrderedMap String String)
  | .dict entries => some <| .ofList <| entries.filterMap fun entry =>
    match entry.1.asText?, entry.2.asText? with
    | some key, some value => some (key, value)
    | _, _ => none
  | _ => none

/-- The record with one more field. -/
def withField (document : Document) (name : String) (value : Document) : Document :=
  match document with
  | .dict entries => .dict (entries ++ [(ofText name, value)])
  | _ => document

end VersionedCatalog.Document
