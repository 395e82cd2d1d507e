import VersionedCatalog.Document.Access
import VersionedCatalog.Store.Collection
import VersionedCatalog.Store.Reading
import VersionedCatalog.Text.Hex

/-! # Answers as documents

What a store answers, as documents. Bytes are shown in hexadecimal, names by their paths or by their
texts, and times that may be longer than a word as decimal texts.
-/

namespace VersionedCatalog

namespace Document

def ofBytes (bytes : Bytes) : Document := ofText (Hex.encode bytes)

def ofMillis (span : Span) : Document := ofText (Text.decimal span.millis)

/-- A value that may be missing, with the null of JSON. -/
def ofNullable (write : α → Document) : Option α → Document
  | none => .unit
  | some a => write a

def ofRow (row : Storage.Row) : Document := .list [ofBytes row.1, ofBytes row.2]

def ofRows (rows : List Storage.Row) : Document := .list (rows.map ofRow)

def ofLevels (scope : Namespace) : Document := .list (scope.levels.map ofText)

def ofPath (name : Name) : Document := .list (name.path.map ofText)

def ofType (type : EntityType) : Document := ofText type.name

def ofId (id : EntityId) : Document := ofNat id.word.toNat

end Document

open Document

def Stamp.toDocument (stamp : Stamp) : Document :=
  ofFields [("millis", ofNat stamp.millis.toNat), ("seq", ofNat stamp.seq.toNat)]

def Stamp.ofDocument? (document : Document) : Option Stamp := do
  let millis ← document.nat? "millis"
  let seq ← document.nat? "seq"
  return ⟨UInt64.ofNat millis, UInt32.ofNat seq⟩

def Sweep.toDocument (sweep : Sweep) : Document :=
  ofFields [
    ("scanned", ofNat sweep.scanned),
    ("removed", ofNat sweep.removed),
    ("purged", ofNat sweep.purged)]

/-- A version: its stamp and one more field for what it says. -/
def VersionState.toDocument (stamp : Stamp) (state : VersionState) : Document :=
  match state with
  | .live entity => stamp.toDocument.withField "live" entity.toDocument
  | .tombstone => stamp.toDocument.withField "tombstone" (.bool true)
  | .renamed target => stamp.toDocument.withField "renamed" (ofText target.text)

def IdStrategy.name : IdStrategy → String
  | .random => "Random"
  | .sequential => "Sequential"

def Settings.toDocument (settings : Settings) : Document :=
  ofFields [
    ("backend", ofText settings.backend),
    ("path", ofNullable ofText settings.path),
    ("serde", ofText settings.format.name),
    ("max_skew_ms", ofMillis settings.skew),
    ("delete_after_ms", ofMillis settings.deleteAfter),
    ("gc_interval_ms", ofNullable ofMillis settings.sweepInterval),
    ("lock_timeout_ms", ofMillis settings.lockTimeout),
    ("sync_on_commit", .bool settings.syncOnCommit),
    ("id_strategy", ofText settings.idStrategy.name),
    ("retention_ms", ofMillis settings.retention)]

end VersionedCatalog
