import VersionedCatalog.History.Key
import VersionedCatalog.Storage.Rows

/-! # Versions

Nothing is overwritten: every change of an entity adds a row, whose key is the stem of the entity
and a stamp, and whose value is a flag and a payload. The newest version says what the entity is: it
lives, it was dropped, or it went to another name.
-/

namespace VersionedCatalog

inductive Flag
  | live
  | tombstone
  | renamed
  deriving DecidableEq

namespace Flag

def byte : Flag → UInt8
  | .live => 0
  | .tombstone => 1
  | .renamed => 2

def all : List Flag := [.live, .tombstone, .renamed]

def ofByte? (byte : UInt8) : Option Flag := all.find? fun flag => flag.byte = byte

def name : Flag → String
  | .live => "Live"
  | .tombstone => "Tombstone"
  | .renamed => "Renamed"

theorem ofByte?_byte (flag : Flag) : ofByte? flag.byte = some flag := by
  cases flag <;> rfl

end Flag

/-- A version as it is stored, with the stem of its entity. -/
structure Version where
  stem : Bytes
  stamp : Stamp
  flag : Flag
  payload : Bytes
  deriving DecidableEq

namespace Version

def encodeValue (flag : Flag) (payload : Bytes) : Bytes := flag.byte :: payload

def decodeValue (value : Bytes) : Except HistoryError (Flag × Bytes) :=
  match value with
  | [] => .error .emptyValue
  | byte :: payload =>
    match Flag.ofByte? byte with
    | some flag => .ok (flag, payload)
    | none => .error (.flag byte)

theorem decodeValue_encodeValue (flag : Flag) (payload : Bytes) :
    decodeValue (encodeValue flag payload) = .ok (flag, payload) := by
  simp [decodeValue, encodeValue, Flag.ofByte?_byte]

def isLive (version : Version) : Bool := version.flag = .live

def ofRow (row : Storage.Row) : Except HistoryError Version := do
  let (stem, stamp) ← Key.split row.1
  let (flag, payload) ← decodeValue row.2
  return ⟨stem, stamp, flag, payload⟩

def toRow (version : Version) : Storage.Row :=
  (Key.version version.stem version.stamp, encodeValue version.flag version.payload)

theorem ofRow_toRow (version : Version) (hStem : version.stem ≠ []) :
    ofRow version.toRow = .ok version := by
  have hSplit := Key.split_version version.stem version.stamp hStem
  have hValue := decodeValue_encodeValue version.flag version.payload
  simp only [ofRow, toRow, hSplit, hValue]
  rfl

def ofRows : List Storage.Row → Except HistoryError (List Version)
  | [] => .ok []
  | row :: rest => do
    let version ← ofRow row
    let others ← ofRows rest
    return version :: others

/-- Of versions in the order of their keys, the newest of every entity. -/
def newest : List Version → List Version
  | [] => []
  | version :: rest =>
    match rest with
    | [] => [version]
    | next :: _ =>
      if next.stem = version.stem then newest rest else version :: newest rest

/-- Where a renamed entity went. -/
def renameTarget (payload : Bytes) : Except HistoryError Name :=
  match Utf8.decode? payload with
  | none => .error .renameText
  | some text => (Name.parse text).mapError .renameName

end Version

end VersionedCatalog
