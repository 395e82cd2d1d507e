import VersionedCatalog.Entity.Kind
import VersionedCatalog.EntityId
import VersionedCatalog.History.Stamp
import VersionedCatalog.Name
import VersionedCatalog.Text.Utf8

/-! # Keys

The rows of a store have three kinds of keys:

    type (1)  parts of a path  stamp (12)      a version of an entity
    F0  id (8)                                 where the entity with an id is
    F1 01                                      the greatest id ever given

A part is written with a byte FF behind every zero byte and with the bytes 00 01 at its end. So no
part is the beginning of another one, parts order like their texts, and everything below a path has
keys that start with a common stem.
-/

namespace VersionedCatalog

/-- What can be wrong with stored keys and values. -/
inductive HistoryError
  | shortKey
  | stampLength
  | emptyStem
  | typeCode (code : UInt8)
  | partCount (type : EntityType) (count : Nat)
  | keyName (error : NameError)
  | partText
  | partEnd
  | emptyValue
  | flag (byte : UInt8)
  | renameText
  | renameName (error : NameError)
  deriving DecidableEq

def HistoryError.message : HistoryError → String
  | .shortKey => "version key too short"
  | .stampLength => "version stamp has wrong length"
  | .emptyStem => "empty entity key"
  | .typeCode code =>
    let digits := Text.hexadecimal 2 code.toNat
    s!"unknown entity type code 0x{digits}"
  | .partCount type count => s!"{type.name} key has {Text.decimal count} components"
  | .keyName error => s!"invalid identifier in key: {error.message}"
  | .partText => "key component is not UTF-8"
  | .partEnd => "unterminated key component"
  | .emptyValue => "empty version value"
  | .flag byte => s!"unknown version flag {Text.decimal byte.toNat}"
  | .renameText => "rename target is not UTF-8"
  | .renameName error => s!"invalid rename target: {error.message}"

namespace Key

def escape (b : UInt8) : Bytes := if b = 0 then [0, 0xFF] else [b]

def part (text : String) : Bytes := (Utf8.encode text).flatMap escape ++ [0, 1]

/-- The bytes of the part at the front and what follows it. -/
def splitPart? : Bytes → Option (Bytes × Bytes)
  | [] => none
  | [_] => none
  | b :: next :: rest =>
    if b ≠ 0 then do
      let (bytes, rest) ← splitPart? (next :: rest)
      return (b :: bytes, rest)
    else if next = 0xFF then do
      let (bytes, rest) ← splitPart? rest
      return (0 :: bytes, rest)
    else if next = 1 then some ([], rest)
    else none

def takePart (bytes : Bytes) : Except HistoryError (String × Bytes) :=
  match splitPart? bytes with
  | none => .error .partEnd
  | some (bytes, rest) =>
    match Utf8.decode? bytes with
    | some text => .ok (text, rest)
    | none => .error .partText

/-- The parts of a path; every part takes a byte at least, which bounds the steps. -/
def takeParts : Nat → Bytes → Except HistoryError (List String)
  | 0, _ => .ok []
  | steps + 1, bytes =>
    if bytes.isEmpty then .ok []
    else do
      let (first, rest) ← takePart bytes
      let others ← takeParts steps rest
      return first :: others

def typed (type : EntityType) (path : List String) : Bytes := type.code :: path.flatMap part

/-- What the keys of all versions of an entity start with. -/
def entity (type : EntityType) (name : Name) : Bytes := typed type name.path

/-- What the keys of all entities of a type in a namespace start with. -/
def children (type : EntityType) (scope : Namespace) : Bytes := typed type scope.levels

/-- What the keys of all entities below an entity start with, for each type. -/
def descendants (type : EntityType) (name : Name) : List (EntityType × Bytes) :=
  type.deeper.map fun other => (other, typed other name.path)

def version (stem : Bytes) (stamp : Stamp) : Bytes := stem ++ stamp.bytes

/-- The stem and the stamp of a version. -/
def split (key : Bytes) : Except HistoryError (Bytes × Stamp) :=
  let size := key.length - Stamp.size
  if size = 0 then .error .shortKey
  else
    match Stamp.ofBytes? (key.drop size) with
    | some stamp => .ok (key.take size, stamp)
    | none => .error .stampLength

theorem split_version (stem : Bytes) (stamp : Stamp) (hStem : stem ≠ []) :
    split (version stem stamp) = .ok (stem, stamp) := by
  have hLength : (version stem stamp).length - Stamp.size = stem.length := by
    simp [version, Stamp.length_bytes]
  have hSome : stem.length ≠ 0 := fun hZero => hStem (List.length_eq_zero_iff.mp hZero)
  have hTake : (version stem stamp).take stem.length = stem := List.take_left' rfl
  have hDrop : (version stem stamp).drop stem.length = stamp.bytes := List.drop_left' rfl
  simp only [split, hLength, if_neg hSome, hDrop, hTake, Stamp.ofBytes?_bytes]

def decodeEntity (stem : Bytes) : Except HistoryError (EntityType × Name) :=
  match stem with
  | [] => .error .emptyStem
  | code :: rest =>
    match EntityType.ofCode? code with
    | none => .error (.typeCode code)
    | some type => do
      let path ← takeParts rest.length rest
      if path.length ≠ type.depth + 1 then throw (.partCount type path.length)
      let name ← (Name.ofPath path).mapError HistoryError.keyName
      return (type, name)

def idStem : UInt8 := 0xF0

def id (id : EntityId) : Bytes := idStem :: id.bytes

def watermark : Bytes := [0xF1, 0x01]

end Key

end VersionedCatalog
