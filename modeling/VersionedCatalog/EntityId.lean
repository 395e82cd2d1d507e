import VersionedCatalog.Bytes
import VersionedCatalog.OrderedMap
import VersionedCatalog.Text.Numeral

/-! # Entity ids

An id is a word. Every entity also carries its id as a text in its properties, so that a repeated
request is recognised as the one that came before; the property is reserved for this.

New ids come from a source: a counter, a list given in advance whose last id repeats, or a stream
of pseudo-random ids. The first and the last stay within the positive signed words.
-/

namespace VersionedCatalog

abbrev Properties := OrderedMap String String

structure EntityId where
  word : UInt64
  deriving DecidableEq

namespace EntityId

def ofNat (n : Nat) : EntityId := ⟨UInt64.ofNat n⟩

/-- The greatest id that a source draws. -/
def last : Nat := 0x7FFFFFFFFFFFFFFF

def bytes (id : EntityId) : Bytes := Bytes.big 8 id.word.toNat

def ofBytes? (bytes : Bytes) : Option EntityId :=
  if bytes.length = 8 then some (ofNat (Bytes.ofBig bytes)) else none

theorem ofBytes?_bytes (id : EntityId) : ofBytes? id.bytes = some id := by
  have hSmall : id.word.toNat < UInt64.size := id.word.toNat_lt
  have hValue : Bytes.ofBig (Bytes.big 8 id.word.toNat) = id.word.toNat := by
    rw [Bytes.ofBig_big]
    exact Nat.mod_eq_of_lt hSmall
  rw [ofBytes?, bytes, if_pos (Bytes.length_big 8 _), hValue, ofNat, UInt64.ofNat_toNat]

def text (id : EntityId) : String := Text.decimal id.word.toNat

/-- The reserved property. -/
def propertyKey : String := "lakemeta.identifier"

def tagStem : String := "lakemeta.v1.uid"

/-- The text that stands for an id in the properties. -/
def tag (id : EntityId) : String := tagStem ++ id.text

/-- What follows a stem in a text that starts with it. -/
def afterStem? : List Char → List Char → Option (List Char)
  | [], rest => some rest
  | _ :: _, [] => none
  | c :: stem, d :: rest => if c = d then afterStem? stem rest else none

def ofTag? (text : String) : Option EntityId := do
  let digits ← afterStem? tagStem.toList text.toList
  let word ← Text.readWord? (.ofList digits)
  return ⟨word⟩

def addTo (id : EntityId) (properties : Properties) : Properties :=
  properties.insert propertyKey id.tag

def removeFrom (properties : Properties) : Properties := properties.erase propertyKey

end EntityId

inductive IdSource
  | counter (next : Nat)
  | listed (ids : List EntityId)
  | random (state : UInt64)
  deriving DecidableEq

namespace IdSource

def startingAfter (last : UInt64) : IdSource := .counter (min (last.toNat + 1) (UInt64.size - 1))

/-- Spreads the bits of a state over a word. -/
def mix (state : UInt64) : UInt64 :=
  let a := (state ^^^ (state >>> 30)) * 0xBF58476D1CE4E5B9
  let b := (a ^^^ (a >>> 27)) * 0x94D049BB133111EB
  b ^^^ (b >>> 31)

/-- The next id and the source after it. A counter comes to an end, the others do not. -/
def draw? : IdSource → Option (EntityId × IdSource)
  | .counter next =>
    if next ≤ EntityId.last then some (.ofNat next, .counter (next + 1)) else none
  | .listed [] => none
  | .listed [id] => some (id, .listed [id])
  | .listed (id :: rest) => some (id, .listed rest)
  | .random state =>
    let state := state + 0x9E3779B97F4A7C15
    some (.ofNat ((mix state).toNat % EntityId.last + 1), .random state)

end IdSource

end VersionedCatalog
