import VersionedCatalog.Bytes
import VersionedCatalog.Millis
import VersionedCatalog.Text.Numeral

/-! # Stamps

A stamp orders the versions of an entity: a time, and a number that orders stamps of one time. New
stamps follow the wall clock and are later than every stamp before them. When the clock has not
moved past the last stamp, the new one keeps its time and takes the next number. A clock that is
further behind than the skew allows is refused.
-/

namespace VersionedCatalog

structure Stamp where
  millis : Millis
  seq : UInt32
  deriving DecidableEq

namespace Stamp

def zero : Stamp := ⟨0, 0⟩

instance : LT Stamp := ⟨fun a b => a.millis < b.millis ∨ (a.millis = b.millis ∧ a.seq < b.seq)⟩

instance : DecidableLT Stamp := fun a b =>
  inferInstanceAs (Decidable (a.millis < b.millis ∨ (a.millis = b.millis ∧ a.seq < b.seq)))

def later (a b : Stamp) : Stamp := if a < b then b else a

/-- The number of bytes of a stamp in keys. -/
def size : Nat := 12

/-- Both numbers with their high bytes first, so the bytes order like the stamps. -/
def bytes (stamp : Stamp) : Bytes := Bytes.big 8 stamp.millis.toNat ++ Bytes.big 4 stamp.seq.toNat

def ofBytes? (bytes : Bytes) : Option Stamp :=
  if bytes.length = size then
    some {
      millis := UInt64.ofNat (Bytes.ofBig (bytes.take 8))
      seq := UInt32.ofNat (Bytes.ofBig (bytes.drop 8)) }
  else none

theorem length_bytes (stamp : Stamp) : stamp.bytes.length = size := by
  simp [bytes, size, Bytes.length_big]

theorem ofBytes?_bytes (stamp : Stamp) : ofBytes? stamp.bytes = some stamp := by
  have hMillis : Bytes.ofBig (Bytes.big 8 stamp.millis.toNat) = stamp.millis.toNat := by
    rw [Bytes.ofBig_big]
    exact Nat.mod_eq_of_lt stamp.millis.toNat_lt
  have hSeq : Bytes.ofBig (Bytes.big 4 stamp.seq.toNat) = stamp.seq.toNat := by
    rw [Bytes.ofBig_big]
    exact Nat.mod_eq_of_lt stamp.seq.toNat_lt
  have hTake : stamp.bytes.take 8 = Bytes.big 8 stamp.millis.toNat :=
    List.take_left' (Bytes.length_big 8 _)
  have hDrop : stamp.bytes.drop 8 = Bytes.big 4 stamp.seq.toNat :=
    List.drop_left' (Bytes.length_big 8 _)
  rw [ofBytes?, if_pos (length_bytes stamp), hTake, hDrop, hMillis, hSeq, UInt64.ofNat_toNat,
    UInt32.ofNat_toNat]

def text (stamp : Stamp) : String :=
  s!"VersionStamp({Text.decimal stamp.millis.toNat}.{Text.decimal stamp.seq.toNat})"

/-- The least stamp above another one, unless that is the last of all. -/
def successor (stamp : Stamp) : Stamp :=
  if stamp.seq < 0xFFFFFFFF then ⟨stamp.millis, stamp.seq + 1⟩ else ⟨stamp.millis.plus 1, 0⟩

/-- A clock that is too far behind the stamp of a present version. -/
structure Skew where
  latest : Millis
  now : Millis
  limit : Millis
  deriving DecidableEq

def Skew.message (skew : Skew) : String :=
  let latest := Text.decimal skew.latest.toNat
  let ahead := Text.decimal (skew.latest.toNat - skew.now.toNat)
  let limit := Text.decimal skew.limit.toNat
  s!"clock skew: current version at {latest} ms is {ahead} ms ahead of wall clock, limit {limit} ms"

/-- The stamp of a write at time `now` after the stamp `last` was given out, for an entity whose
present version has the stamp `latest`. -/
def next (limit now : Millis) (last : Stamp) (latest : Option Stamp) : Except Skew Stamp :=
  let floor := match latest with
    | some stamp => last.later stamp
    | none => last
  let issued := if floor.millis < now then ⟨now, 0⟩ else floor.successor
  match latest with
  | some stamp =>
    if now.plus limit < stamp.millis then .error ⟨stamp.millis, now, limit⟩ else .ok issued
  | none => .ok issued

end Stamp

end VersionedCatalog
