/-! # Byte strings

Keys, values, files and payloads are lists of bytes. They compare byte by byte, a proper
beginning before its extensions, which is the order of `List UInt8`.
-/

namespace VersionedCatalog

abbrev Bytes := List UInt8

namespace Bytes

/-- The `width` low bytes of a number, least significant first. -/
def little : Nat → Nat → Bytes
  | 0, _ => []
  | width + 1, n => UInt8.ofNat (n % 256) :: little width (n / 256)

def ofLittle : Bytes → Nat
  | [] => 0
  | b :: rest => b.toNat + 256 * ofLittle rest

/-- The `width` low bytes of a number, most significant first. -/
def big (width n : Nat) : Bytes := (little width n).reverse

def ofBig (bytes : Bytes) : Nat := ofLittle bytes.reverse

/-- The first `n` bytes and what follows them, when there are that many. -/
def take? (n : Nat) (bytes : Bytes) : Option (Bytes × Bytes) :=
  if n ≤ bytes.length then some (bytes.take n, bytes.drop n) else none

/-- The least byte string above every extension of a stem, when there is one: the last byte
that can still grow is raised by one and what follows it is dropped. -/
def next? : Bytes → Option Bytes
  | [] => none
  | b :: rest =>
    match next? rest with
    | some above => some (b :: above)
    | none => if b < 255 then some [b + 1] else none

theorem length_little (width n : Nat) : (little width n).length = width := by
  induction width generalizing n with
  | zero => rfl
  | succ width ih => simp [little, ih]

theorem length_big (width n : Nat) : (big width n).length = width := by
  simp [big, length_little]

theorem ofLittle_little (width n : Nat) : ofLittle (little width n) = n % Nat.pow 256 width := by
  induction width generalizing n with
  | zero => simp [little, ofLittle, Nat.mod_one]
  | succ width ih =>
    simp only [little, ofLittle, ih]
    have hByte : (UInt8.ofNat (n % 256)).toNat = n % 256 := by simp
    rw [hByte, Nat.pow_eq, Nat.pow_eq, Nat.pow_succ, Nat.mul_comm (256 ^ width) 256, Nat.mod_mul]

theorem ofBig_big (width n : Nat) : ofBig (big width n) = n % Nat.pow 256 width := by
  simp [ofBig, big, ofLittle_little]

end Bytes

end VersionedCatalog
