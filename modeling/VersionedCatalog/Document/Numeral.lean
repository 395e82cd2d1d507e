import VersionedCatalog.Document

/-! # Decimal numerals

A numeral has whole digits and may have a fraction and an exponent. Without both of these it names
an integer, if that fits a word with or without sign. Any other numeral names a double, of which
only one thing matters here: whether it is finite.

The double is computed from a significand of one word. Digits that no longer fit the word are
dropped; the significand and the power of ten are rounded to doubles, and then their product is.
-/

namespace VersionedCatalog

structure Numeral where
  negative : Bool
  whole : List Nat
  fraction : Option (List Nat)
  exponent : Option Int
  deriving DecidableEq

namespace Numeral

/-- The leading digits that fit a word behind `value`, as a number, and how many they are. -/
def absorb (value : Nat) : List Nat → Nat × Nat
  | [] => (value, 0)
  | digit :: rest =>
    if 10 * value + digit < UInt64.size then
      let (total, count) := absorb (10 * value + digit) rest
      (total, count + 1)
    else (value, 0)

/-- The significand and the power of ten it stands before. -/
def scaled (numeral : Numeral) : Nat × Int :=
  let (whole, kept) := absorb 0 numeral.whole
  let (significand, places) := absorb whole (numeral.fraction.getD [])
  let dropped : Int := numeral.whole.length - kept
  (significand, dropped - places + numeral.exponent.getD 0)

/-- The nearest number with at most 53 binary digits before its zeros; a tie goes to the even one. -/
def round53 (n : Nat) : Nat :=
  if n < 0x20000000000000 then n
  else
    let unit := 1 <<< (n.log2 - 52)
    let below := n / unit
    let twice := 2 * (n % unit)
    if twice < unit ∨ (twice = unit ∧ below % 2 = 0) then below * unit else (below + 1) * unit

/-- From here on a product no longer rounds to a finite double. -/
def overflow : Nat := 0x3FFFFFFFFFFFFF <<< 970

/-- The greatest power of ten that is a finite double. -/
def lastPower : Int := 308

def isFinite (numeral : Numeral) : Bool :=
  let (significand, power) := numeral.scaled
  if significand = 0 ∨ power < 0 then true
  else if lastPower < power then false
  else round53 significand * round53 (Nat.pow 10 power.toNat) < overflow

def isInteger (numeral : Numeral) : Bool :=
  numeral.fraction.isNone && numeral.exponent.isNone

/-- The value of an integer that fits a word. Zero with a minus sign is none. -/
def integer? (numeral : Numeral) : Option Int :=
  let magnitude := Int.ofNat (numeral.whole.foldl (fun value digit => 10 * value + digit) 0)
  if !numeral.isInteger then none
  else if numeral.negative then
    if magnitude ≠ 0 ∧ magnitude ≤ 0x8000000000000000 then some (-magnitude) else none
  else if magnitude < UInt64.size then some magnitude
  else none

def toDocument (numeral : Numeral) : Document :=
  match numeral.integer? with
  | some value => .int value
  | none => .real numeral.isFinite

end Numeral

end VersionedCatalog
