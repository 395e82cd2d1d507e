/-! # Numerals

Numbers are read from decimal digits, with an optional plus sign in front and any number of
leading zeros, up to a largest value; they are written without either. Error texts also show
numbers in hexadecimal of a fixed width.
-/

namespace VersionedCatalog.Text

/-- The value of a decimal digit; only the ten ASCII digits are digits here. -/
def digitValue? (c : Char) : Option Nat :=
  if '0' ≤ c ∧ c ≤ '9' then some (c.toNat - '0'.toNat) else none

def digitsValue? : List Char → Nat → Option Nat
  | [], value => some value
  | c :: rest, value => do
    let digit ← digitValue? c
    digitsValue? rest (10 * value + digit)

def readDigits? : List Char → Option Nat
  | [] => none
  | c :: rest => digitsValue? (c :: rest) 0

/-- Reads a numeral of at most `limit`. -/
def readUpTo? (limit : Nat) (s : String) : Option Nat :=
  let digits := match s.toList with
    | '+' :: rest => rest
    | cs => cs
  (readDigits? digits).filter (· ≤ limit)

def readWord? (s : String) : Option UInt64 :=
  (readUpTo? (UInt64.size - 1) s).map UInt64.ofNat

def decimal (n : Nat) : String := .ofList (Nat.toDigits 10 n)

def padded (width : Nat) (digits : List Char) : List Char :=
  List.replicate (width - digits.length) '0' ++ digits

/-- Lowercase hexadecimal digits, padded with zeros to a width. -/
def hexadecimal (width n : Nat) : String := .ofList (padded width (Nat.toDigits 16 n))

end VersionedCatalog.Text
