import VersionedCatalog.Text.Numeral

/-! # Spans of time

A span is a whole number of nanoseconds. Its text uses the largest of the units s, ms, µs and ns
that is not above it, with the remainder as a decimal fraction without closing zeros. Spans have
a largest value, and adding stops there.
-/

namespace VersionedCatalog

structure Span where
  nanos : Nat
  deriving DecidableEq

namespace Span

def zero : Span := ⟨0⟩

def ofMillis (ms : Nat) : Span := ⟨ms * 1000000⟩

def ofSeconds (s : Nat) : Span := ⟨s * 1000000000⟩

/-- Whole milliseconds. -/
def millis (d : Span) : Nat := d.nanos / 1000000

/-- Whole milliseconds, or the largest word if there are more. -/
def millisWord (d : Span) : UInt64 := UInt64.ofNat (min d.millis (UInt64.size - 1))

def longest : Span := ⟨(UInt64.size - 1) * 1000000000 + 999999999⟩

def add (d e : Span) : Span := ⟨min (d.nanos + e.nanos) longest.nanos⟩

instance : LT Span := ⟨fun d e => d.nanos < e.nanos⟩

instance : DecidableLT Span := fun d e => inferInstanceAs (Decidable (d.nanos < e.nanos))

/-- The digits of `part / 10 ^ places` behind the point, without closing zeros. -/
def fraction (places part : Nat) : String :=
  let digits := Text.padded places (Nat.toDigits 10 part)
  match (digits.reverse.dropWhile (· = '0')).reverse with
  | [] => ""
  | kept => .ofList ('.' :: kept)

def inUnit (nanos places : Nat) (unit : String) : String :=
  let size := Nat.pow 10 places
  Text.decimal (nanos / size) ++ fraction places (nanos % size) ++ unit

def text (d : Span) : String :=
  if 1000000000 ≤ d.nanos then inUnit d.nanos 9 "s"
  else if 1000000 ≤ d.nanos then inUnit d.nanos 6 "ms"
  else if 1000 ≤ d.nanos then inUnit d.nanos 3 "µs"
  else Text.decimal d.nanos ++ "ns"

end Span

end VersionedCatalog
