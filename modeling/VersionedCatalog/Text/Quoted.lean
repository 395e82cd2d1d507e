import VersionedCatalog.Text.ExtendingMark
import VersionedCatalog.Text.Unprintable

/-! # Quoted text

A quoted text stands between double quotes and can be told apart by eye: a double quote and a
backslash come behind a backslash, and so does a letter or a zero for the commonest control
characters. Every other character that is not seen by itself is written as its code point.
-/

namespace VersionedCatalog.Text

/-- The letter that stands for a character behind a backslash. -/
def shortEscape? : Char → Option Char
  | '"' => some '"'
  | '\\' => some '\\'
  | '\n' => some 'n'
  | '\r' => some 'r'
  | '\t' => some 't'
  | '\x00' => some '0'
  | _ => none

/-- A code point in braces, in as many hexadecimal digits as it needs. -/
def longEscape (c : Char) : List Char :=
  ['\\', 'u', '\x7b'] ++ Nat.toDigits 16 c.toNat ++ ['\x7d']

def quoteChar (c : Char) : List Char :=
  match shortEscape? c with
  | some letter => ['\\', letter]
  | none => if isExtendingMark c || isUnprintable c then longEscape c else [c]

def quote (s : String) : String := .ofList ('"' :: s.toList.flatMap quoteChar ++ ['"'])

end VersionedCatalog.Text
