/-! # Blank text

A character is blank when it has the property White_Space of the Unicode character database.
Settings and names of formats are read without the blanks around them, and a location that holds
nothing but blanks counts as missing.
-/

namespace VersionedCatalog.Text

/-- First and last code point of every range of the property White_Space. -/
def blankRanges : List (Nat × Nat) :=
  [(0x0009, 0x000D), (0x0020, 0x0020), (0x0085, 0x0085), (0x00A0, 0x00A0), (0x1680, 0x1680),
    (0x2000, 0x200A), (0x2028, 0x2029), (0x202F, 0x202F), (0x205F, 0x205F), (0x3000, 0x3000)]

def isBlankChar (c : Char) : Bool :=
  blankRanges.any fun bounds => bounds.1 ≤ c.toNat && c.toNat ≤ bounds.2

def dropEnd (p : Char → Bool) (cs : List Char) : List Char :=
  (cs.reverse.dropWhile p).reverse

/-- The text without the blanks at its two ends. -/
def trim (s : String) : String :=
  .ofList (dropEnd isBlankChar (s.toList.dropWhile isBlankChar))

def isBlank (s : String) : Bool := s.toList.all isBlankChar

end VersionedCatalog.Text
