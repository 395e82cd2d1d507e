import VersionedCatalog.Document.Numeral
import VersionedCatalog.Text.Numeral

/-! # JSON

Documents in JavaScript Object Notation. Writing is compact and escapes only what it must. Reading
takes blanks between the tokens and no commas at the end of a list. A quoted text that is well
written but names no text, with half a surrogate pair or ill-formed UTF-8, reads as `garbled`.
-/

namespace VersionedCatalog.Json

def isBlank (b : UInt8) : Bool := b = 0x20 || b = 0x09 || b = 0x0A || b = 0x0D

def skipBlanks (bytes : Bytes) : Bytes := bytes.dropWhile isBlank

def ascii (c : Char) : UInt8 := c.toNat.toUInt8

/-- A part of a quoted text: a byte of its UTF-8, or a UTF-16 unit written as an escape. -/
inductive Piece
  | byte (b : UInt8)
  | unit (n : Nat)
  deriving DecidableEq

def hexDigit? (b : UInt8) : Option Nat :=
  if ascii '0' ≤ b ∧ b ≤ ascii '9' then some (b - ascii '0').toNat
  else if ascii 'a' ≤ b ∧ b ≤ ascii 'f' then some ((b - ascii 'a').toNat + 10)
  else if ascii 'A' ≤ b ∧ b ≤ ascii 'F' then some ((b - ascii 'A').toNat + 10)
  else none

def unit? (a b c d : UInt8) : Option Nat := do
  let a ← hexDigit? a
  let b ← hexDigit? b
  let c ← hexDigit? c
  let d ← hexDigit? d
  return ((a * 16 + b) * 16 + c) * 16 + d

/-- The byte that a letter behind a backslash stands for. -/
def escaped? (letter : UInt8) : Option UInt8 :=
  if letter = ascii '"' ∨ letter = ascii '\\' ∨ letter = ascii '/' then some letter
  else if letter = ascii 'b' then some 0x08
  else if letter = ascii 'f' then some 0x0C
  else if letter = ascii 'n' then some 0x0A
  else if letter = ascii 'r' then some 0x0D
  else if letter = ascii 't' then some 0x09
  else none

/-- The parts of a quoted text up to its closing quote, and what follows the quote. -/
def pieces? : Bytes → Option (List Piece × Bytes)
  | [] => none
  | b :: rest =>
    if b = ascii '"' then some ([], rest)
    else if b < 0x20 then none
    else if b = ascii '\\' then
      match rest with
      | [] => none
      | letter :: rest =>
        if letter = ascii 'u' then
          match rest with
          | h₁ :: h₂ :: h₃ :: h₄ :: rest => do
            let n ← unit? h₁ h₂ h₃ h₄
            let (others, rest) ← pieces? rest
            return (.unit n :: others, rest)
          | _ => none
        else do
          let value ← escaped? letter
          let (others, rest) ← pieces? rest
          return (.byte value :: others, rest)
    else do
      let (others, rest) ← pieces? rest
      return (.byte b :: others, rest)

def isHighSurrogate (n : Nat) : Bool := 0xD800 ≤ n && n < 0xDC00

def isLowSurrogate (n : Nat) : Bool := 0xDC00 ≤ n && n < 0xE000

def encodeChar (code : Nat) : Bytes := Utf8.encode (.singleton (Char.ofNat code))

/-- The bytes of a quoted text, unless a surrogate in it stands alone. -/
def assemble? : List Piece → Option Bytes
  | [] => some []
  | .byte b :: rest => do return b :: (← assemble? rest)
  | .unit high :: .unit low :: rest =>
    if isHighSurrogate high && isLowSurrogate low then do
      let code := 0x10000 + (high - 0xD800) * 0x400 + (low - 0xDC00)
      return encodeChar code ++ (← assemble? rest)
    else if isHighSurrogate high || isLowSurrogate high then none
    else do return encodeChar high ++ (← assemble? (.unit low :: rest))
  | .unit n :: rest =>
    if isHighSurrogate n || isLowSurrogate n then none
    else do return encodeChar n ++ (← assemble? rest)

def quotedText (pieces : List Piece) : Document :=
  match assemble? pieces >>= Utf8.decode? with
  | some value => .ofText value
  | none => .garbled

def digit? (b : UInt8) : Option Nat :=
  if ascii '0' ≤ b ∧ b ≤ ascii '9' then some (b - ascii '0').toNat else none

/-- The digits at the front and what follows the last of them. -/
def digits : Bytes → List Nat × Bytes
  | [] => ([], [])
  | b :: rest =>
    match digit? b with
    | some value =>
      let (others, rest) := digits rest
      (value :: others, rest)
    | none => ([], b :: rest)

def someDigits? (bytes : Bytes) : Option (List Nat × Bytes) :=
  match digits bytes with
  | ([], _) => none
  | found => some found

/-- Whole digits start with a zero only if they are that zero. -/
def whole? (bytes : Bytes) : Option (List Nat × Bytes) := do
  let (found, rest) ← someDigits? bytes
  if found.head? = some 0 ∧ 1 < found.length then none
  return (found, rest)

/-- The rest behind a given byte, if that comes next. -/
def after? (b : UInt8) : Bytes → Option Bytes
  | [] => none
  | first :: rest => if first = b then some rest else none

def fraction? (bytes : Bytes) : Option (Option (List Nat) × Bytes) :=
  match after? (ascii '.') bytes with
  | none => some (none, bytes)
  | some rest => do
    let (found, rest) ← someDigits? rest
    return (some found, rest)

def exponent? (bytes : Bytes) : Option (Option Int × Bytes) :=
  match after? (ascii 'e') bytes <|> after? (ascii 'E') bytes with
  | none => some (none, bytes)
  | some rest => do
    let minus := after? (ascii '-') rest
    let unsigned := (minus <|> after? (ascii '+') rest).getD rest
    let (found, rest) ← someDigits? unsigned
    let magnitude := Int.ofNat (found.foldl (fun value digit => 10 * value + digit) 0)
    return (some (if minus.isSome then -magnitude else magnitude), rest)

def number? (bytes : Bytes) : Option (Document × Bytes) := do
  let minus := after? (ascii '-') bytes
  let (whole, rest) ← whole? (minus.getD bytes)
  let (fraction, rest) ← fraction? rest
  let (exponent, rest) ← exponent? rest
  let numeral : Numeral := ⟨minus.isSome, whole, fraction, exponent⟩
  return (numeral.toDocument, rest)

def word? (word : String) (document : Document) (bytes : Bytes) : Option (Document × Bytes) :=
  let expected := Utf8.encode word
  if expected.isPrefixOf bytes then some (document, bytes.drop expected.length) else none

/-- The items behind an opening bracket or a comma, up to the closing bracket. -/
def items? (value? : Bytes → Option (Document × Bytes)) :
    Nat → Bytes → Option (List Document × Bytes)
  | 0, _ => none
  | steps + 1, bytes => do
    let (item, rest) ← value? bytes
    let rest := skipBlanks rest
    match after? (ascii ']') rest with
    | some rest => return ([item], rest)
    | none => do
      let rest ← after? (ascii ',') rest
      let (others, rest) ← items? value? steps rest
      return (item :: others, rest)

/-- The entries behind an opening brace or a comma, up to the closing brace. -/
def entries? (value? : Bytes → Option (Document × Bytes)) :
    Nat → Bytes → Option (List (Document × Document) × Bytes)
  | 0, _ => none
  | steps + 1, bytes => do
    let rest ← after? (ascii '"') (skipBlanks bytes)
    let (key, rest) ← pieces? rest
    let rest ← after? (ascii ':') (skipBlanks rest)
    let (value, rest) ← value? rest
    let rest := skipBlanks rest
    match after? (ascii '\x7d') rest with
    | some rest => return ([(quotedText key, value)], rest)
    | none => do
      let rest ← after? (ascii ',') rest
      let (others, rest) ← entries? value? steps rest
      return ((quotedText key, value) :: others, rest)

/-- Reads one value. Every value and every level takes a byte at least, so as many steps as there
are bytes suffice. -/
def value? : Nat → Bytes → Option (Document × Bytes)
  | 0, _ => none
  | steps + 1, bytes =>
    match skipBlanks bytes with
    | [] => none
    | first :: rest =>
      if first = ascii '"' then do
        let (pieces, rest) ← pieces? rest
        return (quotedText pieces, rest)
      else if first = ascii '[' then
        match after? (ascii ']') (skipBlanks rest) with
        | some rest => some (.list [], rest)
        | none => do
          let (items, rest) ← items? (value? steps) steps rest
          return (.list items, rest)
      else if first = ascii '\x7b' then
        match after? (ascii '\x7d') (skipBlanks rest) with
        | some rest => some (.dict [], rest)
        | none => do
          let (entries, rest) ← entries? (value? steps) steps rest
          return (.dict entries, rest)
      else if first = ascii 'n' then word? "null" .unit (first :: rest)
      else if first = ascii 't' then word? "true" (.bool true) (first :: rest)
      else if first = ascii 'f' then word? "false" (.bool false) (first :: rest)
      else number? (first :: rest)

/-- The document at the front of a byte string and the bytes behind it. -/
def read? (bytes : Bytes) : Option (Document × Bytes) := value? (bytes.length + 1) bytes

/-- A byte of a text between quotes. Control characters that have no letter are written as units. -/
def escape (b : UInt8) : Bytes :=
  if b = ascii '"' ∨ b = ascii '\\' then [ascii '\\', b]
  else if b = 0x08 then [ascii '\\', ascii 'b']
  else if b = 0x09 then [ascii '\\', ascii 't']
  else if b = 0x0A then [ascii '\\', ascii 'n']
  else if b = 0x0C then [ascii '\\', ascii 'f']
  else if b = 0x0D then [ascii '\\', ascii 'r']
  else if b < 0x20 then Utf8.encode ("\\u" ++ Text.hexadecimal 4 b.toNat)
  else [b]

def writeText (s : String) : Bytes :=
  ascii '"' :: ((Utf8.encode s).flatMap escape ++ [ascii '"'])

def writeKey? : Document → Option Bytes
  | .text value _ => some (writeText value)
  | _ => none

def writeInt (n : Int) : Bytes :=
  Utf8.encode (if n < 0 then "-" ++ Text.decimal n.natAbs else Text.decimal n.natAbs)

/-- The parts with commas between them. -/
def joined (parts : List Bytes) : Bytes := [ascii ','].intercalate parts

mutual

/-- Writes a document, unless a key of it is no text or a part has no spelling. -/
def write? : Document → Option Bytes
  | .unit => some (Utf8.encode "null")
  | .absent => some (Utf8.encode "null")
  | .bool value => some (Utf8.encode (if value then "true" else "false"))
  | .int value => some (writeInt value)
  | .text value _ => some (writeText value)
  | .list items => do
    let parts ← writeItems? items
    return ascii '[' :: (joined parts ++ [ascii ']'])
  | .dict entries => do
    let parts ← writeEntries? entries
    return ascii '\x7b' :: (joined parts ++ [ascii '\x7d'])
  | _ => none

def writeItems? : List Document → Option (List Bytes)
  | [] => some []
  | item :: rest => do
    let first ← write? item
    let others ← writeItems? rest
    return first :: others

def writeEntries? : List (Document × Document) → Option (List Bytes)
  | [] => some []
  | (key, value) :: rest => do
    let first ← writeKey? key
    let second ← write? value
    let others ← writeEntries? rest
    return (first ++ ascii ':' :: second) :: others

end

end VersionedCatalog.Json
