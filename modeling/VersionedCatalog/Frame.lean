import VersionedCatalog.Document.Cbor
import VersionedCatalog.Document.Json
import VersionedCatalog.Document.Reading
import VersionedCatalog.Text.Blank

/-! # Frames

A payload is stored as a frame:

    magic (2)  version (1)  format (1)  body

The body is one document in the format that the header names, so payloads of both formats may lie
side by side. Nothing may follow the document but, in JSON, blanks.
-/

namespace VersionedCatalog

inductive Format
  | cbor
  | json
  deriving DecidableEq

inductive FrameError
  | encoding
  | decoding
  | short (length : Nat)
  | magic
  | version (found : UInt8)
  | format (code : UInt8)
  | formatName (name : String)
  | trailing (count : Nat)
  deriving DecidableEq

def FrameError.className : FrameError → String
  | .encoding => "EncodingFailed"
  | .decoding => "DecodingFailed"
  | .short _ => "InvalidFrame"
  | .magic => "InvalidFrame"
  | .version _ => "UnsupportedVersion"
  | .format _ => "UnsupportedFormat"
  | .formatName _ => "UnknownFormatName"
  | .trailing _ => "TrailingBytes"

def FrameError.message : FrameError → String
  | .encoding => "encoding failed"
  | .decoding => "decoding failed"
  | .short length => s!"invalid frame: frame too short: {Text.decimal length} bytes"
  | .magic => "invalid frame: bad magic"
  | .version found => s!"unsupported frame version {Text.decimal found.toNat}"
  | .format code => s!"unsupported payload format {Text.decimal code.toNat}"
  | .formatName name => s!"unknown payload format name '{name}'"
  | .trailing count => s!"{Text.decimal count} trailing bytes after payload"

namespace Format

def code : Format → UInt8
  | .cbor => 1
  | .json => 2

def name : Format → String
  | .cbor => "cbor"
  | .json => "json"

def ofCode (code : UInt8) : Except FrameError Format :=
  if code = Format.cbor.code then .ok .cbor
  else if code = Format.json.code then .ok .json
  else .error (.format code)

/-- Reads a name in any case and with blanks around it. -/
def ofName (text : String) : Except FrameError Format :=
  let lowered := (Text.trim text).map Char.toLower
  if lowered = Format.cbor.name then .ok .cbor
  else if lowered = Format.json.name then .ok .json
  else .error (.formatName text)

def source : Format → Source
  | .cbor => .cbor
  | .json => .json

def write? : Format → Document → Option Bytes
  | .cbor => Cbor.write?
  | .json => Json.write?

def read? : Format → Bytes → Option (Document × Bytes)
  | .cbor => Cbor.read?
  | .json => Json.read?

end Format

namespace Frame

def magic : Bytes := [0x4C, 0x4D]

def version : UInt8 := 1

def header (format : Format) : Bytes := magic ++ [version, format.code]

def encode (format : Format) (document : Document) : Except FrameError Bytes :=
  match format.write? document with
  | some body => .ok (header format ++ body)
  | none => .error .encoding

/-- The format that a header names and the body behind the header. -/
def split (frame : Bytes) : Except FrameError (Format × Bytes) :=
  match frame with
  | first :: second :: found :: code :: body =>
    if [first, second] ≠ magic then .error .magic
    else if found ≠ version then .error (.version found)
    else do return (← Format.ofCode code, body)
  | short => .error (.short short.length)

def peek (frame : Bytes) : Except FrameError Format := do return (← split frame).1

/-- The bytes that may stand behind a JSON number or word that has come to its end. -/
def endsWord (rest : Bytes) : Bool :=
  match rest with
  | [] => true
  | next :: _ =>
    Json.isBlank next || [34, 44, 58, 91, 93, 123, 125].contains next

/-- Whether a JSON document closes with a mark of its own. -/
def isDelimited (body : Bytes) : Bool :=
  match Json.skipBlanks body with
  | first :: _ => [34, 91, 123].contains first
  | [] => false

/-- How many bytes are reported behind a document. Behind a JSON document they are counted only if
it holds plain values, is not nested too deeply and clearly ends where they begin. -/
def countTrailing (format : Format) (document : Document) (body rest : Bytes) : Nat :=
  match format with
  | .cbor => rest.length
  | .json =>
    let counted := document.isPlain && document.height ≤ Source.json.room
      && (isDelimited body || endsWord rest)
    if counted then rest.length else 0

def isTrailing : Format → Bytes → Bool
  | .cbor, rest => !rest.isEmpty
  | .json, rest => !rest.all Json.isBlank

def decode (read? : Source → Document → Option α) (frame : Bytes) : Except FrameError α := do
  let (format, body) ← split frame
  match format.read? body with
  | none => .error .decoding
  | some (document, rest) =>
    match read? format.source document with
    | none => .error .decoding
    | some value =>
      if isTrailing format rest then .error (.trailing (countTrailing format document body rest))
      else .ok value

end Frame

end VersionedCatalog
