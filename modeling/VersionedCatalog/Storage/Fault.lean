import VersionedCatalog.Text.Numeral

/-! # Failures of the storage layer

What can go wrong below the catalog, each cause with its text. A missing key is not a failure.
Damage found while a log is replayed carries the offset of the record at fault.
-/

namespace VersionedCatalog.Storage

/-- The calls of a backend that a test of error paths may make fail. -/
inductive Call
  | get
  | scan
  | last
  | write
  | flush
  | maintain
  | close
  deriving DecidableEq

def Call.all : List Call := [.get, .scan, .last, .write, .flush, .maintain, .close]

def Call.name : Call → String
  | .get => "get"
  | .scan => "scan"
  | .last => "last"
  | .write => "write"
  | .flush => "flush"
  | .maintain => "maintain"
  | .close => "close"

def Call.ofName? (name : String) : Option Call := Call.all.find? fun call => call.name = name

inductive Damage
  | magic
  | version (found : Nat)
  | checksum (stored computed : UInt32)
  | shortBody
  | tag (found : UInt8)
  | longBody
  | injected (call : Call)
  | inRecord (offset : Nat) (cause : Damage)
  deriving DecidableEq

def Damage.text : Damage → String
  | .magic => "invalid batch record magic"
  | .version found => s!"unsupported batch record version {Text.decimal found}"
  | .checksum stored computed =>
    let expected := Text.hexadecimal 8 stored.toNat
    let got := Text.hexadecimal 8 computed.toNat
    s!"checksum mismatch: expected {expected}, got {got}"
  | .shortBody => "unexpected end of batch body"
  | .tag found => s!"unknown batch op tag {Text.decimal found.toNat}"
  | .longBody => "trailing bytes in batch body"
  | .injected call => s!"injected {call.name} failure"
  | .inRecord offset cause => s!"record at offset {Text.decimal offset}: {cause.text}"

inductive Fault
  | corrupted (damage : Damage)
  | closed
  | locked (path : String)
  | unknownProvider (name : String)
  | pathMissing
  | notFolder (path : String)
  | oversized (bytes : Nat)
  deriving DecidableEq

namespace Fault

/-- The classes that a caller tells apart. -/
inductive Class
  | corrupted
  | closed
  | locked
  | unknownProvider
  | invalidOptions
  deriving DecidableEq

def Class.name : Class → String
  | .corrupted => "Corrupted"
  | .closed => "Closed"
  | .locked => "Locked"
  | .unknownProvider => "UnknownBackend"
  | .invalidOptions => "InvalidOptions"

def toClass : Fault → Class
  | .corrupted _ => .corrupted
  | .closed => .closed
  | .locked _ => .locked
  | .unknownProvider _ => .unknownProvider
  | .pathMissing | .notFolder _ | .oversized _ => .invalidOptions

def message : Fault → String
  | .corrupted damage => s!"storage corrupted: {damage.text}"
  | .closed => "storage is closed"
  | .locked path => s!"storage locked: another process has exclusive access to {path}"
  | .unknownProvider name => s!"unknown storage backend: {name}"
  | .pathMissing => "invalid storage options: log backend requires a path"
  | .notFolder path => s!"invalid storage options: path is not a directory: {path}"
  | .oversized bytes =>
    s!"invalid storage options: batch element too large: {Text.decimal bytes} bytes"

end Fault

end VersionedCatalog.Storage
