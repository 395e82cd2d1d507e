import VersionedCatalog.Bytes
import VersionedCatalog.OrderedMap

/-! # Folders

A folder holds files by name. A log keeps three of them: the lock file, which marks the folder as
a store, the log itself, and the file that compaction fills before it takes the place of the log.
At most one open log owns a folder.

What is done to a file of an owned folder is assumed to succeed: there is no counterpart of a disk
that is full, of a file that may not be read or of any other error of the system. Only a crash cuts
a file short.
-/

namespace VersionedCatalog.Storage

structure Folder where
  files : OrderedMap String Bytes
  owned : Bool
  deriving DecidableEq

namespace Folder

def empty : Folder := ⟨∅, false⟩

def lockName : String := "LOCK"

def logName : String := "kv.log"

def compactName : String := "kv.log.compact"

def names (folder : Folder) : List String := folder.files.keys

def read? (folder : Folder) (name : String) : Option Bytes := folder.files.get? name

/-- The bytes of a file, none if it is missing. -/
def bytes (folder : Folder) (name : String) : Bytes := (folder.read? name).getD []

def write (folder : Folder) (name : String) (bytes : Bytes) : Folder :=
  { folder with files := folder.files.insert name bytes }

def append (folder : Folder) (name : String) (bytes : Bytes) : Folder :=
  folder.write name (folder.bytes name ++ bytes)

/-- Makes sure that a file exists and keeps what it holds. -/
def touch (folder : Folder) (name : String) : Folder := folder.append name []

def remove (folder : Folder) (name : String) : Folder :=
  { folder with files := folder.files.erase name }

/-- Moves a file over another one. -/
def rename (folder : Folder) (source target : String) : Folder :=
  (folder.remove source).write target (folder.bytes source)

/-- The file without its last `n` bytes. -/
def cut (folder : Folder) (name : String) (n : Nat) : Folder :=
  let kept := folder.bytes name
  folder.write name (kept.take (kept.length - n))

/-- The file with the bits of a mask flipped in the byte at an offset. -/
def flip (folder : Folder) (name : String) (offset : Nat) (mask : UInt8) : Folder :=
  folder.write name ((folder.bytes name).modify offset (· ^^^ mask))

def release (folder : Folder) : Folder := { folder with owned := false }

end Folder

end VersionedCatalog.Storage
