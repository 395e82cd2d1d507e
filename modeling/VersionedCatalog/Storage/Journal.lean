import VersionedCatalog.Storage.Folder
import VersionedCatalog.Storage.Record

/-! # The journal

A journal is a backend that keeps its rows in memory and every batch as one record at the end of
the log file. Opening it replays the log, drops a torn last record and refuses a damaged one.
Compaction writes the present rows as a new log in a file of its own, which then replaces the log,
so a crash at any point leaves one of the two whole. It starts by itself once the log is longer
than a threshold and more than twice as long as the rows need.

Reading, writing and renaming files is assumed to succeed, as for all folders. So a journal fails
only for what it finds or is given: a path that names no folder, a folder that somebody owns, a
damaged log, a batch too large for a record.
-/

namespace VersionedCatalog.Storage

structure Journal where
  path : String
  folder : Folder
  rows : Rows
  length : Nat
  rowCosts : Nat
  threshold : Nat
  closed : Bool
  deriving DecidableEq

namespace Journal

def defaultThreshold : Nat := 4 * 1024 * 1024

/-- Operations in one record of a compacted log. -/
def chunkSize : Nat := 4096

/-- The bytes of a put in a record: its tag, two lengths, the key and the value. -/
def cost (row : Row) : Nat := row.1.length + row.2.length + 9

def totalCost (rows : Rows) : Nat :=
  rows.entries.foldr (fun row total => cost row + total) 0

/-- Opens the folder at a path. The lock file and the log exist afterwards and a leftover of an
unfinished compaction is gone; if the log is damaged nobody owns the folder. -/
def openIn (path : String) (threshold : Nat) (folder : Folder) : Except Fault Journal × Folder :=
  if path.isEmpty then (.error (.notFolder path), folder)
  else
    let folder := folder.touch Folder.lockName
    if folder.owned then (.error (.locked path), folder)
    else
      let folder := (folder.remove Folder.compactName).touch Folder.logName
      let log := folder.bytes Folder.logName
      match replay log with
      | .error fault => (.error fault, folder)
      | .ok replayed =>
        let folder := { folder.write Folder.logName (log.take replayed.length) with owned := true }
        let journal := {
          path, folder, threshold
          rows := replayed.rows
          length := replayed.length
          rowCosts := totalCost replayed.rows
          closed := false }
        (.ok journal, folder)

def chunks (size : Nat) : Nat → List Row → List (List Row)
  | 0, _ => []
  | steps + 1, rows =>
    if rows.isEmpty then [] else rows.take size :: chunks size steps (rows.drop size)

def encodeChunks : List (List Row) → Except Fault Bytes
  | [] => .ok []
  | chunk :: rest => do
    let first ← Record.encode (chunk.map fun row => .put row.1 row.2)
    let others ← encodeChunks rest
    return first ++ others

/-- The log that holds the rows and nothing else. -/
def compactLog (rows : Rows) : Except Fault Bytes :=
  encodeChunks (chunks chunkSize rows.size rows.entries)

def compact (journal : Journal) : Except Fault Journal := do
  let log ← compactLog journal.rows
  let folder := journal.folder.write Folder.compactName log
  return { journal with
    folder := folder.rename Folder.compactName Folder.logName
    length := log.length }

def overgrown (journal : Journal) : Bool :=
  journal.length > journal.threshold && journal.length > 2 * journal.rowCosts

def compactIfOvergrown (journal : Journal) : Except Fault Journal :=
  if journal.overgrown then journal.compact else .ok journal

/-- The rows and their cost after one operation. -/
def applyOp (state : Rows × Nat) (op : Op) : Rows × Nat :=
  let (rows, costs) := state
  let freed := match rows.get? op.key with
    | some value => cost (op.key, value)
    | none => 0
  match op with
  | .put key value => (rows.insert key value, costs - freed + cost (key, value))
  | .delete key => (rows.erase key, costs - freed)

/-- Appends a batch as one record. If the log has then overgrown it is compacted; should that fail,
the log just stays longer than it needs to be. -/
def write (journal : Journal) (batch : Batch) : Except Fault Journal := do
  if batch.isEmpty then return journal
  let record ← Record.encode batch
  let (rows, rowCosts) := batch.foldl applyOp (journal.rows, journal.rowCosts)
  let written := { journal with
    folder := journal.folder.append Folder.logName record
    length := journal.length + record.length
    rows
    rowCosts }
  match written.compactIfOvergrown with
  | .ok compacted => return compacted
  | .error _ => return written

def close (journal : Journal) : Journal :=
  { journal with folder := journal.folder.release, closed := true }

/-- The folder as a crash leaves it: nothing is lost and nobody owns it. -/
def abandon (journal : Journal) : Folder := journal.folder.release

end Journal

end VersionedCatalog.Storage
