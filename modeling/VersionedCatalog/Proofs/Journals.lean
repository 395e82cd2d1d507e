import VersionedCatalog.Proofs.LogRecords
import VersionedCatalog.Storage.Journal

/-! # Journals keep their rows

The log of a journal holds records of batches that make its rows (`Journal.IsFaithful`). Writing,
compacting and opening keep this, and opening gives the rows back that the log stands for, also
when the last record was cut by a crash (`Journal.openIn_eq`).
-/

namespace VersionedCatalog.Storage

namespace Folder

theorem read?_write (folder : Folder) (name other : String) (bytes : Bytes) :
    (folder.write name bytes).read? other =
      if other = name then some bytes else folder.read? other :=
  OrderedMap.get?_insert folder.files name other bytes

theorem read?_remove (folder : Folder) (name other : String) :
    (folder.remove name).read? other = if other = name then none else folder.read? other :=
  OrderedMap.get?_erase folder.files name other

theorem bytes_write (folder : Folder) (name other : String) (bytes : Bytes) :
    (folder.write name bytes).bytes other = if other = name then bytes else folder.bytes other := by
  rw [Folder.bytes, read?_write]
  split <;> rfl

theorem bytes_append (folder : Folder) (name other : String) (bytes : Bytes) :
    (folder.append name bytes).bytes other =
      if other = name then folder.bytes name ++ bytes else folder.bytes other := bytes_write _ _ _ _

theorem bytes_touch (folder : Folder) (name other : String) :
    (folder.touch name).bytes other = folder.bytes other := by
  rw [touch, bytes_append, List.append_nil]
  split
  next hEq => rw [hEq]
  next => rfl

theorem bytes_remove_of_ne (folder : Folder) {name other : String} (hNe : other ≠ name) :
    (folder.remove name).bytes other = folder.bytes other := by
  rw [Folder.bytes, read?_remove, if_neg hNe]
  rfl

theorem logName_ne_compactName : logName ≠ compactName := by decide

end Folder

namespace Rows

/-- Putting the rows themselves gives the rows. -/
theorem apply_puts (rows : Rows) :
    (∅ : Rows).apply (rows.entries.map fun row => .put row.1 row.2) = rows := by
  have hFold : ∀ (l : List Row) (m : Rows), m.apply (l.map fun row => .put row.1 row.2) =
      l.foldl (fun m row => m.insert row.1 row.2) m := by
    intro l m
    rw [apply, List.foldl_map]
    rfl
  rw [hFold]
  exact OrderedMap.ofList_entries rows

end Rows

namespace Journal

/-- The log holds records of batches that make the rows, and nothing else. -/
structure IsFaithful (journal : Journal) : Prop where
  records : ∃ batches, Records batches (journal.folder.bytes Folder.logName) ∧
    journal.rows = (∅ : Rows).applyAll batches
  path : journal.path.isEmpty = false

theorem foldl_applyOp (batch : Batch) (state : Rows × Nat) :
    (batch.foldl applyOp state).1 = state.1.apply batch := by
  induction batch generalizing state with
  | nil => rfl
  | cons op rest ih =>
    rw [List.foldl_cons, ih]
    cases op <;> rfl

/-! ### Compaction -/

theorem flatten_chunks {size : Nat} (hSize : 0 < size) (rows : List Row) {steps : Nat}
    (hSteps : rows.length ≤ steps) : (chunks size steps rows).flatten = rows := by
  induction steps generalizing rows with
  | zero => rw [List.length_eq_zero_iff.mp (Nat.le_zero.mp hSteps)]; rfl
  | succ steps ih =>
    cases rows with
    | nil => rfl
    | cons row rest =>
      have hRest : ((row :: rest).drop size).length ≤ steps := by
        rw [List.length_drop, List.length_cons]
        rw [List.length_cons] at hSteps
        omega
      rw [chunks, if_neg (by simp), List.flatten_cons, ih _ hRest, List.take_append_drop]

theorem records_encodeChunks {chunks : List (List Row)} {log : Bytes}
    (hOk : encodeChunks chunks = .ok log) :
    ∃ batches, Records batches log ∧
      batches = chunks.map fun chunk => chunk.map fun row => .put row.1 row.2 := by
  induction chunks generalizing log with
  | nil => cases hOk; exact ⟨[], .none, rfl⟩
  | cons chunk rest ih =>
    obtain ⟨first, hFirst, hRest⟩ := Outcome.bind_eq_ok hOk
    obtain ⟨others, hOthers, hLast⟩ := Outcome.bind_eq_ok hRest
    cases hLast
    obtain ⟨batches, hRecords, rfl⟩ := ih hOthers
    exact ⟨_, Records.cons hFirst hRecords, rfl⟩

theorem applyAll_eq_flatten (rows : Rows) (batches : List Batch) :
    rows.applyAll batches = rows.apply batches.flatten := by
  induction batches generalizing rows with
  | nil => rfl
  | cons batch rest ih =>
    rw [List.flatten_cons, Rows.apply_append, ← ih]
    rfl

/-- The compacted log stands for the rows it was made of. -/
theorem records_compactLog {rows : Rows} {log : Bytes} (hOk : compactLog rows = .ok log) :
    ∃ batches, Records batches log ∧ rows = (∅ : Rows).applyAll batches := by
  obtain ⟨batches, hRecords, rfl⟩ := records_encodeChunks hOk
  refine ⟨_, hRecords, ?_⟩
  have hAll : (chunks chunkSize rows.size rows.entries).flatten = rows.entries :=
    flatten_chunks (by decide) rows.entries (Nat.le_refl _)
  rw [applyAll_eq_flatten, ← List.map_flatten, hAll, Rows.apply_puts]

/-- What two journals have in common when only their logs differ. -/
structure SameButLog (before after : Journal) : Prop where
  rows : after.rows = before.rows
  path : after.path = before.path
  closed : after.closed = before.closed

theorem compact_eq_ok {journal compacted : Journal} (hOk : journal.compact = .ok compacted) :
    SameButLog journal compacted ∧ (journal.IsFaithful → compacted.IsFaithful) := by
  obtain ⟨log, hLog, hRest⟩ := Outcome.bind_eq_ok hOk
  cases hRest
  refine ⟨⟨rfl, rfl, rfl⟩, fun hFaithful => ⟨?_, hFaithful.path⟩⟩
  have hBytes : ((journal.folder.write Folder.compactName log).rename Folder.compactName
      Folder.logName).bytes Folder.logName = log := by
    rw [Folder.rename, Folder.bytes_write, if_pos rfl, Folder.bytes_write, if_pos rfl]
  obtain ⟨batches, hRecords, hRows⟩ := records_compactLog hLog
  exact ⟨batches, by rwa [hBytes], hRows⟩

/-- Rows of which every chunk fits into a record have a compacted log. -/
theorem exists_encodeChunks {chunks : List (List Row)}
    (hFits : ∀ chunk ∈ chunks, Record.Fits (chunk.map fun row => .put row.1 row.2)) :
    ∃ log, encodeChunks chunks = .ok log := by
  induction chunks with
  | nil => exact ⟨[], rfl⟩
  | cons chunk rest ih =>
    obtain ⟨hFirst, hRest⟩ := List.forall_mem_cons.mp hFits
    obtain ⟨first, hRecord⟩ := Record.exists_encode hFirst
    obtain ⟨others, hOthers⟩ := ih hRest
    exact ⟨first ++ others, by rw [encodeChunks, hRecord, hOthers]; rfl⟩

theorem exists_compactIfOvergrown {journal : Journal}
    (hFits : ∀ chunk ∈ chunks chunkSize journal.rows.size journal.rows.entries,
      Record.Fits (chunk.map fun row => .put row.1 row.2)) :
    ∃ compacted, journal.compactIfOvergrown = .ok compacted := by
  obtain ⟨log, hLog⟩ := exists_encodeChunks hFits
  have hCompacted : compactLog journal.rows = .ok log := hLog
  unfold compactIfOvergrown
  split
  next => exact ⟨_, by rw [compact, hCompacted]; rfl⟩
  next => exact ⟨journal, rfl⟩

theorem compactIfOvergrown_eq_ok {journal compacted : Journal}
    (hOk : journal.compactIfOvergrown = .ok compacted) :
    SameButLog journal compacted ∧ (journal.IsFaithful → compacted.IsFaithful) := by
  unfold compactIfOvergrown at hOk
  split at hOk
  next => exact compact_eq_ok hOk
  next => cases hOk; exact ⟨⟨rfl, rfl, rfl⟩, id⟩

/-! ### Writing and opening -/

/-- A journal with one more record in its log. -/
def appended (journal : Journal) (batch : Batch) (record : Bytes) : Journal :=
  let state := batch.foldl applyOp (journal.rows, journal.rowCosts)
  { journal with
    folder := journal.folder.append Folder.logName record
    length := journal.length + record.length
    rows := state.1
    rowCosts := state.2 }

theorem rows_appended (journal : Journal) (batch : Batch) (record : Bytes) :
    (journal.appended batch record).rows = journal.rows.apply batch := foldl_applyOp batch _

theorem isFaithful_appended {journal : Journal} (hFaithful : journal.IsFaithful) {batch : Batch}
    {record : Bytes} (hRecord : Record.encode batch = .ok record) :
    (journal.appended batch record).IsFaithful := by
  obtain ⟨⟨batches, hRecords, hMade⟩, hPath⟩ := hFaithful
  refine ⟨⟨batches ++ [batch], ?_, ?_⟩, hPath⟩
  · have hBytes : (journal.appended batch record).folder.bytes Folder.logName =
        journal.folder.bytes Folder.logName ++ record :=
      (Folder.bytes_append _ _ _ _).trans (if_pos rfl)
    rw [hBytes]
    exact hRecords.more hRecord
  · rw [rows_appended, hMade, Rows.applyAll_append]
    rfl

/-- A batch that is written is appended as one record; compaction may follow. -/
theorem write_eq_appended {journal written : Journal} {batch : Batch}
    (hOk : journal.write batch = .ok written) (hSome : batch ≠ []) :
    ∃ record, Record.encode batch = .ok record ∧
      (written = journal.appended batch record ∨
        (journal.appended batch record).compactIfOvergrown = .ok written) := by
  have hFull : batch.isEmpty = false := by
    cases batch with
    | nil => exact absurd rfl hSome
    | cons op rest => rfl
  simp only [write, hFull, Bool.false_eq_true, if_false] at hOk
  obtain ⟨record, hRecord, hRest⟩ := Outcome.bind_eq_ok hOk
  refine ⟨record, hRecord, ?_⟩
  split at hRest
  next compacted hCompact =>
    cases hRest
    exact Or.inr hCompact
  next => exact Or.inl (Except.ok.inj hRest).symm

theorem write_eq_ok {journal written : Journal} {batch : Batch}
    (hOk : journal.write batch = .ok written) :
    written.rows = journal.rows.apply batch ∧ written.path = journal.path ∧
      written.closed = journal.closed ∧ (journal.IsFaithful → written.IsFaithful) := by
  by_cases hEmpty : batch = []
  · subst hEmpty
    cases hOk
    exact ⟨rfl, rfl, rfl, id⟩
  · obtain ⟨record, hRecord, rfl | hCompact⟩ := write_eq_appended hOk hEmpty
    · exact ⟨rows_appended journal batch record, rfl, rfl,
        fun hBefore => isFaithful_appended hBefore hRecord⟩
    · obtain ⟨hSame, hKeep⟩ := compactIfOvergrown_eq_ok hCompact
      exact ⟨hSame.rows.trans (rows_appended journal batch record), hSame.path, hSame.closed,
        fun hBefore => hKeep (isFaithful_appended hBefore hRecord)⟩

/-- A batch that fits into a record is taken. -/
theorem exists_write (journal : Journal) {batch : Batch} (hFits : Record.Fits batch) :
    ∃ written, journal.write batch = .ok written := by
  obtain ⟨record, hRecord⟩ := Record.exists_encode hFits
  unfold write
  split
  next => exact ⟨journal, rfl⟩
  next =>
    rw [hRecord, Outcome.ok_bind]
    simp only
    split <;> exact ⟨_, rfl⟩

theorem isFaithful_close {journal : Journal} (hFaithful : journal.IsFaithful) :
    journal.close.IsFaithful := ⟨hFaithful.records, hFaithful.path⟩

/-- A folder whose log is about to be read. -/
def readied (folder : Folder) : Folder :=
  ((folder.touch Folder.lockName).remove Folder.compactName).touch Folder.logName

theorem bytes_readied (folder : Folder) :
    (readied folder).bytes Folder.logName = folder.bytes Folder.logName := by
  rw [readied, Folder.bytes_touch, Folder.bytes_remove_of_ne _ Folder.logName_ne_compactName,
    Folder.bytes_touch]

theorem read?_compact_readied (folder : Folder) :
    (readied folder).read? Folder.compactName = none := by
  rw [readied, Folder.touch, Folder.append, Folder.read?_write,
    if_neg Folder.logName_ne_compactName.symm, Folder.read?_remove, if_pos rfl]

/-- A journal whose log was replayed. -/
def replayedIn (path : String) (threshold : Nat) (folder : Folder) (replayed : Replayed) :
    Journal where
  path := path
  folder := { (readied folder).write Folder.logName
    ((folder.bytes Folder.logName).take replayed.length) with owned := true }
  rows := replayed.rows
  length := replayed.length
  rowCosts := totalCost replayed.rows
  threshold := threshold
  closed := false

/-- Opening a folder that nobody owns comes down to replaying its log. -/
theorem openIn_of_free {path : String} (hPath : path.isEmpty = false) (threshold : Nat)
    {folder : Folder} (hFree : folder.owned = false) : openIn path threshold folder =
      match replay (folder.bytes Folder.logName) with
      | .error fault => (.error fault, readied folder)
      | .ok replayed => (.ok (replayedIn path threshold folder replayed),
          (replayedIn path threshold folder replayed).folder) := by
  have hOwned : (folder.touch Folder.lockName).owned = false := hFree
  have hBytes := bytes_readied folder
  rw [readied] at hBytes
  simp only [openIn, hPath, hOwned, hBytes, Bool.false_eq_true, if_false]
  rfl

/-- A journal that was opened, and the folder that is left: its log holds what was replayed and
nothing else, and nothing is left of an unfinished compaction. -/
structure IsOpened (path : String) (rows : Rows) (log : Bytes) (journal : Journal)
    (left : Folder) : Prop where
  rows : journal.rows = rows
  path : journal.path = path
  isOpen : journal.closed = false
  faithful : journal.IsFaithful
  folder : journal.folder = left
  log : left.bytes Folder.logName = log
  clean : left.read? Folder.compactName = none

/-- A folder that nobody owns is opened to the rows that the complete records of its log make. -/
theorem openIn_eq {path : String} (hPath : path.isEmpty = false) (threshold : Nat)
    {folder : Folder} (hFree : folder.owned = false) {batches : List Batch} {log : Bytes}
    (hLog : Records batches log) {rows : Rows} (hRows : rows = (∅ : Rows).applyAll batches)
    (hReplay : replay (folder.bytes Folder.logName) = .ok ⟨rows, log.length⟩)
    (hFront : (folder.bytes Folder.logName).take log.length = log) :
    ∃ journal left, openIn path threshold folder = (.ok journal, left) ∧
      IsOpened path rows log journal left := by
  rw [openIn_of_free hPath threshold hFree, hReplay]
  have hKept : (replayedIn path threshold folder ⟨rows, log.length⟩).folder.bytes Folder.logName =
      log := (Folder.bytes_write _ _ _ _).trans ((if_pos rfl).trans hFront)
  have hClean : (replayedIn path threshold folder ⟨rows, log.length⟩).folder.read?
      Folder.compactName = none := by
    refine (Folder.read?_write _ _ _ _).trans ?_
    rw [if_neg Folder.logName_ne_compactName.symm, read?_compact_readied]
  exact ⟨_, _, rfl, rfl, rfl, rfl, ⟨⟨batches, hKept.symm ▸ hLog, hRows⟩, hPath⟩, rfl, hKept, hClean⟩

/-- An empty folder is opened to a journal without rows. -/
theorem openIn_empty {path : String} (hPath : path.isEmpty = false) (threshold : Nat) :
    ∃ journal left, openIn path threshold .empty = (.ok journal, left) ∧
      IsOpened path ∅ [] journal left :=
  openIn_eq hPath threshold rfl Records.none rfl rfl rfl

section
variable {journal : Journal} (hFaithful : journal.IsFaithful) {path : String}
  (hPath : path.isEmpty = false) (threshold : Nat)
include hFaithful hPath

/-- A folder that holds the log of a journal is opened to the rows of the journal. -/
theorem openIn_log {folder : Folder} (hFree : folder.owned = false)
    (hSame : folder.bytes Folder.logName = journal.folder.bytes Folder.logName) :
    ∃ opened left, openIn path threshold folder = (.ok opened, left) ∧
      IsOpened path journal.rows (journal.folder.bytes Folder.logName) opened left := by
  obtain ⟨batches, hRecords, hRows⟩ := hFaithful.records
  refine openIn_eq hPath threshold hFree hRecords hRows ?_ (by rw [hSame, List.take_length])
  rw [hSame, hRows]
  exact hRecords.replay_eq

section
variable {batch : Batch} {record : Bytes} (hRecord : Record.encode batch = .ok record)
include hRecord

/-- Behind the log a record that is not there as a whole is dropped. -/
theorem openIn_cut {k : Nat} (hCut : k < record.length) {folder : Folder}
    (hFree : folder.owned = false)
    (hSame : folder.bytes Folder.logName =
      journal.folder.bytes Folder.logName ++ record.take k) :
    ∃ opened left, openIn path threshold folder = (.ok opened, left) ∧
      IsOpened path journal.rows (journal.folder.bytes Folder.logName) opened left := by
  obtain ⟨batches, hRecords, hRows⟩ := hFaithful.records
  refine openIn_eq hPath threshold hFree hRecords hRows ?_ (by rw [hSame, List.take_left])
  rw [hSame, hRows]
  exact hRecords.replay_append hRecord hCut

/-- Behind the log a record that is there as a whole is part of it. -/
theorem openIn_whole {folder : Folder} (hFree : folder.owned = false)
    (hSame : folder.bytes Folder.logName = journal.folder.bytes Folder.logName ++ record) :
    ∃ opened left, openIn path threshold folder = (.ok opened, left) ∧
      IsOpened path (journal.rows.apply batch) (journal.folder.bytes Folder.logName ++ record)
        opened left := by
  obtain ⟨batches, hRecords, hRows⟩ := hFaithful.records
  have hMore : journal.rows.apply batch = (∅ : Rows).applyAll (batches ++ [batch]) := by
    rw [Rows.applyAll_append, ← hRows]
    rfl
  refine openIn_eq hPath threshold hFree (hRecords.more hRecord) hMore ?_
    (by rw [hSame, List.take_length])
  rw [hSame, hMore]
  exact (hRecords.more hRecord).replay_eq

end

end

end Journal

end VersionedCatalog.Storage
