import VersionedCatalog.Proofs.ExactRecords
import VersionedCatalog.Proofs.Recovery
import VersionedCatalog.Storage.Backend

/-! # The sizes of a log

A journal keeps count of the bytes of its log and of the bytes that its rows need in one. Both
counts are exact wherever a journal comes from and whatever happens to it
(`Journal.Used.isTallied`): an operation takes off what the row cost that it replaces and adds what
its own costs (`Journal.applyOp_tallied`). So a journal is compacted just when its log has
overgrown, and the log is then as long as the rows need and what is around the records
(`Journal.length_compactLog`).
-/

namespace VersionedCatalog

namespace Storage

/-! ### The length of a record -/

theorem Record.length_of_encode {batch : Batch} {record : Bytes} (hOk : encode batch = .ok record) :
    record.length = opsSize batch + 18 := by
  obtain ⟨body, _, hBody, rfl⟩ := exists_of_encode hOk
  obtain ⟨ops, hOps, _, rfl⟩ := decodeBody_eq_ok hBody
  rw [length_withChecksum, List.length_append, length_head, List.length_append, length_word,
    length_of_encodeOps hOps, headerSize]
  omega

theorem Replayed.length_le_of_run {steps : Nat} {done replayed : Replayed} {bytes : Bytes}
    (hRun : run steps done bytes = .ok replayed) :
    replayed.length ≤ done.length + bytes.length := by
  induction steps generalizing done bytes with
  | zero => cases hRun; exact Nat.le_add_right _ _
  | succ steps ih =>
    rw [run] at hRun
    split at hRun
    next => cases hRun; exact Nat.le_add_right _ _
    next =>
      split at hRun
      next => cases hRun
      next => cases hRun; exact Nat.le_add_right _ _
      next batch size hDecode =>
        have hInside := (Record.encode_of_decode hDecode).1
        have hRest := ih hRun
        rw [List.length_drop] at hRest
        simp only at hRest
        omega

namespace Journal

/-! ### What rows cost -/

theorem totalCost_eq_sum (rows : Rows) : totalCost rows = (rows.entries.map cost).sum := by
  rw [totalCost, List.sum, List.foldr_map]

theorem totalCost_insert (rows : Rows) (key value : Bytes) :
    totalCost (rows.insert key value) = cost (key, value) + totalCost (rows.erase key) := by
  rw [totalCost_eq_sum, totalCost_eq_sum,
    ((OrderedMap.perm_insert rows key value).map cost).sum_nat, List.map_cons, List.sum_cons]

theorem totalCost_of_get? {rows : Rows} {key value : Bytes} (hFound : rows.get? key = some value) :
    totalCost rows = cost (key, value) + totalCost (rows.erase key) := by
  have hInsert := totalCost_insert rows key value
  rwa [OrderedMap.insert_of_get? hFound] at hInsert

/-- An exact count stays exact: it is not cut off where the cost of a row is taken from it. -/
theorem applyOp_tallied (rows : Rows) (op : Op) :
    applyOp (rows, totalCost rows) op = (rows.applyOp op, totalCost (rows.applyOp op)) := by
  cases op with
  | put key value =>
    simp only [applyOp, Op.key, Rows.applyOp, totalCost_insert]
    cases hFound : rows.get? key with
    | none => rw [OrderedMap.erase_of_get? hFound, Nat.sub_zero, Nat.add_comm]
    | some old => rw [totalCost_of_get? hFound, Nat.add_sub_cancel_left, Nat.add_comm]
  | delete key =>
    simp only [applyOp, Op.key, Rows.applyOp]
    cases hFound : rows.get? key with
    | none => rw [OrderedMap.erase_of_get? hFound, Nat.sub_zero]
    | some old => rw [totalCost_of_get? hFound, Nat.add_sub_cancel_left]

theorem foldl_applyOp_tallied (rows : Rows) (batch : Batch) :
    batch.foldl applyOp (rows, totalCost rows) =
      (rows.apply batch, totalCost (rows.apply batch)) := by
  induction batch generalizing rows with
  | nil => rfl
  | cons op rest ih =>
    rw [List.foldl_cons, applyOp_tallied, ih]
    rfl

/-! ### Compacted logs -/

theorem opsSize_puts (rows : List Row) :
    Record.opsSize (rows.map fun row => .put row.1 row.2) = (rows.map cost).sum := by
  rw [Record.opsSize, List.map_map]
  refine congrArg List.sum (List.map_congr_left fun row _ => ?_)
  simp only [Function.comp, Record.opSize, cost]
  omega

theorem length_encodeChunks {chunks : List (List Row)} {log : Bytes}
    (hOk : encodeChunks chunks = .ok log) :
    log.length = (chunks.flatten.map cost).sum + 18 * chunks.length := by
  induction chunks generalizing log with
  | nil => cases hOk; rfl
  | cons chunk rest ih =>
    obtain ⟨first, hFirst, hRest⟩ := Outcome.bind_eq_ok hOk
    obtain ⟨others, hOthers, hLast⟩ := Outcome.bind_eq_ok hRest
    cases hLast
    rw [List.length_append, Record.length_of_encode hFirst, opsSize_puts, ih hOthers,
      List.flatten_cons, List.map_append, List.sum_append, List.length_cons]
    omega

theorem length_chunks {rows : List Row} {steps : Nat} (hSteps : rows.length ≤ steps) :
    (chunks chunkSize steps rows).length = (rows.length + 4095) / 4096 := by
  induction steps generalizing rows with
  | zero => rw [Nat.le_zero.mp hSteps]; rfl
  | succ steps ih =>
    cases rows with
    | nil => rfl
    | cons row rest =>
      have hDrop : ((row :: rest).drop chunkSize).length = rest.length + 1 - 4096 :=
        List.length_drop
      rw [List.length_cons] at hSteps
      rw [chunks, if_neg (by simp), List.length_cons, ih (by omega), hDrop, List.length_cons]
      omega

theorem length_compactLog {rows : Rows} {log : Bytes} (hOk : compactLog rows = .ok log) :
    log.length = totalCost rows + 18 * ((rows.size + 4095) / 4096) := by
  have hFlat : (chunks chunkSize rows.size rows.entries).flatten = rows.entries :=
    flatten_chunks (by decide) rows.entries (Nat.le_refl _)
  have hCount : (chunks chunkSize rows.size rows.entries).length = (rows.size + 4095) / 4096 :=
    length_chunks (Nat.le_refl _)
  rw [length_encodeChunks hOk, hFlat, hCount, totalCost_eq_sum]

/-! ### Counting -/

/-- Both counts of a journal are exact. -/
structure IsTallied (journal : Journal) : Prop where
  rowCosts : journal.rowCosts = totalCost journal.rows
  length : journal.length = (journal.folder.bytes Folder.logName).length

/-- Where a journal may come from and what may happen to it: it is opened from any folder that can
be opened, takes batches, is compacted and closed. -/
inductive Used : Journal → Prop
  | opened {path : String} {threshold : Nat} {folder left : Folder} {journal : Journal}
      (opened : openIn path threshold folder = (.ok journal, left)) : Used journal
  | write {journal written : Journal} {batch : Batch} (before : Used journal)
      (taken : journal.write batch = .ok written) : Used written
  | compact {journal compacted : Journal} (before : Used journal)
      (done : journal.compact = .ok compacted) : Used compacted
  | maintain {journal maintained : Journal} (before : Used journal)
      (done : journal.compactIfOvergrown = .ok maintained) : Used maintained
  | close {journal : Journal} (before : Used journal) : Used journal.close

/-- Compacts a journal; one whose rows do not fit into records stays as it is. -/
def compacted (journal : Journal) : Journal :=
  match journal.compact with
  | .ok compacted => compacted
  | .error _ => journal

theorem isTallied_of_openIn {path : String} {threshold : Nat} {folder left : Folder}
    {journal : Journal} (hOpen : openIn path threshold folder = (.ok journal, left)) :
    journal.IsTallied := by
  have hPath := path_of_openIn hOpen
  have hFree : folder.owned = false := by
    cases hOwned : folder.owned with
    | false => rfl
    | true =>
      have hStill : (folder.touch Folder.lockName).owned = true := hOwned
      simp only [openIn, hPath, hStill, Bool.false_eq_true, if_false, if_true] at hOpen
      cases hOpen
  rw [openIn_of_free hPath threshold hFree] at hOpen
  split at hOpen
  next => cases hOpen
  next replayed hReplay =>
    cases hOpen
    refine ⟨rfl, ?_⟩
    have hInside := Replayed.length_le_of_run hReplay
    have hKept : (replayedIn path threshold folder replayed).folder.bytes Folder.logName =
        (folder.bytes Folder.logName).take replayed.length :=
      (Folder.bytes_write _ _ _ _).trans (if_pos rfl)
    rw [hKept, List.length_take, Nat.min_eq_left (by simpa using hInside)]
    rfl

theorem IsTallied.appended {journal : Journal} (hTallied : journal.IsTallied) (batch : Batch)
    (record : Bytes) : (journal.appended batch record).IsTallied where
  rowCosts := by
    rw [Journal.appended, hTallied.rowCosts, foldl_applyOp_tallied]
  length := by
    have hBytes : (journal.appended batch record).folder.bytes Folder.logName =
        journal.folder.bytes Folder.logName ++ record :=
      (Folder.bytes_append _ _ _ _).trans (if_pos rfl)
    rw [hBytes, List.length_append, ← hTallied.length]
    rfl

theorem IsTallied.compact {journal compacted : Journal} (hTallied : journal.IsTallied)
    (hOk : journal.compact = .ok compacted) : compacted.IsTallied := by
  obtain ⟨log, _, hLast⟩ := Outcome.bind_eq_ok hOk
  cases hLast
  refine ⟨hTallied.rowCosts, ?_⟩
  rw [Folder.rename, Folder.bytes_write, if_pos rfl, Folder.bytes_write, if_pos rfl]

theorem IsTallied.compactIfOvergrown {journal compacted : Journal} (hTallied : journal.IsTallied)
    (hOk : journal.compactIfOvergrown = .ok compacted) : compacted.IsTallied := by
  unfold Journal.compactIfOvergrown at hOk
  split at hOk
  next => exact hTallied.compact hOk
  next => cases hOk; exact hTallied

theorem IsTallied.write {journal written : Journal} {batch : Batch} (hTallied : journal.IsTallied)
    (hOk : journal.write batch = .ok written) : written.IsTallied := by
  by_cases hEmpty : batch = []
  · subst hEmpty
    cases hOk
    exact hTallied
  · obtain ⟨record, _, rfl | hCompact⟩ := write_eq_appended hOk hEmpty
    · exact hTallied.appended batch record
    · exact (hTallied.appended batch record).compactIfOvergrown hCompact

/-- No use makes the counts inexact. -/
theorem Used.isTallied {journal : Journal} (hUsed : Used journal) : journal.IsTallied := by
  induction hUsed with
  | opened opened => exact isTallied_of_openIn opened
  | write _ taken ih => exact ih.write taken
  | compact _ done ih => exact ih.compact done
  | maintain _ done ih => exact ih.compactIfOvergrown done
  | close _ ih => exact ⟨ih.rowCosts, ih.length⟩

section
variable {journal : Journal} (hTallied : journal.IsTallied)
include hTallied

/-- However far a batch has got, what a row cost is part of the count that it is taken from. -/
theorem IsTallied.cost_le (batch : Batch) {key value : Bytes}
    (hFound : (batch.foldl applyOp (journal.rows, journal.rowCosts)).1.get? key = some value) :
    cost (key, value) ≤ (batch.foldl applyOp (journal.rows, journal.rowCosts)).2 := by
  rw [hTallied.rowCosts, foldl_applyOp_tallied] at hFound ⊢
  rw [totalCost_of_get? hFound]
  exact Nat.le_add_right _ _

theorem IsTallied.overgrown_iff : journal.overgrown = true ↔
    journal.threshold < (journal.folder.bytes Folder.logName).length ∧
      2 * totalCost journal.rows < (journal.folder.bytes Folder.logName).length := by
  rw [overgrown, Bool.and_eq_true, decide_eq_true_iff, decide_eq_true_iff, hTallied.rowCosts,
    hTallied.length]

/-- A journal that takes a batch is compacted just if its log has overgrown with it. -/
theorem IsTallied.write_eq {batch : Batch} (hSome : batch ≠ []) {record : Bytes}
    (hRecord : Record.encode batch = .ok record) : journal.write batch = .ok
      (if journal.threshold < (journal.folder.bytes Folder.logName ++ record).length ∧
          2 * totalCost (journal.rows.apply batch) <
            (journal.folder.bytes Folder.logName ++ record).length
        then (journal.appended batch record).compacted else journal.appended batch record) := by
  have hFull : batch.isEmpty = false := by simpa using hSome
  have hWrite : journal.write batch = match (journal.appended batch record).compactIfOvergrown with
      | .ok compacted => .ok compacted
      | .error _ => .ok (journal.appended batch record) := by
    simp only [Journal.write, hFull, Bool.false_eq_true, if_false, hRecord, Outcome.ok_bind]
    rfl
  -- Whether the log has overgrown is asked of the journal that has the batch already.
  have hGrown := (hTallied.appended batch record).overgrown_iff
  have hBytes : (journal.appended batch record).folder.bytes Folder.logName =
      journal.folder.bytes Folder.logName ++ record :=
    (Folder.bytes_append _ _ _ _).trans (if_pos rfl)
  have hThreshold : (journal.appended batch record).threshold = journal.threshold := rfl
  rw [hBytes, rows_appended, hThreshold] at hGrown
  rw [hWrite, Journal.compactIfOvergrown]
  by_cases hOver : (journal.appended batch record).overgrown = true
  · rw [if_pos hOver, if_pos (hGrown.mp hOver), Journal.compacted]
    cases (journal.appended batch record).compact <;> rfl
  · rw [if_neg hOver, if_neg fun hBoth => hOver (hGrown.mpr hBoth)]

theorem IsTallied.maintain_eq : (Engine.journal journal).maintain =
    if journal.closed = true then .error .closed
    else if journal.threshold < (journal.folder.bytes Folder.logName).length ∧
        2 * totalCost journal.rows < (journal.folder.bytes Folder.logName).length
      then journal.compact.map Engine.journal else .ok (.journal journal) := by
  rw [Engine.maintain, Journal.compactIfOvergrown]
  by_cases hOver : journal.overgrown = true
  · rw [if_pos hOver, if_pos (hTallied.overgrown_iff.mp hOver)]
    cases journal.compact <;> rfl
  · rw [if_neg hOver, if_neg fun hBoth => hOver (hTallied.overgrown_iff.mpr hBoth)]
    rfl

theorem IsTallied.length_compact {compacted : Journal} (hOk : journal.compact = .ok compacted) :
    compacted.length = compacted.rowCosts + 18 * ((compacted.rows.size + 4095) / 4096) := by
  obtain ⟨log, hLog, hLast⟩ := Outcome.bind_eq_ok hOk
  cases hLast
  show log.length = journal.rowCosts + 18 * ((journal.rows.size + 4095) / 4096)
  rw [length_compactLog hLog, hTallied.rowCosts]

end

/-- **Sizes are exact.**  Wherever a journal comes from and whatever happened to it, what it counts
for its rows is the sum of what they cost, and what it counts for its log is the length of the file.
While a batch is carried out no row that is replaced costs more than is counted.  A batch that is
taken, and upkeep, have a journal compacted just if its log is longer than the threshold and more
than twice as long as its rows need, and a compacted log is as long as the rows need and the heads
and checksums of as many records as there are chunks of rows. -/
theorem Used.counts_exactly {journal : Journal} (hUsed : Used journal) :
    (journal.rowCosts =
        (journal.rows.entries.map fun row => row.1.length + row.2.length + 9).sum ∧
      journal.length = (journal.folder.bytes Folder.logName).length) ∧
    (∀ (batch : Batch) (key value : Bytes),
      (batch.foldl applyOp (journal.rows, journal.rowCosts)).1.get? key = some value →
        cost (key, value) ≤ (batch.foldl applyOp (journal.rows, journal.rowCosts)).2) ∧
    (∀ batch record, batch ≠ [] → Record.encode batch = .ok record → journal.write batch = .ok
      (if journal.threshold < (journal.folder.bytes Folder.logName ++ record).length ∧
          2 * totalCost (journal.rows.apply batch) <
            (journal.folder.bytes Folder.logName ++ record).length
        then (journal.appended batch record).compacted else journal.appended batch record)) ∧
    ((Engine.journal journal).maintain =
      if journal.closed = true then .error .closed
      else if journal.threshold < (journal.folder.bytes Folder.logName).length ∧
          2 * totalCost journal.rows < (journal.folder.bytes Folder.logName).length
        then journal.compact.map Engine.journal else .ok (.journal journal)) ∧
    ∀ compacted, journal.compact = .ok compacted →
      compacted.length = compacted.rowCosts + 18 * ((compacted.rows.size + 4095) / 4096) := by
  have hTallied := hUsed.isTallied
  exact ⟨⟨hTallied.rowCosts.trans (totalCost_eq_sum _), hTallied.length⟩,
    fun batch _ _ hFound => hTallied.cost_le batch hFound,
    fun _ _ hSome hRecord => hTallied.write_eq hSome hRecord, hTallied.maintain_eq,
    fun _ hOk => hTallied.length_compact hOk⟩

end Journal

end Storage

namespace Sample

open Storage

/-- An empty journal that is compacted when its log is longer than sixty bytes. -/
def roomy : Journal := .replayedIn "lake" 60 .empty ⟨∅, 0⟩

/-- One key is put twice. -/
def fillings : Batch := [.put [1] [2], .put [3] [4, 5], .put [1] [6, 7, 8]]

/-- A key that is not there is deleted, and one of the two that are. The other one is put again. -/
def prunings : Batch := [.delete [9], .delete [3], .put [1] [7]]

def filled : Journal := ((roomy.write fillings).toOption).getD roomy

def pruned : Journal := ((filled.write prunings).toOption).getD filled

/-- The record of the deletions. -/
def pruningRecord : Bytes := ((Record.encode prunings).toOption).getD []

/-- The puts leave two rows and a log of 54 bytes. The deletions would make it 95 bytes long, which is
more than sixty and more than twice the eleven bytes of the row that is left, so the log is compacted
and then 29 bytes long: the row and what is around one record. -/
theorem counts_exactly_compacted :
    (Journal.Used filled ∧ filled.rowCosts = 25 ∧ filled.length = 54) ∧
    (filled.write prunings = .ok (filled.appended prunings pruningRecord).compacted ∧
      (filled.appended prunings pruningRecord).length = 95) ∧
    Journal.Used pruned ∧ pruned.rowCosts = 11 ∧ pruned.length = 29 ∧
    ∃ again, pruned.compact = .ok again ∧
      again.length = again.rowCosts + 18 * ((again.rows.size + 4095) / 4096) := by
  have hFilled : Journal.Used filled := (Journal.Used.opened
    (rfl : Journal.openIn "lake" 60 .empty = (.ok roomy, roomy.folder))).write
      (rfl : roomy.write fillings = .ok filled)
  have hPruned : Journal.Used pruned := hFilled.write (rfl : filled.write prunings = .ok pruned)
  obtain ⟨⟨hCosts, hLength⟩, _, hWrite, _⟩ := hFilled.counts_exactly
  obtain ⟨⟨hLeft, hShort⟩, _, _, _, hCompact⟩ := hPruned.counts_exactly
  have hOvergrown : 60 < (filled.folder.bytes "kv.log" ++ pruningRecord).length ∧
      2 * Journal.totalCost (filled.rows.apply prunings) <
        (filled.folder.bytes "kv.log" ++ pruningRecord).length := by
    decide +kernel
  have hTaken := hWrite prunings pruningRecord (by decide) rfl
  have hCompacted := hTaken.trans (congrArg Except.ok (if_pos hOvergrown))
  obtain ⟨again, hAgain⟩ : ∃ again, pruned.compact = .ok again := ⟨_, rfl⟩
  exact ⟨⟨hFilled, hCosts.trans (by decide +kernel), hLength.trans (by decide +kernel)⟩,
    ⟨hCompacted, by decide +kernel⟩, hPruned, hLeft.trans (by decide +kernel),
    hShort.trans (by decide +kernel), again, hAgain, hCompact again hAgain⟩

end Sample

end VersionedCatalog
