import VersionedCatalog.Proofs.Journals

/-! # Recovery after a crash

A journal starts in an empty folder, takes batches, is compacted now and then and is opened again
from what was left of it (`Journal.History`). A crash may cut the record of a last batch anywhere
and may leave any bytes of an unfinished compaction (`Journal.Remains`). What is left is always
opened, to the batches that were taken in their order and the last one if its record is whole, and
the log then ends with its last complete record (`Journal.History.recovers`).
-/

namespace VersionedCatalog.Storage

namespace Journal

variable {path : String} {batches : List Batch} {journal : Journal}

/-- What a crash leaves of a journal: some bytes behind its log, what an unfinished compaction
wrote, and nobody owns the folder. -/
def wreck (journal : Journal) (tail : Bytes) (leftover : Option Bytes) : Folder :=
  let folder := journal.folder.append Folder.logName tail
  match leftover with
  | some bytes => (folder.write Folder.compactName bytes).release
  | none => folder.release

theorem bytes_wreck (journal : Journal) (tail : Bytes) (leftover : Option Bytes) :
    (journal.wreck tail leftover).bytes Folder.logName =
      journal.folder.bytes Folder.logName ++ tail := by
  have hAppended : (journal.folder.append Folder.logName tail).bytes Folder.logName =
      journal.folder.bytes Folder.logName ++ tail := (Folder.bytes_append _ _ _ _).trans (if_pos rfl)
  cases leftover with
  | none => exact hAppended
  | some bytes =>
    refine Eq.trans (Folder.bytes_write _ _ _ _) ?_
    rw [if_neg Folder.logName_ne_compactName, hAppended]

theorem owned_wreck (journal : Journal) (tail : Bytes) (leftover : Option Bytes) :
    (journal.wreck tail leftover).owned = false := by
  cases leftover <;> rfl

/-- What is left of a journal when it is gone, with the batches whose records reached the log since
the last one that was taken, and with the complete records of the log. -/
inductive Remains (journal : Journal) : Folder → List Batch → Bytes → Prop
  | whole : Remains journal journal.abandon [] (journal.folder.bytes Folder.logName)
  | cut {batch : Batch} {record : Bytes} (encoded : Record.encode batch = .ok record) {k : Nat}
      (short : k < record.length) (leftover : Option Bytes) :
      Remains journal (journal.wreck (record.take k) leftover) []
        (journal.folder.bytes Folder.logName)
  | reached {batch : Batch} {record : Bytes} (encoded : Record.encode batch = .ok record)
      (leftover : Option Bytes) :
      Remains journal (journal.wreck record leftover) [batch]
        (journal.folder.bytes Folder.logName ++ record)

/-- The batches that a journal took since it was started in an empty folder. -/
inductive History (path : String) : List Batch → Journal → Prop
  | start {threshold : Nat} {journal : Journal} {left : Folder}
      (opened : openIn path threshold .empty = (.ok journal, left)) : History path [] journal
  | write {batches : List Batch} {journal written : Journal} {batch : Batch}
      (before : History path batches journal) (taken : journal.write batch = .ok written) :
      History path (batches ++ [batch]) written
  | compact {batches : List Batch} {journal compacted : Journal}
      (before : History path batches journal) (done : journal.compact = .ok compacted) :
      History path batches compacted
  | maintain {batches : List Batch} {journal maintained : Journal}
      (before : History path batches journal) (done : journal.compactIfOvergrown = .ok maintained) :
      History path batches maintained
  | reopen {batches more : List Batch} {journal opened : Journal} {folder left : Folder}
      {log : Bytes} {threshold : Nat} (before : History path batches journal)
      (remains : journal.Remains folder more log)
      (reopened : openIn path threshold folder = (.ok opened, left)) :
      History path (batches ++ more) opened

theorem path_of_openIn {threshold : Nat} {folder left : Folder}
    (hOpen : openIn path threshold folder = (.ok journal, left)) : path.isEmpty = false := by
  cases hPath : path.isEmpty with
  | false => rfl
  | true =>
    rw [openIn, if_pos hPath] at hOpen
    cases hOpen

/-- What is left of a journal is opened. -/
theorem Remains.openIn_eq (hFaithful : journal.IsFaithful) (hPath : path.isEmpty = false)
    {folder : Folder} {more : List Batch} {log : Bytes} (hRemains : journal.Remains folder more log)
    (threshold : Nat) : ∃ opened left, openIn path threshold folder = (.ok opened, left) ∧
      IsOpened path (journal.rows.applyAll more) log opened left := by
  cases hRemains with
  | whole => exact openIn_log hFaithful hPath threshold rfl rfl
  | cut encoded short leftover =>
    exact openIn_cut hFaithful hPath threshold encoded short (owned_wreck _ _ _) (bytes_wreck _ _ _)
  | reached encoded leftover =>
    exact openIn_whole hFaithful hPath threshold encoded (owned_wreck _ _ _) (bytes_wreck _ _ _)

namespace History

/-- Whatever happens, the log stays faithful and the rows are those of the batches. -/
theorem isFaithful (hHistory : History path batches journal) :
    path.isEmpty = false ∧ journal.IsFaithful ∧ journal.rows = (∅ : Rows).applyAll batches := by
  induction hHistory with
  | start opened =>
    have hPath := path_of_openIn opened
    obtain ⟨found, left, hOpen, hOpened⟩ := openIn_empty hPath _
    rw [opened] at hOpen
    cases hOpen
    exact ⟨hPath, hOpened.faithful, hOpened.rows⟩
  | write _ taken ih =>
    obtain ⟨hPath, hFaithful, hRows⟩ := ih
    obtain ⟨hWritten, _, _, hKeep⟩ := write_eq_ok taken
    refine ⟨hPath, hKeep hFaithful, ?_⟩
    rw [hWritten, hRows, Rows.applyAll_append]
    rfl
  | compact _ done ih =>
    obtain ⟨hPath, hFaithful, hRows⟩ := ih
    obtain ⟨hSame, hKeep⟩ := compact_eq_ok done
    exact ⟨hPath, hKeep hFaithful, hSame.rows.trans hRows⟩
  | maintain _ done ih =>
    obtain ⟨hPath, hFaithful, hRows⟩ := ih
    obtain ⟨hSame, hKeep⟩ := compactIfOvergrown_eq_ok done
    exact ⟨hPath, hKeep hFaithful, hSame.rows.trans hRows⟩
  | reopen _ remains reopened ih =>
    obtain ⟨hPath, hFaithful, hRows⟩ := ih
    obtain ⟨found, left, hOpen, hOpened⟩ := remains.openIn_eq hFaithful hPath _
    rw [reopened] at hOpen
    cases hOpen
    refine ⟨hPath, hOpened.faithful, ?_⟩
    rw [hOpened.rows, hRows, Rows.applyAll_append]

/-- What is left of a journal is opened to exactly the batches that it took, and to the last one
too if its record is whole. The log then ends with its last complete record, nothing is left of a
compaction, and the journal goes on from there. -/
theorem recovers (hHistory : History path batches journal) {folder : Folder} {more : List Batch}
    {log : Bytes} (hRemains : journal.Remains folder more log) (threshold : Nat) :
    journal.rows = (∅ : Rows).applyAll batches ∧
    ∃ opened left, openIn path threshold folder = (.ok opened, left) ∧
      opened.rows = (∅ : Rows).applyAll (batches ++ more) ∧
      left.bytes Folder.logName = log ∧ (∃ logged, Records logged log) ∧
      left.read? Folder.compactName = none ∧ opened.folder = left ∧
      History path (batches ++ more) opened := by
  obtain ⟨hPath, hFaithful, hRows⟩ := hHistory.isFaithful
  obtain ⟨opened, left, hOpen, hOpened⟩ := hRemains.openIn_eq hFaithful hPath threshold
  have hAfter := hHistory.reopen hRemains hOpen
  obtain ⟨_, ⟨⟨logged, hLogged, _⟩, _⟩, hFound⟩ := hAfter.isFaithful
  rw [hOpened.folder, hOpened.log] at hLogged
  exact ⟨hRows, opened, left, hOpen, hFound, hOpened.log, ⟨logged, hLogged⟩, hOpened.clean,
    hOpened.folder, hAfter⟩

end History

end Journal

end VersionedCatalog.Storage

namespace VersionedCatalog.Sample

open Storage

/-- A journal that nothing was written to. -/
def started : Journal := Journal.replayedIn "lake" 0 .empty ⟨∅, 0⟩

/-- A journal that took a batch, and whose log was compacted at once. -/
def compacted : Journal := ((started.write [.put [1] [2]]).toOption).getD started

/-- The record of a batch that would empty the journal. -/
def erasure : Bytes := ((Record.encode [.delete [1]]).toOption).getD []

theorem history_compacted : Journal.History "lake" [[.put [1] [2]]] compacted := by
  have hStarted : Journal.History "lake" [] started :=
    Journal.History.start (rfl : Journal.openIn "lake" 0 .empty = (.ok started, started.folder))
  exact hStarted.write rfl

/-- A crash in the middle of the next record and of a compaction takes nothing from the journal. -/
theorem recovers_compacted : ∃ opened left,
    Journal.openIn "lake" 0 (compacted.wreck (erasure.take 12) (some [7])) = (.ok opened, left) ∧
    opened.rows.get? [1] = some [2] ∧
    left.bytes Folder.logName = compacted.folder.bytes Folder.logName ∧
    left.read? Folder.compactName = none := by
  have hRecord : Record.encode [.delete [1]] = .ok erasure := rfl
  have hShort : 12 < erasure.length := by decide +kernel
  obtain ⟨_, opened, left, hOpen, hRows, hLog, _, hClean, _⟩ :=
    history_compacted.recovers (.cut hRecord hShort (some [7])) 0
  exact ⟨opened, left, hOpen, by rw [hRows]; decide +kernel, hLog, hClean⟩

end VersionedCatalog.Sample
