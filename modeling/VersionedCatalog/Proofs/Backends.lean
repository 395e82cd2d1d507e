import VersionedCatalog.Proofs.Journals
import VersionedCatalog.Storage.Medium

/-! # Backends keep their rows

Whatever its kind, a backend that takes a batch has the rows that the batch makes of its rows
(`Backend.write_eq_ok`), upkeep and closing change none of them, and a backend that is opened where
another one ended has the rows of that one (`Backend.Reopens.rows_eq`). A log that a crash left with
a part of a record at its end is opened to the rows before that record (`Journal.openBackend_cut`).
-/

namespace VersionedCatalog.Storage

namespace Backend

def IsFaithful (backend : Backend) : Prop :=
  match backend.engine with
  | .memory _ _ => True
  | .journal state => state.IsFaithful

/-- Two states of one backend between which its rows stayed the same. -/
structure KeepsRows (before after : Backend) : Prop where
  rows : after.rows = before.rows
  faults : after.faults = before.faults
  faithful : before.IsFaithful → after.IsFaithful

theorem KeepsRows.refl (backend : Backend) : KeepsRows backend backend := ⟨rfl, rfl, id⟩

theorem permit_eq_ok {backend : Backend} {call : Call} (hOk : backend.permit call = .ok ()) :
    backend.isClosed = false := by
  obtain ⟨_, _, hOpen⟩ := Outcome.bind_eq_ok hOk
  unfold ensureOpen at hOpen
  split at hOpen
  next => cases hOpen
  next hNotClosed => simpa using hNotClosed

theorem ensureSound_of_faults {backend : Backend} (hFaults : backend.faults = []) (call : Call) :
    backend.ensureSound call = .ok () := by
  rw [ensureSound, hFaults]
  rfl

theorem permit_of_open {backend : Backend} (hOpen : backend.isClosed = false)
    (hFaults : backend.faults = []) (call : Call) : backend.permit call = .ok () := by
  simp [permit, ensureSound, ensureOpen, hOpen, hFaults]

theorem get_eq_ok {backend : Backend} {key : Bytes} {value : Option Bytes}
    (hOk : backend.get key = .ok value) : value = backend.rows.get? key := by
  obtain ⟨_, _, hValue⟩ := Outcome.bind_eq_ok hOk
  exact (Except.ok.inj hValue).symm

theorem scan_eq_ok {backend : Backend} {stem : Bytes} {rows : List Row}
    (hOk : backend.scan stem = .ok rows) : rows = backend.rows.below stem := by
  obtain ⟨_, _, hRows⟩ := Outcome.bind_eq_ok hOk
  exact (Except.ok.inj hRows).symm

theorem last_eq_ok {backend : Backend} {stem : Bytes} {row : Option Row}
    (hOk : backend.last stem = .ok row) : row = backend.rows.lastBelow? stem := by
  obtain ⟨_, _, hRow⟩ := Outcome.bind_eq_ok hOk
  exact (Except.ok.inj hRow).symm

section
variable {backend : Backend} (hOpen : backend.isClosed = false) (hFaults : backend.faults = [])
include hOpen hFaults

theorem get_of_open (key : Bytes) : backend.get key = .ok (backend.rows.get? key) := by
  rw [get, permit_of_open hOpen hFaults]
  rfl

theorem scan_of_open (stem : Bytes) : backend.scan stem = .ok (backend.rows.below stem) := by
  rw [scan, permit_of_open hOpen hFaults]
  rfl

theorem last_of_open (stem : Bytes) : backend.last stem = .ok (backend.rows.lastBelow? stem) := by
  rw [last, permit_of_open hOpen hFaults]
  rfl

end

/-- A backend that takes a batch has the rows that the batch makes. -/
theorem write_eq_ok {backend written : Backend} {batch : Batch}
    (hOk : backend.write batch = .ok written) :
    written.rows = backend.rows.apply batch ∧ written.faults = backend.faults ∧
      written.isClosed = false ∧ (backend.IsFaithful → written.IsFaithful) := by
  obtain ⟨_, hPermit, hRest⟩ := Outcome.bind_eq_ok hOk
  obtain ⟨engine, hEngine, hLast⟩ := Outcome.bind_eq_ok hRest
  have hOpen := permit_eq_ok hPermit
  cases hLast
  obtain ⟨before, faults⟩ := backend
  cases before with
  | memory rows closed => cases hEngine; exact ⟨rfl, rfl, hOpen, id⟩
  | journal state =>
    obtain ⟨journal, hWrite, hJournal⟩ := Outcome.bind_eq_ok hEngine
    cases hJournal
    obtain ⟨hRows, _, hClosed, hFaithful⟩ := Journal.write_eq_ok hWrite
    exact ⟨hRows, rfl, hClosed.trans hOpen, hFaithful⟩

theorem maintain_eq_ok {backend maintained : Backend} (hOk : backend.maintain = .ok maintained) :
    KeepsRows backend maintained ∧ maintained.isClosed = backend.isClosed := by
  obtain ⟨_, _, hRest⟩ := Outcome.bind_eq_ok hOk
  obtain ⟨engine, hEngine, hLast⟩ := Outcome.bind_eq_ok hRest
  cases hLast
  obtain ⟨before, faults⟩ := backend
  cases before with
  | memory rows closed => cases hEngine; exact ⟨.refl _, rfl⟩
  | journal state =>
    simp only [Engine.maintain] at hEngine
    split at hEngine
    next => cases hEngine
    next =>
      obtain ⟨journal, hCompact, hJournal⟩ := Outcome.bind_eq_ok hEngine
      cases hJournal
      obtain ⟨hSame, hFaithful⟩ := Journal.compactIfOvergrown_eq_ok hCompact
      exact ⟨⟨hSame.rows, rfl, hFaithful⟩, hSame.closed⟩

theorem compact_eq_ok {backend compacted : Backend} (hOk : backend.compact = .ok compacted) :
    KeepsRows backend compacted ∧ compacted.isClosed = backend.isClosed := by
  obtain ⟨_, _, hRest⟩ := Outcome.bind_eq_ok hOk
  obtain ⟨before, faults⟩ := backend
  cases before with
  | memory rows closed => cases hRest; exact ⟨.refl _, rfl⟩
  | journal state =>
    obtain ⟨journal, hCompact, hJournal⟩ := Outcome.bind_eq_ok hRest
    cases hJournal
    obtain ⟨hSame, hFaithful⟩ := Journal.compact_eq_ok hCompact
    exact ⟨⟨hSame.rows, rfl, hFaithful⟩, hSame.closed⟩

theorem close_eq {backend : Backend} (hFaults : backend.faults = []) :
    backend.close = .ok { backend with engine := backend.engine.close } := by
  rw [close, ensureSound_of_faults hFaults]
  rfl

theorem exists_close {backend : Backend} (hFaults : backend.faults = []) :
    ∃ closed, backend.close = .ok closed := ⟨_, close_eq hFaults⟩

theorem close_eq_ok {backend closed : Backend} (hOk : backend.close = .ok closed) :
    KeepsRows backend closed := by
  obtain ⟨_, _, hRest⟩ := Outcome.bind_eq_ok hOk
  cases hRest
  obtain ⟨before, faults⟩ := backend
  cases before with
  | memory rows closed => exact ⟨rfl, rfl, id⟩
  | journal state => exact ⟨rfl, rfl, Journal.isFaithful_close⟩

theorem isFaithful_withFaults {backend : Backend} (hFaithful : backend.IsFaithful)
    (faults : List Call) : (backend.withFaults faults).IsFaithful := hFaithful

/-! ### Opening again -/

/-- Whether a backend is of the kind of a provider and keeps its files where a path leads to. -/
def IsAt (backend : Backend) (provider : Provider) (path : String) : Prop :=
  match backend.engine with
  | .memory _ _ => provider = .memory
  | .journal state => provider = .log ∧ Disk.place path = Disk.place state.path

/-- A backend is opened where another one ended. -/
def Reopens (before after : Backend) : Prop :=
  ∃ (medium : Medium) (provider : Provider) (path : String) (threshold : Nat) (left : Medium),
    before.IsAt provider path ∧
      (medium.after before).openBackend provider path threshold = (.ok after, left)

/-- What a backend is like that was just opened. -/
structure IsFresh (backend : Backend) : Prop where
  isOpen : backend.isClosed = false
  faults : backend.faults = []
  faithful : backend.IsFaithful

end Backend

namespace Journal

/-- The opened backend of a journal. -/
theorem openBackend_log {path : String} {threshold : Nat} {folder left : Folder}
    {opened : Journal} (hOpen : openIn path threshold folder = (.ok opened, left)) {disk : Disk}
    (hAt : disk.folderAt path = folder) (rows : Rows) :
    (Medium.mk rows disk).openBackend .log path threshold =
      (.ok (.ofEngine (.journal opened)), ⟨rows, disk.withFolder path left⟩) := by
  simp only [Medium.openBackend, hAt, hOpen]
  rfl

theorem IsOpened.isFresh {path : String} {rows : Rows} {log : Bytes} {opened : Journal}
    {left : Folder} (hOpened : IsOpened path rows log opened left) :
    (Backend.ofEngine (.journal opened)).IsFresh := ⟨hOpened.isOpen, rfl, hOpened.faithful⟩

/-- A medium on which a crash left bytes behind the log of a journal. -/
def crashed (journal : Journal) (medium : Medium) (bytes : Bytes) : Medium :=
  let folder := (journal.folder.append Folder.logName bytes).release
  { medium with disk := medium.disk.withFolder journal.path folder }

/-- A part of a record that a crash left behind a log is dropped when the log is opened. -/
theorem openBackend_cut {journal : Journal} (hFaithful : journal.IsFaithful) {batch : Batch}
    {record : Bytes} (hRecord : Record.encode batch = .ok record) {k : Nat}
    (hCut : k < record.length) (medium : Medium) (threshold : Nat) :
    ∃ backend left, (journal.crashed medium (record.take k)).openBackend .log journal.path
        threshold = (.ok backend, left) ∧ backend.rows = journal.rows ∧ backend.IsFresh := by
  have hBytes : ((journal.folder.append Folder.logName (record.take k)).release).bytes
      Folder.logName = journal.folder.bytes Folder.logName ++ record.take k :=
    (Folder.bytes_append _ _ _ _).trans (if_pos rfl)
  obtain ⟨opened, left, hOpen, hOpened⟩ :=
    openIn_cut hFaithful hFaithful.path threshold hRecord hCut rfl hBytes
  have hAt := Disk.folderAt_withFolder medium.disk journal.path journal.path
    ((journal.folder.append Folder.logName (record.take k)).release)
  rw [if_pos rfl] at hAt
  exact ⟨_, _, openBackend_log hOpen hAt medium.rows, hOpened.rows, hOpened.isFresh⟩

end Journal

namespace Backend

/-- Opening again brings the rows back. -/
theorem Reopens.rows_eq {before after : Backend} (hFaithful : before.IsFaithful)
    (hReopens : before.Reopens after) : after.rows = before.rows ∧ after.IsFresh := by
  obtain ⟨medium, provider, path, threshold, left, hAt, hOpen⟩ := hReopens
  obtain ⟨engine, faults⟩ := before
  cases engine with
  | memory rows closed =>
    cases (show provider = .memory from hAt)
    cases hOpen
    exact ⟨rfl, rfl, rfl, trivial⟩
  | journal state =>
    obtain ⟨rfl, hPlace⟩ := hAt
    have hFolder := Disk.folderAt_withFolder medium.disk state.path path state.abandon
    rw [if_pos hPlace] at hFolder
    cases hPath : path.isEmpty with
    | true =>
      have hRefused : Journal.openIn path threshold state.abandon =
          (.error (.notFolder path), state.abandon) := by
        rw [Journal.openIn, if_pos hPath]
      simp [Medium.openBackend, Medium.after, hFolder, hRefused, Except.map] at hOpen
    | false =>
      have hState : state.IsFaithful := hFaithful
      have hFree : state.abandon.owned = false := rfl
      obtain ⟨opened, folder, hOpenIn, hOpened⟩ :=
        Journal.openIn_log hState hPath threshold hFree rfl
      have hBackend := Journal.openBackend_log hOpenIn hFolder medium.rows
      have hSame := hOpen.symm.trans hBackend
      cases (Except.ok.inj (Prod.mk.inj hSame).1)
      exact ⟨hOpened.rows, hOpened.isFresh⟩

/-- A backend that is opened where nothing was ever written has no rows. -/
theorem openBackend_empty {provider : Provider} {path : String} {threshold : Nat}
    {backend : Backend} {left : Medium}
    (hOpen : (Medium.ofRows ∅).openBackend provider path threshold = (.ok backend, left)) :
    backend.rows = ∅ ∧ backend.IsFresh := by
  cases provider with
  | memory => cases hOpen; exact ⟨rfl, rfl, rfl, trivial⟩
  | log =>
    cases hPath : path.isEmpty with
    | true =>
      have hRefused : Journal.openIn path threshold .empty =
          (.error (.notFolder path), .empty) := by
        rw [Journal.openIn, if_pos hPath]
      simp [Medium.openBackend, Medium.ofRows, Disk.folderAt_empty, hRefused, Except.map] at hOpen
    | false =>
      obtain ⟨opened, folder, hOpenIn, hOpened⟩ := Journal.openIn_empty hPath threshold
      have hBackend := Journal.openBackend_log hOpenIn (Disk.folderAt_empty path) ∅
      have hSame := hOpen.symm.trans hBackend
      cases (Except.ok.inj (Prod.mk.inj hSame).1)
      exact ⟨hOpened.rows, hOpened.isFresh⟩

end Backend

end VersionedCatalog.Storage
