import VersionedCatalog.Proofs.Backends

/-! # Engines answer alike

What a request is answered and what it does to the rows is said by the rows alone
(`Request.response`, `Request.effect`). A backend that is open and fails nothing answers just that,
be it a journal or rows in memory, as long as what it writes fits into records
(`Backend.answer_eq`). Compacting a journal, closing it or losing it and opening it again changes
no rows, so a journal through any of that answers like rows in memory that know of none of it
(`Backend.follow_eq_answers`).
-/

namespace VersionedCatalog.Storage

/-- The calls of a backend while it is open. -/
inductive Request
  | get (key : Bytes)
  | scan (stem : Bytes)
  | last (stem : Bytes)
  | put (key value : Bytes)
  | delete (key : Bytes)
  | write (batch : Batch)
  | size
  | flush
  | maintain
  deriving DecidableEq

inductive Response
  | value (value : Option Bytes)
  | rows (rows : List Row)
  | row (row : Option Row)
  | count (n : Nat)
  | done
  deriving DecidableEq

namespace Request

def batch : Request → Batch
  | put key value => [.put key value]
  | delete key => [.delete key]
  | write batch => batch
  | _ => []

/-- What rows are answered. -/
def response (rows : Rows) : Request → Response
  | get key => .value (rows.get? key)
  | scan stem => .rows (rows.below stem)
  | last stem => .row (rows.lastBelow? stem)
  | size => .count rows.size
  | _ => .done

/-- What becomes of rows. -/
def effect (rows : Rows) (request : Request) : Rows := rows.apply request.batch

/-- Whether what is written fits into records; upkeep may write all rows. -/
def Fits (rows : Rows) (request : Request) : Prop :=
  Record.Fits request.batch ∧ (request = .maintain → ∀ chunk ∈
    Journal.chunks Journal.chunkSize rows.size rows.entries,
      Record.Fits (chunk.map fun row => .put row.1 row.2))

instance (rows : Rows) (request : Request) : Decidable (request.Fits rows) :=
  inferInstanceAs (Decidable (_ ∧ _))

/-- Whether each of some requests fits when it is its turn. -/
def AllFit (rows : Rows) : List Request → Prop
  | [] => True
  | request :: rest => request.Fits rows ∧ AllFit (request.effect rows) rest

instance decidableAllFit (rows : Rows) : (requests : List Request) → Decidable (AllFit rows requests)
  | [] => .isTrue trivial
  | request :: rest =>
    have := decidableAllFit (request.effect rows) rest
    inferInstanceAs (Decidable (_ ∧ _))

/-- What requests are answered one after another. -/
def responses (rows : Rows) : List Request → List Response
  | [] => []
  | request :: rest => request.response rows :: responses (request.effect rows) rest

end Request

/-- What happens to a journal: requests, and between them what nobody asks for. -/
inductive Event
  | ask (request : Request)
  | compact
  /-- The journal is closed or lost, and opened with a new threshold. -/
  | reopen (closing : Bool) (threshold : Nat)
  deriving DecidableEq

namespace Event

def requests : List Event → List Request
  | [] => []
  | ask request :: rest => request :: requests rest
  | compact :: rest => requests rest
  | reopen _ _ :: rest => requests rest

end Event

namespace Backend

def answer (backend : Backend) : Request → Except Fault (Response × Backend)
  | .get key => do return (.value (← backend.get key), backend)
  | .scan stem => do return (.rows (← backend.scan stem), backend)
  | .last stem => do return (.row (← backend.last stem), backend)
  | .put key value => do return (.done, ← backend.put key value)
  | .delete key => do return (.done, ← backend.delete key)
  | .write batch => do return (.done, ← backend.write batch)
  | .size => do return (.count (← backend.size), backend)
  | .flush => do
    backend.flush
    return (.done, backend)
  | .maintain => do return (.done, ← backend.maintain)

def answers (backend : Backend) : List Request → Except Fault (List Response)
  | [] => .ok []
  | request :: rest => do
    let (response, after) ← backend.answer request
    let others ← after.answers rest
    return response :: others

/-- Compacts a journal; one whose rows do not fit into records stays as it is. -/
def compacted (backend : Backend) : Backend :=
  match backend.compact with
  | .ok compacted => compacted
  | .error _ => backend

def ended (closing : Bool) (backend : Backend) : Except Fault Backend :=
  if closing then backend.close else .ok backend

/-- Opens a journal where this one ended; rows in memory go on. -/
def reopened (threshold : Nat) (backend : Backend) : Except Fault Backend :=
  match backend.engine with
  | .memory rows _ => .ok (.inMemory rows)
  | .journal state =>
    (Journal.openIn state.path threshold state.abandon).1.map fun opened =>
      .ofEngine (.journal opened)

/-- The answers to the requests among some events. -/
def follow (backend : Backend) : List Event → Except Fault (List Response)
  | [] => .ok []
  | .ask request :: rest => do
    let (response, after) ← backend.answer request
    let others ← after.follow rest
    return response :: others
  | .compact :: rest => backend.compacted.follow rest
  | .reopen closing threshold :: rest => do
    let ended ← backend.ended closing
    let after ← ended.reopened threshold
    after.follow rest

/-! ### Each step -/

variable {backend : Backend}

theorem isFresh_inMemory (rows : Rows) : (inMemory rows).IsFresh := ⟨rfl, rfl, trivial⟩

section
variable (hFresh : backend.IsFresh)
include hFresh

theorem ensureOpen_of_fresh : backend.ensureOpen = .ok () := by
  rw [ensureOpen, hFresh.isOpen]
  rfl

/-- A batch that fits is taken. -/
theorem exists_write {batch : Batch} (hFits : Record.Fits batch) :
    ∃ written, backend.write batch = .ok written ∧ written.IsFresh ∧
      written.rows = backend.rows.apply batch := by
  have hTaken : ∃ engine, backend.engine.write batch = .ok engine := by
    cases hEngine : backend.engine with
    | memory rows closed => exact ⟨_, rfl⟩
    | journal state =>
      obtain ⟨written, hWritten⟩ := state.exists_write hFits
      exact ⟨.journal written, by rw [Engine.write, hWritten]; rfl⟩
  obtain ⟨engine, hEngine⟩ := hTaken
  have hWrite : backend.write batch = .ok { backend with engine := engine } := by
    rw [write, permit_of_open hFresh.isOpen hFresh.faults, hEngine]
    rfl
  obtain ⟨hRows, hFaults, hOpen, hKeep⟩ := write_eq_ok hWrite
  exact ⟨_, hWrite, ⟨hOpen, hFaults.trans hFresh.faults, hKeep hFresh.faithful⟩, hRows⟩

theorem KeepsRows.isFresh {after : Backend} (hKeeps : KeepsRows backend after)
    (hClosed : after.isClosed = backend.isClosed) : after.IsFresh :=
  ⟨hClosed.trans hFresh.isOpen, hKeeps.faults.trans hFresh.faults, hKeeps.faithful hFresh.faithful⟩

/-- Upkeep goes through if all rows fit into records. -/
theorem exists_maintain (hFits : ∀ chunk ∈
    Journal.chunks Journal.chunkSize backend.rows.size backend.rows.entries,
      Record.Fits (chunk.map fun row => .put row.1 row.2)) :
    ∃ maintained, backend.maintain = .ok maintained ∧ maintained.IsFresh ∧
      maintained.rows = backend.rows := by
  have hDone : ∃ engine, backend.engine.maintain = .ok engine := by
    cases hEngine : backend.engine with
    | memory rows closed => exact ⟨_, rfl⟩
    | journal state =>
      rw [rows, hEngine] at hFits
      have hOpen : state.closed = false := by
        have hBackend := hFresh.isOpen
        rwa [isClosed, hEngine] at hBackend
      obtain ⟨compacted, hCompact⟩ := Journal.exists_compactIfOvergrown hFits
      refine ⟨.journal compacted, ?_⟩
      simp only [Engine.maintain, hOpen, hCompact, Bool.false_eq_true, if_false]
      rfl
  obtain ⟨engine, hEngine⟩ := hDone
  have hMaintain : backend.maintain = .ok { backend with engine := engine } := by
    rw [maintain, ensureSound_of_faults hFresh.faults, hEngine]
    rfl
  obtain ⟨hKeeps, hClosed⟩ := maintain_eq_ok hMaintain
  exact ⟨_, hMaintain, hKeeps.isFresh hFresh hClosed, hKeeps.rows⟩

/-- A backend that is open and fails nothing answers what its rows say. -/
theorem answer_eq {request : Request} (hFits : request.Fits backend.rows) :
    ∃ after, backend.answer request = .ok (request.response backend.rows, after) ∧
      after.IsFresh ∧ after.rows = request.effect backend.rows := by
  have hPermit := permit_of_open hFresh.isOpen hFresh.faults
  obtain ⟨hBatch, hChunks⟩ := hFits
  cases request with
  | get key => exact ⟨backend, by rw [answer, get, hPermit]; rfl, hFresh, rfl⟩
  | scan stem => exact ⟨backend, by rw [answer, scan, hPermit]; rfl, hFresh, rfl⟩
  | last stem => exact ⟨backend, by rw [answer, last, hPermit]; rfl, hFresh, rfl⟩
  | put key value =>
    obtain ⟨written, hWrite, hAfter⟩ := exists_write hFresh hBatch
    exact ⟨written, by rw [answer, put, show backend.write [.put key value] = _ from hWrite]; rfl,
      hAfter⟩
  | delete key =>
    obtain ⟨written, hWrite, hAfter⟩ := exists_write hFresh hBatch
    exact ⟨written, by rw [answer, delete, show backend.write [.delete key] = _ from hWrite]; rfl,
      hAfter⟩
  | write batch =>
    obtain ⟨written, hWrite, hAfter⟩ := exists_write hFresh hBatch
    exact ⟨written, by rw [answer, show backend.write batch = _ from hWrite]; rfl, hAfter⟩
  | size => exact ⟨backend, by rw [answer, size, ensureOpen_of_fresh hFresh]; rfl, hFresh, rfl⟩
  | flush => exact ⟨backend, by rw [answer, flush, hPermit]; rfl, hFresh, rfl⟩
  | maintain =>
    obtain ⟨maintained, hMaintain, hAfter, hRows⟩ := exists_maintain hFresh (hChunks rfl)
    exact ⟨maintained, by rw [answer, hMaintain]; rfl, hAfter, hRows⟩

theorem isFresh_compacted : backend.compacted.IsFresh ∧ backend.compacted.rows = backend.rows := by
  unfold compacted
  cases hCompact : backend.compact with
  | error fault => exact ⟨hFresh, rfl⟩
  | ok after =>
    obtain ⟨hKeeps, hClosed⟩ := compact_eq_ok hCompact
    exact ⟨hKeeps.isFresh hFresh hClosed, hKeeps.rows⟩

theorem exists_ended (closing : Bool) : ∃ ended, backend.ended closing = .ok ended ∧
    ended.IsFaithful ∧ ended.rows = backend.rows := by
  cases closing with
  | false => exact ⟨backend, rfl, hFresh.faithful, rfl⟩
  | true =>
    obtain ⟨closed, hClose⟩ := exists_close hFresh.faults
    have hKeeps := close_eq_ok hClose
    exact ⟨closed, hClose, hKeeps.faithful hFresh.faithful, hKeeps.rows⟩

end

/-- A backend that was closed or lost is opened again with its rows. -/
theorem exists_reopened (hFaithful : backend.IsFaithful) (threshold : Nat) :
    ∃ after, backend.reopened threshold = .ok after ∧ after.IsFresh ∧
      after.rows = backend.rows := by
  unfold reopened rows
  cases hEngine : backend.engine with
  | memory rows closed => exact ⟨_, rfl, isFresh_inMemory rows, rfl⟩
  | journal state =>
    have hState : state.IsFaithful := by rwa [IsFaithful, hEngine] at hFaithful
    obtain ⟨opened, left, hOpen, hOpened⟩ :=
      Journal.openIn_log hState hState.path threshold (rfl : state.abandon.owned = false) rfl
    refine ⟨.ofEngine (.journal opened), ?_, hOpened.isFresh, hOpened.rows⟩
    simp only [hOpen]
    rfl

/-! ### A whole run -/

theorem answers_eq (hFresh : backend.IsFresh) {requests : List Request}
    (hFits : Request.AllFit backend.rows requests) :
    backend.answers requests = .ok (Request.responses backend.rows requests) := by
  induction requests generalizing backend with
  | nil => rfl
  | cons request rest ih =>
    obtain ⟨hFirst, hRest⟩ := hFits
    obtain ⟨after, hAnswer, hAfter, hRows⟩ := answer_eq hFresh hFirst
    rw [← hRows] at hRest
    rw [answers, hAnswer, Request.responses, ← hRows]
    simp only [Outcome.ok_bind, ih hAfter hRest]
    rfl

theorem follow_eq (hFresh : backend.IsFresh) {events : List Event}
    (hFits : Request.AllFit backend.rows (Event.requests events)) :
    backend.follow events = .ok (Request.responses backend.rows (Event.requests events)) := by
  induction events generalizing backend with
  | nil => rfl
  | cons event rest ih =>
    cases event with
    | ask request =>
      obtain ⟨hFirst, hRest⟩ := hFits
      obtain ⟨after, hAnswer, hAfter, hRows⟩ := answer_eq hFresh hFirst
      rw [← hRows] at hRest
      have hOthers := ih hAfter hRest
      rw [hRows] at hOthers
      rw [follow, hAnswer]
      simp only [Outcome.ok_bind, hOthers]
      rfl
    | compact =>
      obtain ⟨hAfter, hRows⟩ := isFresh_compacted hFresh
      rw [← hRows] at hFits ⊢
      exact ih hAfter hFits
    | reopen closing threshold =>
      obtain ⟨ended, hEnd, hFaithful, hEndRows⟩ := exists_ended hFresh closing
      obtain ⟨after, hOpen, hAfter, hRows⟩ := exists_reopened hFaithful threshold
      rw [← hEndRows, ← hRows] at hFits ⊢
      rw [follow, hEnd, Outcome.ok_bind, hOpen, Outcome.ok_bind]
      exact ih hAfter hFits

/-- A journal that starts in an empty folder answers like rows in memory that start empty, whenever
it is compacted, closed or lost on the way, as long as everything fits into records. -/
theorem follow_eq_answers {path : String} (hPath : path.isEmpty = false) (threshold : Nat)
    {events : List Event} (hFits : Request.AllFit ∅ (Event.requests events)) :
    ∃ backend left responses,
      (Medium.ofRows ∅).openBackend .log path threshold = (.ok backend, left) ∧
      backend.follow events = .ok responses ∧
      (inMemory ∅).answers (Event.requests events) = .ok responses := by
  obtain ⟨opened, folder, hOpen, hOpened⟩ := Journal.openIn_empty hPath threshold
  have hBackend := Journal.openBackend_log hOpen (Disk.folderAt_empty path) ∅
  have hRows : (ofEngine (.journal opened)).rows = ∅ := hOpened.rows
  have hFollow := follow_eq hOpened.isFresh (hRows.symm ▸ hFits)
  rw [hRows] at hFollow
  exact ⟨_, _, _, hBackend, hFollow, answers_eq (isFresh_inMemory ∅) hFits⟩

end Backend

end VersionedCatalog.Storage

namespace VersionedCatalog.Sample

open Storage

/-- A journal is compacted, closed and lost between what is written to it. -/
def events : List Event :=
  [.ask (.put [1] [2]), .compact, .reopen true 0, .ask (.write [.put [3] [4], .delete [1]]),
    .reopen false 7, .ask .maintain, .ask (.scan []), .ask .size]

theorem follow_events : ∃ backend left,
    (Medium.ofRows ∅).openBackend .log "lake" 0 = (.ok backend, left) ∧
    backend.follow events = .ok [.done, .done, .done, .rows [([3], [4])], .count 1] := by
  have hFits : Request.AllFit ∅ (Event.requests events) := by decide +kernel
  obtain ⟨backend, left, responses, hOpen, hFollow, hAnswers⟩ :=
    Backend.follow_eq_answers (show "lake".isEmpty = false from rfl) 0 hFits
  have hMemory : (Backend.inMemory ∅).answers (Event.requests events) =
      .ok [.done, .done, .done, .rows [([3], [4])], .count 1] := rfl
  rw [hMemory] at hAnswers
  cases hAnswers
  exact ⟨backend, left, hOpen, hFollow⟩

end VersionedCatalog.Sample
