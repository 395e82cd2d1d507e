import VersionedCatalog.Proofs.Runs
import VersionedCatalog.Store.Reading

/-! # Commands write once or not at all

A command that fails or has nothing to do (`Command.IsIdle`) leaves the rows as they are, and every
other command writes one batch. A log that a crash leaves with a part of the record of this batch is
opened to a store that answers as before the command (`Store.survivesCut`), so no part of a batch is
ever seen without the rest.
-/

namespace VersionedCatalog

open Storage (Rows Backend Call Journal Medium)
open VersionedCatalog.Action

/-! ### Reads depend on what the backend answers -/

/-- Two backends that answer every read alike. -/
structure Storage.Backend.AnswersAs (a b : Backend) : Prop where
  get : ∀ key, b.get key = a.get key
  scan : ∀ stem, b.scan stem = a.scan stem
  last : ∀ stem, b.last stem = a.last stem

theorem Storage.Backend.answersAs_of_open {a b : Backend} (hRows : b.rows = a.rows)
    (hA : a.isClosed = false ∧ a.faults = []) (hB : b.isClosed = false ∧ b.faults = []) :
    a.AnswersAs b where
  get key := by rw [get_of_open hA.1 hA.2, get_of_open hB.1 hB.2, hRows]
  scan stem := by rw [scan_of_open hA.1 hA.2, scan_of_open hB.1 hB.2, hRows]
  last stem := by rw [last_of_open hA.1 hA.2, last_of_open hB.1 hB.2, hRows]

namespace Catalog

variable {a b : Backend} (hAnswers : a.AnswersAs b)
include hAnswers

theorem entity?_congr (type : EntityType) (name : Name) :
    entity? b type name = entity? a type name := by
  simp only [entity?, live?, latest?, hAnswers.last]

theorem liveBelow_congr (stem : Bytes) : liveBelow b stem = liveBelow a stem := by
  simp only [liveBelow, latestBelow, hAnswers.scan]

theorem indexed?_congr (id : EntityId) : indexed? b id = indexed? a id := by
  simp only [indexed?, hAnswers.get]

end Catalog

namespace Store

/-- Two stores that answer every question about entities alike. -/
structure ReadsAs (store other : Store) : Prop where
  load : ∀ type name, other.load type name = store.load type name
  list : ∀ scope type, other.list scope type = store.list scope type
  loadById : ∀ id, other.loadById id = store.loadById id

theorem readsAs_of_answersAs {store other : Store} (hClosed : other.closed = store.closed)
    (hAnswers : store.backend.AnswersAs other.backend) : store.ReadsAs other where
  load type name := by
    simp only [Store.load, ensureOpen, hClosed, Catalog.entity?_congr hAnswers]
  list scope type := by
    simp only [Store.list, ensureOpen, hClosed, Catalog.liveBelow_congr hAnswers]
  loadById id := by
    simp only [Store.loadById, ensureOpen, hClosed, Catalog.indexed?_congr hAnswers,
      Catalog.entity?_congr hAnswers]

namespace ReadsAs

variable {store other : Store} (hReads : store.ReadsAs other)
include hReads

theorem contains (type : EntityType) (name : Name) :
    other.contains type name = store.contains type name := by
  rw [Store.contains, Store.contains, hReads.load]

theorem listTypes (scope : Namespace) (types : List EntityType) :
    other.listTypes scope types = store.listTypes scope types := by
  induction types with
  | nil => rfl
  | cons type rest ih => rw [Store.listTypes, Store.listTypes, hReads.list, ih]

theorem listChildren (scope : Namespace) : other.listChildren scope = store.listChildren scope :=
  hReads.listTypes scope _

end ReadsAs

/-! ### Crashes -/

/-- Should a crash leave a part of the record of a batch at the end of the log, the store that is
opened next reads as this one. -/
def SurvivesCut (store : Store) (batch : Storage.Batch) : Prop :=
  ∀ journal, store.backend.engine = .journal journal →
    ∃ record, Storage.Record.encode batch = .ok record ∧
      ∀ k < record.length, ∀ (medium : Medium) (threshold : Nat), ∃ backend left,
        (journal.crashed medium (record.take k)).openBackend .log journal.path threshold =
          (.ok backend, left) ∧
        ∀ (settings : Settings) (ids : IdSource) (clock : Millis),
          settings.validateTimes = .ok () →
          ∃ reopened, ofBackend backend settings ids clock = .ok reopened ∧ store.ReadsAs reopened

theorem ofBackend_of_open {backend : Backend} (hFresh : backend.IsFresh) {settings : Settings}
    (hTimes : settings.validateTimes = .ok ()) (ids : IdSource) (clock : Millis) :
    ∃ store, ofBackend backend settings ids clock = .ok store ∧ store.backend = backend ∧
      store.closed = false := by
  have hHighest : ∃ watermark, highestId backend = .ok watermark := by
    rw [highestId, Backend.get_of_open hFresh.isOpen hFresh.faults,
      Backend.last_of_open hFresh.isOpen hFresh.faults]
    exact ⟨_, rfl⟩
  obtain ⟨watermark, hWatermark⟩ := hHighest
  refine ⟨fresh backend settings ids clock watermark, ?_, rfl, rfl⟩
  rw [ofBackend, hTimes, hWatermark]
  rfl

/-- A batch that a journal took has a record. -/
theorem exists_record {journal written : Journal} {batch : Storage.Batch}
    (hWrite : journal.write batch = .ok written) :
    ∃ record, Storage.Record.encode batch = .ok record := by
  by_cases hNil : batch = []
  · rw [hNil]
    exact ⟨_, rfl⟩
  · obtain ⟨record, hRecord, _⟩ := Journal.write_eq_appended hWrite hNil
    exact ⟨record, hRecord⟩

theorem survivesCut {store : Store} (hSteady : store.IsSteady) (hOpen : store.closed = false)
    {faults : List Call} {batch : Storage.Batch} {written : Backend}
    (hWrite : (store.backend.withFaults faults).write batch = .ok written) :
    store.SurvivesCut batch := by
  intro journal hJournal
  have hFaithful : journal.IsFaithful := by
    have hBackend := hSteady.faithful
    rwa [Backend.IsFaithful, hJournal] at hBackend
  obtain ⟨_, _, hRest⟩ := Outcome.bind_eq_ok hWrite
  obtain ⟨engine, hEngine, _⟩ := Outcome.bind_eq_ok hRest
  have hEngineIs : (store.backend.withFaults faults).engine = .journal journal := hJournal
  rw [hEngineIs] at hEngine
  obtain ⟨after, hTaken, _⟩ := Outcome.bind_eq_ok hEngine
  obtain ⟨record, hRecord⟩ := exists_record hTaken
  refine ⟨record, hRecord, fun k hCut medium threshold => ?_⟩
  obtain ⟨backend, left, hOpened, hRows, hFresh⟩ :=
    Journal.openBackend_cut hFaithful hRecord hCut medium threshold
  refine ⟨backend, left, hOpened, fun settings ids clock hTimes => ?_⟩
  obtain ⟨reopened, hMade, hSame, hNotClosed⟩ := ofBackend_of_open hFresh hTimes ids clock
  have hStoreRows : store.backend.rows = journal.rows := by rw [Backend.rows, hJournal]; rfl
  refine ⟨reopened, hMade, readsAs_of_answersAs (hNotClosed.trans hOpen.symm) ?_⟩
  rw [hSame]
  exact Backend.answersAs_of_open (hRows.trans hStoreRows.symm)
    ⟨hSteady.isOpen hOpen, hSteady.faults⟩ ⟨hFresh.isOpen, hFresh.faults⟩

end Store

/-! ### Commands without a batch -/

namespace Command

/-- Whether a command that answers has nothing to write: a name to create that a live entity has,
no changes, nothing to drop or nothing to remove. -/
def IsIdle (command : Command) (rows : Rows) (reply : Reply) : Prop :=
  match command with
  | mutate (.create name draft) => ∃ slot : Slot, slot.type = draft.type ∧ slot.name = name ∧
      rows.IsLive slot
  | mutate (.alter _ _ _ changes) => changes = []
  | mutate (.drop _ _ _) => reply = .dropped false
  | collect => ∃ sweep : Sweep, reply = .swept sweep ∧ sweep.expired = []
  | sweep _ => ∃ sweep : Sweep, reply = .swept sweep ∧ sweep.expired = []

variable {command : Command} {store after : Store}

theorem isIdle_of_settled (hValid : command.IsValid) {answer : Reply}
    (hPrepare : command.prepare.run store = (.ok (.settled answer), after)) :
    command.IsIdle store.backend.rows answer := by
  cases command with
  | mutate mutation =>
    cases mutation with
    | create name draft =>
      obtain ⟨entity, hEntity, rfl⟩ := Mutation.settled_of_map hPrepare
      obtain ⟨slot, hType, rfl⟩ := Store.exists_slot_of_prepareCreate hValid hEntity
      obtain ⟨hHolds, _⟩ := Store.prepareCreate_eq_settled hType hEntity
      exact ⟨slot, hType, rfl, .of_holds hHolds⟩
    | alter type name modifier changes =>
      obtain ⟨entity, hEntity, rfl⟩ := Mutation.settled_of_map hPrepare
      by_contra hSome
      obtain ⟨change, hPending⟩ := (Store.prepareAlter_eq_ok hEntity).mpr hSome
      cases hPending
    | drop type name cascade =>
      obtain ⟨found, hFound, rfl⟩ := Mutation.settled_of_map hPrepare
      rcases Store.prepareDrop_eq_ok hFound with hSettled | ⟨change, hPending, _⟩
      · cases hSettled
        rfl
      · cases hPending
  | collect =>
    obtain ⟨sweep, hSweep, rfl⟩ := Mutation.settled_of_map hPrepare
    exact ⟨sweep, rfl, sweep_of_settled (run_prepareCollect_eq_ok hSweep).2⟩
  | sweep now =>
    obtain ⟨sweep, hSweep, rfl⟩ := Mutation.settled_of_map hPrepare
    exact ⟨sweep, rfl, sweep_of_settled hSweep⟩

theorem not_isIdle_of_pending {change : Pending Reply}
    (hPrepare : command.prepare.run store = (.ok (.pending change), after)) :
    ¬ command.IsIdle store.backend.rows change.answer := by
  intro hIdle
  cases command with
  | mutate mutation =>
    cases mutation with
    | create name draft =>
      obtain ⟨found, hFound, rfl⟩ := Mutation.pending_of_map hPrepare
      obtain ⟨slot, hType, rfl, hLive⟩ := hIdle
      exact (Store.prepareCreate_eq_pending hFound).1.not_isLive hType hLive
    | alter type name modifier changes =>
      obtain ⟨found, hFound, rfl⟩ := Mutation.pending_of_map hPrepare
      exact (Store.prepareAlter_eq_ok hFound).mp ⟨found, rfl⟩ hIdle
    | drop type name cascade =>
      obtain ⟨found, hFound, rfl⟩ := Mutation.pending_of_map hPrepare
      rcases Store.prepareDrop_eq_ok hFound with hSettled | ⟨change, hPending, hTrue⟩
      · cases hSettled
      · cases hPending
        have hFalse : found.answer = false := Reply.dropped.inj hIdle
        exact Bool.noConfusion (hTrue.symm.trans hFalse)
  | collect =>
    obtain ⟨found, hFound, rfl⟩ := Mutation.pending_of_map hPrepare
    obtain ⟨sweep, hSame, hNone⟩ := hIdle
    cases hSame
    exact (sweep_of_pending (run_prepareCollect_eq_ok hFound).2).2.2.2 hNone
  | sweep now =>
    obtain ⟨found, hFound, rfl⟩ := Mutation.pending_of_map hPrepare
    obtain ⟨sweep, hSame, hNone⟩ := hIdle
    cases hSame
    exact (sweep_of_pending hFound).2.2.2 hNone

/-- A store that prepares a batch is open, unless it is one to remove old versions. -/
theorem isOpen_of_pending {change : Pending Reply}
    (hPrepare : command.prepare.run store = (.ok (.pending change), after)) :
    (∃ now, command = .sweep now) ∨ store.closed = false := by
  cases command with
  | mutate mutation =>
    refine Or.inr ?_
    cases mutation with
    | create name draft =>
      obtain ⟨found, hFound, _⟩ := Mutation.pending_of_map hPrepare
      exact Store.isOpen_of_run hFound
    | alter type name modifier changes =>
      obtain ⟨found, hFound, _⟩ := Mutation.pending_of_map hPrepare
      exact Store.isOpen_of_run hFound
    | drop type name cascade =>
      obtain ⟨found, hFound, _⟩ := Mutation.pending_of_map hPrepare
      exact Store.isOpen_of_run hFound
  | collect =>
    obtain ⟨found, hFound, _⟩ := Mutation.pending_of_map hPrepare
    exact Or.inr (Store.ensureOpen_eq_ok_iff.mp (run_prepareCollect_eq_ok hFound).1)
  | sweep now => exact Or.inl ⟨now, rfl⟩

end Command

namespace Store

/-- What a command has written, if it was not idle: the batch that it prepared, and nothing else. -/
def WritesOnce (store : Store) (command : Command) (faults : List Call) (after : Store) : Prop :=
  ∃ change middle written,
    command.prepare.run (store.withFaults faults) = (.ok (.pending change), middle) ∧
    middle.backend = (store.withFaults faults).backend ∧
    middle.backend.write change.batch = .ok written ∧
    after.backend.rows = written.rows ∧ store.SurvivesCut change.batch

/-- A command that fails or is idle changes no row, and every other command writes one batch, all
of it or, should a crash cut it off, nothing. -/
theorem Reachable.writes_once {allowed : Store → Prop} {store after : Store}
    (hReached : Reachable allowed store) {command : Command} (hValid : command.IsValid)
    (hOpen : ∀ now, command = .sweep now → store.closed = false) {faults : List Call}
    {outcome : Except StoreError Reply}
    (hRan : command.perform.runDuring faults store = (outcome, after)) :
    match outcome with
    | .error _ => after.backend.rows = store.backend.rows
    | .ok reply =>
      (command.IsIdle store.backend.rows reply → after.backend.rows = store.backend.rows) ∧
      (¬ command.IsIdle store.backend.rows reply → store.WritesOnce command faults after) := by
  have hSteady := hReached.isSteady
  obtain ⟨left, hRun, rfl⟩ := runDuring_eq hRan
  have hGrants : (store.withFaults faults).locks.grants = [] := hSteady.grants
  have hPrepares := command.prepares hGrants
  cases command.completes hGrants hRun with
  | failed leaves => exact leaves.backend.rows
  | settled prepared leaves =>
    have hIdle := Command.isIdle_of_settled hValid prepared
    exact ⟨fun _ => leaves.backend.rows, fun hBusy => absurd hIdle hBusy⟩
  | @written change middle _ backend prepared write keeps _ _ _ _ =>
    have hBusy := Command.not_isIdle_of_pending prepared
    refine ⟨fun hIdle => absurd hIdle hBusy, fun _ => ⟨change, middle, backend, prepared, ?_, ?_,
      keeps.rows, ?_⟩⟩
    · rw [prepared] at hPrepares
      exact hPrepares.backend
    · rw [prepared] at hPrepares
      rw [hPrepares.backend]
      exact write
    · refine survivesCut hSteady ?_ write
      rcases Command.isOpen_of_pending prepared with ⟨now, rfl⟩ | hStillOpen
      · exact hOpen now rfl
      · exact hStillOpen

end Store

/-- The metalake of the sample, whose store has a log, gets its name in one batch, and to make it
once more changes nothing. -/
theorem Sample.writes_once_store :
    store.WritesOnce renameLake [] (renameLake.perform.runDuring [] store).2 ∧
    (∃ journal, store.backend.engine = .journal journal) ∧
    (makeLake.perform.runDuring [] store).2.backend.rows = store.backend.rows := by
  have hOpen : store.closed = false := by decide +kernel
  have hOk : (renameLake.perform.runDuring [] store).1.isOk = true := by decide +kernel
  obtain ⟨reply, hReply⟩ := Outcome.exists_of_isOk hOk
  have hRenamed : renameLake.perform.runDuring [] store =
      (.ok reply, (renameLake.perform.runDuring [] store).2) := by rw [← hReply]
  have hRename := reachable_store.writes_once (by decide +kernel) (fun _ _ => hOpen) hRenamed
  have hTaken : (makeLake.perform.runDuring [] store).1 = .error (.taken .metalake lake) := by
    decide +kernel
  have hRefused : makeLake.perform.runDuring [] store =
      (.error (.taken .metalake lake), (makeLake.perform.runDuring [] store).2) := by rw [← hTaken]
  have hMake := reachable_store.writes_once (by decide +kernel) (fun _ _ => hOpen) hRefused
  have hBusy : ¬ renameLake.IsIdle store.backend.rows reply := List.cons_ne_nil _ _
  refine ⟨hRename.2 hBusy, ?_, hMake⟩
  cases hEngine : store.backend.engine with
  | memory rows closed =>
    have hName : store.backend.name = "log" := by decide +kernel
    rw [Backend.name, hEngine, Storage.Engine.name] at hName
    exact absurd hName (by decide)
  | journal journal => exact ⟨journal, rfl⟩

end VersionedCatalog
