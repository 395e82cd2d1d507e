import VersionedCatalog.Proofs.Formats
import VersionedCatalog.Proofs.Listings

/-! # Closing is final

A backend that was closed refuses requests for good (`Backend.isShut_of_closed`), and so does a
store, whichever calls of its backend fail (`Store.refuses_of_closed`). Two answers do not depend
on whether something is closed: upkeep of rows in memory, which is none (`Backend.refusal`), and
what is listed where no type lives, which is nothing (`Question.refusal`). Neither shows or changes
any rows.

A closed store stays closed unless it is opened again (`Store.GoesOn.isSteady`). It is closed even
if its backend did not close, and then a pass that goes past the store may still remove rows; if the
backend is closed no pass does (`Store.GoesOn.rows_of_shut`).
-/

namespace VersionedCatalog

open Storage (Backend Call Engine Request Response Fault)
open VersionedCatalog.Action

namespace Storage

theorem Engine.close_close (engine : Engine) : engine.close.close = engine.close := by
  cases engine <;> rfl

namespace Backend

/-! ### Backends -/

/-- What a request is answered after the backend was closed. -/
def refusal (backend : Backend) : Request → Except Fault (Response × Backend)
  | .maintain =>
    match backend.engine with
    | .memory _ _ => .ok (.done, backend)
    | .journal _ => .error .closed
  | _ => .error .closed

/-- What a backend is after a request, whatever this is answered. -/
def after (backend : Backend) (request : Request) : Backend :=
  match backend.answer request with
  | .ok (_, after) => after
  | .error _ => backend

/-- A backend that refuses requests for good. -/
structure IsShut (backend : Backend) : Prop where
  answer : ∀ request, backend.answer request = backend.refusal request
  after : ∀ requests : List Request, requests.foldl after backend = backend

section
variable {backend : Backend} (hClosed : backend.isClosed = true) (hFaults : backend.faults = [])
include hClosed

theorem ensureOpen_of_closed : backend.ensureOpen = .error .closed := if_pos hClosed

include hFaults

theorem permit_of_closed (call : Call) : backend.permit call = .error .closed := by
  rw [permit, ensureSound_of_faults hFaults, Outcome.ok_bind, ensureOpen_of_closed hClosed]

theorem write_of_closed (batch : Batch) : backend.write batch = .error .closed := by
  rw [write, permit_of_closed hClosed hFaults]
  rfl

theorem answer_of_closed (request : Request) :
    backend.answer request = backend.refusal request := by
  have hPermit := permit_of_closed hClosed hFaults
  cases request with
  | get key => rw [answer, get, hPermit]; rfl
  | scan stem => rw [answer, scan, hPermit]; rfl
  | last stem => rw [answer, last, hPermit]; rfl
  | put key value => rw [answer, put, write_of_closed hClosed hFaults]; rfl
  | delete key => rw [answer, delete, write_of_closed hClosed hFaults]; rfl
  | write batch => rw [answer, write_of_closed hClosed hFaults]; rfl
  | size => rw [answer, size, ensureOpen_of_closed hClosed]; rfl
  | flush => rw [answer, flush, hPermit]; rfl
  | maintain =>
    obtain ⟨engine, faults⟩ := backend
    cases hFaults
    cases engine with
    | memory rows closed => rfl
    | journal state =>
      have hState : state.closed = true := hClosed
      rw [answer, maintain, Engine.maintain, if_pos hState]
      rfl

theorem after_of_closed (request : Request) : backend.after request = backend := by
  rw [after, answer_of_closed hClosed hFaults]
  cases request with
  | maintain =>
    rw [refusal]
    cases backend.engine <;> rfl
  | _ => rfl

theorem isShut_of_closed : backend.IsShut where
  answer := answer_of_closed hClosed hFaults
  after requests := by
    induction requests with
    | nil => rfl
    | cons request rest ih => rw [List.foldl_cons, after_of_closed hClosed hFaults, ih]

end

/-- Closing goes through, keeps the rows and is final. Closing again changes nothing. -/
theorem exists_isShut (engine : Engine) : ∃ closed, (ofEngine engine).close = .ok closed ∧
    closed.rows = engine.rows ∧ closed.name = engine.name ∧ closed.close = .ok closed ∧
    closed.IsShut := by
  refine ⟨_, close_eq rfl, ?_, ?_, ?_, isShut_of_closed ?_ rfl⟩
  · cases engine <;> rfl
  · cases engine <;> rfl
  · rw [close_eq rfl, Engine.close_close]
  · cases engine <;> rfl

end Backend

end Storage

/-! ### Stores -/

/-- What a question is answered after the store was closed: nothing is asked about namespaces that
are too deep for every type. -/
def Question.refusal : Question → Except StoreError Finding
  | listChildren scope =>
    if 3 < scope.depth then .ok (.names []) else .error (.backend .closed)
  | _ => .error (.backend .closed)

theorem EntityType.atDepth_eq_nil_iff : {n : Nat} → (atDepth n = [] ↔ 3 < n)
  | 0 | 1 | 2 | 3 => by decide
  | n + 4 => by simp [atDepth, all, depth]

namespace Store

/-- A store that refuses whatever it is asked or told to do, whichever calls of its backend fail,
and stays as it is. Closing it again is all right. -/
structure Refuses (store : Store) : Prop where
  ask : ∀ (question : Question) (faults : List Call),
    question.answer (store.withFaults faults) = question.refusal
  mutate : ∀ (mutation : Mutation) (faults : List Call),
    mutation.perform.runDuring faults store = (.error (.backend .closed), store)
  collect : ∀ faults : List Call,
    Store.collect.runDuring faults store = (.error (.backend .closed), store)
  close : ∀ faults : List Call, Store.close.runDuring faults store = (.ok (), store)

/-- What may become of a store that is not opened again. A pass goes past the store if it is run by
a collector that somebody kept. -/
inductive GoesOn (store : Store) : Store → Prop
  | here : GoesOn store store
  | call {later : Store} (command : Command) (faults : List Call) (before : GoesOn store later) :
      GoesOn store (command.perform.runDuring faults later).2
  | tick {later : Store} (time : Millis) (before : GoesOn store later) :
      GoesOn store (later.setClock time)
  | close {later : Store} (faults : List Call) (before : GoesOn store later) :
      GoesOn store (close.runDuring faults later).2

theorem run_bind_pure_of_error {α β : Type} {x : Action α} {f : α → β} {error : StoreError}
    {store after : Store} (hRun : x.run store = (.error error, after)) :
    (do return f (← x) : Action β).run store = (.error error, after) := by
  rw [run_bind_pure, hRun]
  rfl

section
variable {store : Store} (hClosed : store.closed = true)
include hClosed

theorem answer_of_closed (question : Question) : question.answer store = question.refusal := by
  have hShut := ensureOpen_of_closed hClosed
  cases question with
  | load type name => rw [Question.answer, load_of_closed hClosed]; rfl
  | contains type name => rw [Question.answer, contains, load_of_closed hClosed]; rfl
  | loadById id => rw [Question.answer, loadById, hShut]; rfl
  | list scope type => rw [Question.answer, list_of_closed hClosed]; rfl
  | listChildren scope =>
    rw [Question.answer, Question.refusal]
    split
    next hDeep => rw [listChildren, EntityType.atDepth_eq_nil_iff.mpr hDeep]; rfl
    next hShallow =>
      obtain ⟨type, hType⟩ :=
        List.exists_mem_of_ne_nil _ (mt EntityType.atDepth_eq_nil_iff.mp hShallow)
      rw [listChildren_of_closed hClosed (EntityType.mem_atDepth_iff.mp hType).symm]
      rfl
  | versions type name => rw [Question.answer, versions, hShut]; rfl

variable {α β : Type}

/-- What begins by checking that the store is open ends there in a store that is not. -/
theorem run_ensureOpen_bind_of_closed {look : Store → Unit → Except StoreError β}
    {rest : β → Action α} :
    (inspect (fun store => store.ensureOpen >>= look store) >>= rest).run store =
      (.error (.backend .closed), store) := by
  refine run_inspect_bind_of_error ?_
  rw [ensureOpen_of_closed hClosed]
  rfl

theorem run_perform_of_closed (mutation : Mutation) :
    mutation.perform.run store = (.error (.backend .closed), store) := by
  have hPrepare : mutation.prepare.run store = (.error (.backend .closed), store) := by
    cases mutation with
    | create name draft => exact run_bind_pure_of_error (run_ensureOpen_bind_of_closed hClosed)
    | alter type name modifier changes =>
      exact run_bind_pure_of_error (run_ensureOpen_bind_of_closed hClosed)
    | drop type name cascade =>
      exact run_bind_pure_of_error (run_ensureOpen_bind_of_closed hClosed)
  rw [Mutation.run_perform, run_complete, hPrepare]

theorem run_collect_of_closed : collect.run store = (.error (.backend .closed), store) := by
  rw [collect, run_complete, run_prepareCollect, ensureOpen_of_closed hClosed]

theorem run_close_of_closed : close.run store = (.ok (), store) := by
  rw [close, run_bind, run_get]
  simp only [hClosed, if_true]
  rfl

end

/-- Calls that fail leave no trace in a store that an action does not change. -/
theorem IsSteady.runDuring_of_unchanged {α : Type} {x : Action α} {store : Store}
    (hSteady : store.IsSteady) {faults : List Call} {outcome : Except StoreError α}
    (hRun : x.run (store.withFaults faults) = (outcome, store.withFaults faults)) :
    x.runDuring faults store = (outcome, store) := by
  rw [runDuring, hRun]
  exact congrArg (Prod.mk outcome) (withFaults_nil hSteady)

theorem refuses_of_closed {store : Store} (hSteady : store.IsSteady)
    (hClosed : store.closed = true) : store.Refuses := by
  have hStill : ∀ faults, (store.withFaults faults).closed = true := fun _ => hClosed
  exact {
    ask := fun question faults => answer_of_closed (hStill faults) question
    mutate := fun mutation faults =>
      hSteady.runDuring_of_unchanged (run_perform_of_closed (hStill faults) mutation)
    collect := fun faults => hSteady.runDuring_of_unchanged (run_collect_of_closed (hStill faults))
    close := fun faults => hSteady.runDuring_of_unchanged (run_close_of_closed (hStill faults)) }

/-! ### Whatever comes later -/

section
variable {command : Command} {store after : Store} {outcome : Except StoreError Reply}
  (hCompletes : command.Completes store outcome after)
include hCompletes

/-- No command closes a store or opens it. -/
theorem closed_of_completes : after.closed = store.closed := by
  cases hCompletes with
  | failed leaves => exact leaves.closed
  | settled _ leaves => exact leaves.closed
  | written _ _ _ _ closed => exact closed

/-- No command changes rows of a backend that is closed. -/
theorem rows_of_completes (hShut : store.backend.isClosed = true) :
    after.backend.isClosed = true ∧ after.backend.rows = store.backend.rows := by
  cases hCompletes with
  | failed leaves => exact ⟨leaves.isClosed.trans hShut, leaves.backend.rows⟩
  | settled _ leaves => exact ⟨leaves.isClosed.trans hShut, leaves.backend.rows⟩
  | written _ write =>
    -- A backend that takes a batch is open.
    obtain ⟨_, hPermit, _⟩ := Outcome.bind_eq_ok write
    exact absurd (hShut.symm.trans (Backend.permit_eq_ok hPermit)) Bool.noConfusion

end

namespace GoesOn

variable {store later : Store}

/-- What becomes of a closed store is closed. -/
theorem isSteady (hGoes : store.GoesOn later) (hSteady : store.IsSteady)
    (hClosed : store.closed = true) : later.IsSteady ∧ later.closed = true := by
  induction hGoes with
  | here => exact ⟨hSteady, hClosed⟩
  | @call later command faults _ ih =>
    obtain ⟨hBefore, hStill⟩ := ih
    -- A pass by a kept collector does not ask the store, so this is about commands in general.
    have hCompletes := command.completes (hBefore.withFaults faults).1 (Prod.eta _).symm
    exact ⟨hBefore.perform command faults, (closed_of_completes hCompletes).trans hStill⟩
  | tick time _ ih => exact ⟨⟨ih.1.grants, ih.1.faithful, ih.1.faults, ih.1.isOpen⟩, ih.2⟩
  | close faults _ ih =>
    rw [(refuses_of_closed ih.1 ih.2).close faults]
    exact ih

/-- If the backend is closed as well, no pass that goes past the store changes rows. -/
theorem rows_of_shut (hGoes : store.GoesOn later) (hSteady : store.IsSteady)
    (hClosed : store.closed = true) (hShut : store.backend.isClosed = true) :
    later.backend.isClosed = true ∧ later.backend.rows = store.backend.rows := by
  induction hGoes with
  | here => exact ⟨hShut, rfl⟩
  | call command faults before ih =>
    have hBefore := (before.isSteady hSteady hClosed).1
    have hCompletes := command.completes (hBefore.withFaults faults).1 (Prod.eta _).symm
    obtain ⟨hAfter, hRows⟩ := rows_of_completes hCompletes ih.1
    exact ⟨hAfter, hRows.trans ih.2⟩
  | tick time _ ih => exact ih
  | close faults before ih =>
    obtain ⟨hBefore, hStill⟩ := before.isSteady hSteady hClosed
    rw [(refuses_of_closed hBefore hStill).close faults]
    exact ih

end GoesOn

/-- **Closing is final.**  Wherever a store is closed, and whether or not its backend then closes,
it keeps its rows. From then on it refuses every mutation, every pass that it is asked for and every
question but what is in a namespace where no type lives, and nothing changes by that; closing it
again is all right. If the backend is closed, not even a pass that goes past the store changes rows.
A backend that is closed keeps its rows and its name and refuses every request, however many were
made, but upkeep of rows in memory, which does nothing. -/
theorem Reachable.closes_for_good {allowed : Store → Prop} {store closed later : Store}
    {faults : List Call} {outcome : Except StoreError Unit} (hReached : Reachable allowed store)
    (hClose : Store.close.runDuring faults store = (outcome, closed))
    (hLater : closed.GoesOn later) :
    closed.backend.rows = store.backend.rows ∧ later.Refuses ∧
      (closed.backend.isClosed = true → later.backend.rows = store.backend.rows) ∧
      ∀ engine, ∃ shut, (Backend.ofEngine engine).close = .ok shut ∧ shut.rows = engine.rows ∧
        shut.name = engine.name ∧ shut.close = .ok shut ∧ shut.IsShut := by
  have hSteady : closed.IsSteady := by
    have hAfter := hReached.isSteady.close faults
    rwa [hClose] at hAfter
  obtain ⟨left, hRun, rfl⟩ := runDuring_eq hClose
  obtain ⟨hKeeps, hClosed, _⟩ := close_eq hRun
  have hRows : (left.withFaults []).backend.rows = store.backend.rows := hKeeps.rows
  obtain ⟨hStill, hStillClosed⟩ := hLater.isSteady hSteady hClosed
  refine ⟨hRows, refuses_of_closed hStill hStillClosed, fun hShut => ?_, Backend.exists_isShut⟩
  exact (hLater.rows_of_shut hSteady hClosed hShut).2.trans hRows

end Store

namespace Sample

/-- A store with a metalake and a catalog that was closed. -/
def shutStore : Store := (Store.close.runDuring [] store).2

/-- Not even a pass at the end of time, by a collector that somebody kept, takes anything from a
store that was closed. -/
theorem closes_for_good_shutStore :
    shutStore.backend.isClosed = true ∧
    ((Command.sweep Millis.last).perform.runDuring [] shutStore).2.backend.rows =
      store.backend.rows ∧
    ((Command.sweep Millis.last).perform.runDuring [] shutStore).2.Refuses ∧
    ∃ shut, (Backend.ofEngine store.backend.engine).close = .ok shut ∧
      shut.rows = store.backend.engine.rows ∧ shut.answer .size = .error .closed := by
  have hShut : shutStore.backend.isClosed = true := by decide +kernel
  have hClose : Store.close.runDuring [] store =
      ((Store.close.runDuring [] store).1, shutStore) := (Prod.eta _).symm
  obtain ⟨_, hRefuses, hRows, hEngines⟩ :=
    reachable_store.closes_for_good hClose (.call (.sweep Millis.last) [] .here)
  obtain ⟨shut, hBackend, hKept, _, _, hFinal⟩ := hEngines store.backend.engine
  exact ⟨hShut, hRows hShut, hRefuses, shut, hBackend, hKept, hFinal.answer .size⟩

/-- A closed store still says that nothing is in a deep namespace, and rows in memory that were
closed are still given upkeep. -/
theorem not_always_refused :
    (¬ ∀ (before closed : Store) (outcome : Except StoreError Unit),
      Store.Reachable Store.InTime before →
      Store.close.runDuring [] before = (outcome, closed) →
      ∀ scope, closed.listChildren scope = .error (.backend .closed)) ∧
    ¬ ∀ backend closed : Backend, backend.faults = [] → backend.close = .ok closed →
      closed.maintain = .error .closed := by
  have hNothing : ∀ store : Store, store.listChildren ⟨["a", "b", "c", "d"]⟩ = .ok [] :=
    fun _ => rfl
  constructor
  · intro hRefused
    have hListed := hRefused store _ _ reachable_store (Prod.eta _).symm ⟨["a", "b", "c", "d"]⟩
    rw [hNothing] at hListed
    cases hListed
  · intro hRefused
    have hKept := hRefused (.inMemory ∅) _ rfl rfl
    cases hKept

end Sample

end VersionedCatalog
