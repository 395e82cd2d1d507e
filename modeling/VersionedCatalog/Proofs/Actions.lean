import VersionedCatalog.Proofs.Outcomes
import VersionedCatalog.Proofs.Stamps
import VersionedCatalog.Store.Creation

/-! # How actions run

Every way of putting actions together has an equation that says how the whole runs
(`Action.run_bind`, `Store.run_underLocks`, `Store.run_commit`). Most actions of the catalog are
quiet: whatever comes of them, they draw ids and give out stamps at most (`Action.IsQuiet`). What
is read by a quiet action is therefore read in one state of the rows.
-/

namespace VersionedCatalog

namespace Action

variable {α β : Type}

@[simp] theorem run_pure (a : α) (store : Store) : (pure a : Action α).run store = (.ok a, store) :=
  rfl

@[simp] theorem run_throw (error : StoreError) (store : Store) :
    (throw error : Action α).run store = (.error error, store) := rfl

@[simp] theorem run_get (store : Store) : (get : Action Store).run store = (.ok store, store) := rfl

@[simp] theorem run_set (next store : Store) :
    (set next : Action Unit).run store = (.ok (), next) := rfl

@[simp] theorem run_modify (step : Store → Store) (store : Store) :
    (modify step : Action Unit).run store = (.ok (), step store) := rfl

theorem run_bind (x : Action α) (f : α → Action β) (store : Store) :
    (x >>= f).run store = match x.run store with
      | (.ok a, after) => (f a).run after
      | (.error error, after) => (.error error, after) := by
  show (match x store with
    | (found, after) =>
      (ExceptT.bindCont f found : StateM Store (Except StoreError β)) after) = _
  show _ = match x store with
      | (.ok a, after) => (f a).run after
      | (.error error, after) => (.error error, after)
  generalize x store = outcome
  obtain ⟨found, after⟩ := outcome
  cases found <;> rfl

theorem run_tryCatch (x : Action α) (handle : StoreError → Action α) (store : Store) :
    (tryCatch x handle : Action α).run store = match x.run store with
      | (.ok a, after) => (.ok a, after)
      | (.error error, after) => (handle error).run after := by
  unfold Action.run
  simp only [tryCatch, tryCatchThe, MonadExceptOf.tryCatch, ExceptT.tryCatch, ExceptT.run,
    ExceptT.mk, bind, StateT.bind, StateT.run]
  generalize x store = outcome
  obtain ⟨found, after⟩ := outcome
  cases found <;> rfl

theorem run_inspect (look : Store → Except StoreError α) (store : Store) :
    (inspect look).run store = (look store, store) := by
  rw [inspect, run_bind, run_get]
  cases hLook : look store with
  | error error => simp only [hLook, run_throw]
  | ok answer => simp only [hLook, run_pure]

section
variable {x : Action α} {f : α → Action β} {store after : Store} {a : α} {b : β}

/-- A chain of actions succeeds when both parts do. -/
theorem bind_run_eq_ok (hRun : (x >>= f).run store = (.ok b, after)) :
    ∃ a middle, x.run store = (.ok a, middle) ∧ (f a).run middle = (.ok b, after) := by
  rw [run_bind] at hRun
  generalize x.run store = outcome at hRun
  obtain ⟨found, middle⟩ := outcome
  cases found with
  | error error => cases (Prod.mk.inj hRun).1
  | ok a => exact ⟨a, middle, rfl, hRun⟩

theorem inspect_run_eq_ok {look : Store → Except StoreError α}
    (hRun : (inspect look).run store = (.ok a, after)) : look store = .ok a ∧ after = store := by
  rw [run_inspect] at hRun
  obtain ⟨hLook, hStore⟩ := Prod.mk.inj hRun
  exact ⟨hLook, hStore.symm⟩

/-- What follows an inspection that succeeds runs in the same state. -/
theorem inspect_bind_run_eq_ok {look : Store → Except StoreError α}
    (hRun : (inspect look >>= f).run store = (.ok b, after)) :
    ∃ a, look store = .ok a ∧ (f a).run store = (.ok b, after) := by
  obtain ⟨a, middle, hLook, hRest⟩ := bind_run_eq_ok hRun
  obtain ⟨hOk, rfl⟩ := inspect_run_eq_ok hLook
  exact ⟨a, hOk, hRest⟩

theorem run_bind_of_ok {middle : Store} (hRun : x.run store = (.ok a, middle)) :
    (x >>= f).run store = (f a).run middle := by
  rw [run_bind, hRun]

theorem run_inspect_bind_of_ok {look : Store → Except StoreError α} (hLook : look store = .ok a) :
    (inspect look >>= f).run store = (f a).run store := by
  rw [run_bind, run_inspect, hLook]

theorem run_inspect_bind_of_error {look : Store → Except StoreError α} {error : StoreError}
    (hLook : look store = .error error) :
    (inspect look >>= f).run store = (.error error, store) := by
  rw [run_bind, run_inspect, hLook]

end

end Action

/-- What a source of ids is after some ids were drawn from it. -/
inductive IdSource.Yields : IdSource → List EntityId → IdSource → Prop
  | nothing (source : IdSource) : Yields source [] source
  | next {source rest last : IdSource} {id : EntityId} {drawn : List EntityId}
      (draw : source.draw? = some (id, rest)) (others : Yields rest drawn last) :
      Yields source (id :: drawn) last

theorem IdSource.Yields.append {a b c : IdSource} {first second : List EntityId}
    (hFirst : Yields a first b) (hSecond : Yields b second c) : Yields a (first ++ second) c := by
  induction hFirst with
  | nothing => exact hSecond
  | next draw _ ih => exact .next draw (ih hSecond)

/-- Whether a source is what another one is after some ids were drawn. -/
def IdSource.Follows (after before : IdSource) : Prop := ∃ drawn, Yields before drawn after

theorem IdSource.Follows.refl (source : IdSource) : source.Follows source := ⟨[], .nothing source⟩

theorem IdSource.Follows.trans {a b c : IdSource} (hSecond : Follows c b) (hFirst : Follows b a) :
    Follows c a := by
  obtain ⟨first, hYields⟩ := hFirst
  obtain ⟨second, hOthers⟩ := hSecond
  exact ⟨first ++ second, hYields.append hOthers⟩

namespace Store

/-- Two states of a store between which at most ids were drawn and stamps given out. -/
structure Draws (before after : Store) : Prop where
  ids : after.ids.Follows before.ids
  backend : after.backend = before.backend
  settings : after.settings = before.settings
  clock : after.clock = before.clock
  locks : after.locks = before.locks
  watermark : after.watermark = before.watermark
  closed : after.closed = before.closed

theorem Draws.refl (store : Store) : Draws store store :=
  ⟨.refl store.ids, rfl, rfl, rfl, rfl, rfl, rfl⟩

theorem Draws.trans {a b c : Store} (hFirst : Draws a b) (hSecond : Draws b c) : Draws a c :=
  ⟨hSecond.ids.trans hFirst.ids, hSecond.backend.trans hFirst.backend,
    hSecond.settings.trans hFirst.settings, hSecond.clock.trans hFirst.clock,
    hSecond.locks.trans hFirst.locks, hSecond.watermark.trans hFirst.watermark,
    hSecond.closed.trans hFirst.closed⟩

end Store

namespace Action

variable {α β : Type}

/-- Whatever comes of a quiet action, it draws ids and gives out stamps at most. -/
def IsQuiet (x : Action α) : Prop := ∀ store : Store, store.Draws (x.run store).2

theorem isQuiet_pure (a : α) : IsQuiet (pure a : Action α) := fun store => .refl store

theorem isQuiet_throw (error : StoreError) : IsQuiet (throw error : Action α) := fun store =>
  .refl store

theorem isQuiet_get : IsQuiet (get : Action Store) := fun store => .refl store

theorem isQuiet_inspect (look : Store → Except StoreError α) : IsQuiet (inspect look) := by
  intro store
  rw [run_inspect]
  exact .refl store

theorem IsQuiet.bind {x : Action α} {f : α → Action β} (hFirst : IsQuiet x)
    (hRest : ∀ a, IsQuiet (f a)) : IsQuiet (x >>= f) := by
  intro store
  have hBefore := hFirst store
  rw [run_bind]
  generalize x.run store = outcome at hBefore
  obtain ⟨found, middle⟩ := outcome
  cases found with
  | error error => exact hBefore
  | ok a => exact hBefore.trans (hRest a middle)

theorem IsQuiet.draws {x : Action α} (hQuiet : IsQuiet x) {store after : Store}
    {outcome : Except StoreError α} (hRun : x.run store = (outcome, after)) :
    store.Draws after := by
  have hDraws := hQuiet store
  rwa [hRun] at hDraws

end Action

namespace Store

open VersionedCatalog.Action

variable {α : Type}

theorem ensureOpen_eq_ok_iff {store : Store} : store.ensureOpen = .ok () ↔ store.closed = false := by
  unfold ensureOpen
  cases store.closed <;> simp

theorem ensureOpen_of_closed {store : Store} (hClosed : store.closed = true) :
    store.ensureOpen = .error (.backend .closed) := if_pos hClosed

theorem ensureOpen_congr {store other : Store} (hClosed : other.closed = store.closed) :
    other.ensureOpen = store.ensureOpen := by
  rw [ensureOpen, ensureOpen, hClosed]

/-- What begins by checking that the store is open succeeds in a store that is. -/
theorem isOpen_of_run {β : Type} {look : Store → Unit → Except StoreError β} {rest : β → Action α}
    {store after : Store} {a : α}
    (hRun : (inspect (fun store => store.ensureOpen >>= look store) >>= rest).run store =
      (.ok a, after)) : store.closed = false := by
  obtain ⟨_, hChecked, _⟩ := inspect_bind_run_eq_ok hRun
  obtain ⟨_, hEnsure, _⟩ := Outcome.bind_eq_ok hChecked
  exact ensureOpen_eq_ok_iff.mp hEnsure

/-! ### Stamps and ids -/

theorem run_issueStamp (latest : Option Stamp) (store : Store) :
    (issueStamp latest).run store =
      match Stamp.next store.settings.skewMillis store.clock store.lastStamp latest with
      | .error skew => (.error (.skew skew), store)
      | .ok stamp => (.ok stamp, { store with lastStamp := stamp }) := by
  rw [issueStamp, run_bind, run_get]
  show (match Stamp.next store.settings.skewMillis store.clock store.lastStamp latest with
    | .error skew => throw (.skew skew)
    | .ok stamp => do
      set { store with lastStamp := stamp }
      return stamp : Action Stamp).run store = _
  cases Stamp.next store.settings.skewMillis store.clock store.lastStamp latest <;> rfl

theorem isQuiet_issueStamp (latest : Option Stamp) : IsQuiet (issueStamp latest) := by
  intro store
  rw [run_issueStamp]
  split
  next => exact .refl store
  next => exact ⟨.refl store.ids, rfl, rfl, rfl, rfl, rfl, rfl⟩

/-- Whether a stamp is the next that a store gives out, for what has to come after `floor`. -/
def Issues (store : Store) (floor : Option Stamp) (stamp : Stamp) : Prop :=
  Stamp.next store.settings.skewMillis store.clock store.lastStamp floor = .ok stamp

/-- A stamp that is given out is the last one from then on, and nothing else changes. -/
theorem run_issueStamp_iff {floor : Option Stamp} {store after : Store} {stamp : Stamp} :
    (issueStamp floor).run store = (.ok stamp, after) ↔
      store.Issues floor stamp ∧ after = { store with lastStamp := stamp } := by
  rw [run_issueStamp, Issues]
  cases Stamp.next store.settings.skewMillis store.clock store.lastStamp floor with
  | error skew => simp
  | ok issued =>
    simp only [Prod.mk.injEq, Except.ok.injEq]
    constructor
    · rintro ⟨rfl, rfl⟩
      exact ⟨rfl, rfl⟩
    · rintro ⟨rfl, rfl⟩
      exact ⟨rfl, rfl⟩

theorem run_drawId (store : Store) :
    drawId.run store = match store.ids.draw? with
      | none => (.error .noMoreIds, store)
      | some (id, ids) => (.ok id, { store with ids }) := by
  rw [drawId, run_bind, run_get]
  show (match store.ids.draw? with
    | none => throw .noMoreIds
    | some (id, ids) => do
      set { store with ids }
      return id : Action EntityId).run store = _
  cases store.ids.draw? <;> rfl

theorem drawId_eq_ok {store after : Store} {id : EntityId}
    (hRun : drawId.run store = (.ok id, after)) :
    ∃ ids, store.ids.draw? = some (id, ids) ∧ after = { store with ids } := by
  rw [run_drawId] at hRun
  split at hRun
  next => cases hRun
  next drawn ids hDraw =>
    cases hRun
    exact ⟨ids, hDraw, rfl⟩

theorem run_drawId_of_draw {store : Store} {id : EntityId} {ids : IdSource}
    (hDraw : store.ids.draw? = some (id, ids)) :
    drawId.run store = (.ok id, { store with ids }) := by
  rw [run_drawId, hDraw]

theorem isQuiet_drawId : IsQuiet drawId := by
  intro store
  rw [run_drawId]
  split
  next => exact .refl store
  next id ids hDraw => exact ⟨⟨[id], .next hDraw (.nothing ids)⟩, rfl, rfl, rfl, rfl, rfl, rfl⟩

theorem isQuiet_freeId (attempts : Nat) : IsQuiet (freeId attempts) := by
  induction attempts with
  | zero => exact isQuiet_throw _
  | succ attempts ih =>
    refine isQuiet_drawId.bind fun id => (isQuiet_inspect _).bind fun found => ?_
    split
    next => exact isQuiet_pure _
    next => exact ih

theorem isQuiet_chooseId (requested : Option EntityId) (stem : Bytes) :
    IsQuiet (chooseId requested stem) := by
  cases requested with
  | none => exact isQuiet_freeId _
  | some id => exact (isQuiet_inspect _).bind fun _ => isQuiet_pure _

/-- Drawing ids gives out no stamp. -/
theorem lastStamp_freeId (attempts : Nat) (store : Store) :
    ((freeId attempts).run store).2.lastStamp = store.lastStamp := by
  induction attempts generalizing store with
  | zero => rfl
  | succ attempts ih =>
    rw [freeId, run_bind, run_drawId]
    cases store.ids.draw? with
    | none => rfl
    | some drawn =>
      simp only [run_bind, run_inspect]
      cases Catalog.indexed? store.backend drawn.1 with
      | error error => rfl
      | ok found =>
        cases found with
        | none => rfl
        | some owner => exact ih _

theorem lastStamp_chooseId {requested : Option EntityId} {stem : Bytes} {store after : Store}
    {id : EntityId} (hRun : (chooseId requested stem).run store = (.ok id, after)) :
    after.lastStamp = store.lastStamp := by
  cases requested with
  | none =>
    have hSame := lastStamp_freeId idAttempts store
    have hFree : (freeId idAttempts).run store = (.ok id, after) := hRun
    rwa [hFree] at hSame
  | some wanted =>
    obtain ⟨_, _, hLast⟩ := inspect_bind_run_eq_ok hRun
    cases hLast
    rfl

/-! ### Preparing under locks, and committing -/

theorem run_underLocks (paths : List Path) (body : Nat → Action (Prepared α)) (store : Store) :
    (underLocks paths body).run store = match store.locks.acquire paths with
      | (.error timeout, locks) => (.error (.timeout timeout), { store with locks })
      | (.ok grant, locks) => match (body grant.ticket).run { store with locks } with
        | (.ok (.pending change), after) => (.ok (.pending change), after)
        | (.ok (.settled answer), after) => (.ok (.settled answer), after.release grant.ticket)
        | (.error error, after) => (.error error, after.release grant.ticket) := by
  rw [underLocks, run_bind, run_get]
  generalize hAcquire : store.locks.acquire paths = acquired
  obtain ⟨granted, locks⟩ := acquired
  simp only [hAcquire]
  cases granted with
  | error timeout => rfl
  | ok grant =>
    rw [run_bind, run_set]
    simp only [run_tryCatch, run_bind]
    generalize (body grant.ticket).run { store with locks } = outcome
    obtain ⟨found, after⟩ := outcome
    cases found with
    | error error => rfl
    | ok prepared => cases prepared <;> rfl

theorem run_commit (change : Pending α) (store : Store) :
    (commit change).run store = match store.backend.write change.batch with
      | .error fault => (.error (.backend fault), store.releaseTicket change.ticket)
      | .ok backend =>
        let written :=
          ({ store with backend }.raiseWatermark change.assigned).releaseTicket change.ticket
        (.ok change.answer, if change.upkeep then written.tidy else written) := by
  rw [commit, run_bind, run_get]
  generalize hWrite : store.backend.write change.batch = written
  simp only [hWrite]
  cases written <;> rfl

theorem run_complete (prepare : Action (Prepared α)) (store : Store) :
    (complete prepare).run store = match prepare.run store with
      | (.ok (.settled answer), after) => (.ok answer, after)
      | (.ok (.pending change), after) => (commit change).run after
      | (.error error, after) => (.error error, after) := by
  rw [complete, run_bind]
  generalize prepare.run store = outcome
  obtain ⟨found, after⟩ := outcome
  cases found with
  | error error => rfl
  | ok prepared => cases prepared <;> rfl

end Store

end VersionedCatalog
