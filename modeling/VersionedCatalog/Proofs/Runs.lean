import VersionedCatalog.Proofs.Commands
import VersionedCatalog.Store.Opening

/-! # Runs of a store

A store starts where nothing was ever written. Commands are carried out one after another, calls of
the backend fail now and then, the clock is set, and the store is closed and opened again
(`Store.Reachable`). Between commands no locks are held (`Reachable.isSteady`), and as long as the
last stamp is not given out the rows are sound (`Reachable.isSound`).
-/

namespace VersionedCatalog

open Storage (Rows Backend Call Medium Provider)
open VersionedCatalog.Action

namespace Store

/-- The store while some calls of its backend fail. -/
def withFaults (store : Store) (faults : List Call) : Store :=
  { store with backend := store.backend.withFaults faults }

/-- The last stamp was not given out. -/
def InTime (store : Store) : Prop := store.lastStamp ≠ .last

instance (store : Store) : Decidable store.InTime := inferInstanceAs (Decidable (_ ≠ _))

end Store

/-- Runs an action while some calls of the backend fail. -/
def Action.runDuring {α : Type} (faults : List Call) (action : Action α) (store : Store) :
    Except StoreError α × Store :=
  let (outcome, after) := action.run (store.withFaults faults)
  (outcome, after.withFaults [])

theorem Action.runDuring_bind_pure {α β : Type} (faults : List Call) (x : Action α) (f : α → β)
    (store : Store) : (do return f (← x) : Action β).runDuring faults store =
      ((x.runDuring faults store).1.map f, (x.runDuring faults store).2) := by
  rw [runDuring, run_bind_pure]
  rfl

namespace Store

/-- The states that are reached through states that are allowed. -/
inductive Reachable (allowed : Store → Prop) : Store → Prop
  | start {provider : Provider} {path : String} {threshold : Nat} {backend : Backend}
      {left : Medium} {settings : Settings} {ids : IdSource} {clock : Millis} {store : Store}
      (opened : (Medium.ofRows ∅).openBackend provider path threshold = (.ok backend, left))
      (made : ofBackend backend settings ids clock = .ok store) (hAllowed : allowed store) :
      Reachable allowed store
  | call {store after : Store} {outcome : Except StoreError Reply} (command : Command)
      (faults : List Call) (valid : command.IsValid) (before : Reachable allowed store)
      (ran : command.perform.runDuring faults store = (outcome, after)) (hAllowed : allowed after) :
      Reachable allowed after
  | tick {store : Store} (time : Millis) (before : Reachable allowed store)
      (hAllowed : allowed (store.setClock time)) : Reachable allowed (store.setClock time)
  | close {store after : Store} {outcome : Except StoreError Unit} (faults : List Call)
      (before : Reachable allowed store)
      (ran : close.runDuring faults store = (outcome, after)) (hAllowed : allowed after) :
      Reachable allowed after
  | reopen {store after : Store} {backend : Backend} {settings : Settings} {ids : IdSource}
      {clock : Millis} (before : Reachable allowed store)
      (opened : store.backend.Reopens backend)
      (made : ofBackend backend settings ids clock = .ok after) (hAllowed : allowed after) :
      Reachable allowed after

/-- What a store is like between commands. -/
structure IsSteady (store : Store) : Prop where
  grants : store.locks.grants = []
  faithful : store.backend.IsFaithful
  faults : store.backend.faults = []
  isOpen : store.closed = false → store.backend.isClosed = false

theorem ofBackend_eq_ok {backend : Backend} {settings : Settings} {ids : IdSource} {clock : Millis}
    {store : Store} (hOk : ofBackend backend settings ids clock = .ok store) :
    ∃ watermark, store = fresh backend settings ids clock watermark := by
  obtain ⟨_, _, hRest⟩ := Outcome.bind_eq_ok hOk
  obtain ⟨watermark, _, hLast⟩ := Outcome.bind_eq_ok hRest
  exact ⟨watermark, (Except.ok.inj hLast).symm⟩

theorem backend_ofBackend {backend : Backend} {settings : Settings} {ids : IdSource}
    {clock : Millis} {store : Store} (hOk : ofBackend backend settings ids clock = .ok store) :
    store.backend = backend := by
  obtain ⟨watermark, rfl⟩ := ofBackend_eq_ok hOk
  rfl

theorem isSteady_ofBackend {backend : Backend} (hFresh : backend.IsFresh) {settings : Settings}
    {ids : IdSource} {clock : Millis} {store : Store}
    (hOk : ofBackend backend settings ids clock = .ok store) : store.IsSteady := by
  obtain ⟨watermark, rfl⟩ := ofBackend_eq_ok hOk
  exact ⟨rfl, hFresh.faithful, hFresh.faults, fun _ => hFresh.isOpen⟩

theorem runDuring_eq {α : Type} {faults : List Call} {action : Action α} {store after : Store}
    {outcome : Except StoreError α} (hRun : action.runDuring faults store = (outcome, after)) :
    ∃ left, action.run (store.withFaults faults) = (outcome, left) ∧ after = left.withFaults [] := by
  rw [runDuring] at hRun
  generalize action.run (store.withFaults faults) = ran at hRun
  obtain ⟨found, left⟩ := ran
  cases hRun
  exact ⟨left, rfl, rfl⟩

theorem withFaults_runDuring {α : Type} (faults : List Call) (action : Action α) (store : Store) :
    (action.runDuring faults store).2.withFaults [] = (action.runDuring faults store).2 := rfl

/-- What changes no rows while calls fail changes no rows. -/
theorem rows_of_runDuring {faults : List Call} {store left : Store}
    (hSame : left.backend = (store.withFaults faults).backend) :
    (left.withFaults []).backend.rows = store.backend.rows := by
  have hRows := congrArg Backend.rows hSame
  exact hRows

theorem IsSteady.withFaults {store : Store} (hSteady : store.IsSteady) (faults : List Call) :
    (store.withFaults faults).locks.grants = [] ∧ (store.withFaults faults).backend.IsFaithful ∧
      ((store.withFaults faults).closed = false →
        (store.withFaults faults).backend.isClosed = false) :=
  ⟨hSteady.grants, Backend.isFaithful_withFaults hSteady.faithful faults, hSteady.isOpen⟩

/-- Between commands no calls fail. -/
theorem withFaults_nil {store : Store} (hSteady : store.IsSteady) : store.withFaults [] = store := by
  rw [Store.withFaults, Backend.withFaults, ← hSteady.faults]

theorem isSteady_completes {command : Command} {store after : Store}
    {outcome : Except StoreError Reply} (hCompletes : command.Completes store outcome after)
    (hFaithful : store.backend.IsFaithful)
    (hOpen : store.closed = false → store.backend.isClosed = false) :
    (after.withFaults []).IsSteady := by
  have hLeaves : Leaves store after → (after.withFaults []).IsSteady := fun hLeaves =>
    ⟨hLeaves.grants, Backend.isFaithful_withFaults (hLeaves.backend.faithful hFaithful) [], rfl,
      fun hClosed => hLeaves.isClosed.trans (hOpen (hLeaves.closed ▸ hClosed))⟩
  cases hCompletes with
  | failed leaves => exact hLeaves leaves
  | settled prepared leaves => exact hLeaves leaves
  | written prepared write keeps isOpen closed grants stamp =>
    have hWritten := (Backend.write_eq_ok write).2.2.2 hFaithful
    exact ⟨grants, Backend.isFaithful_withFaults (keeps.faithful hWritten) [], rfl,
      fun _ => isOpen⟩

theorem close_eq {store after : Store} {outcome : Except StoreError Unit}
    (hRun : close.run store = (outcome, after)) :
    Backend.KeepsRows store.backend after.backend ∧ after.closed = true ∧
      after.locks = store.locks ∧ after.lastStamp = store.lastStamp ∧ after.ids = store.ids ∧
      after.watermark = store.watermark := by
  rw [close, run_bind, run_get] at hRun
  simp only at hRun
  split at hRun
  next hClosed => cases hRun; exact ⟨.refl _, hClosed, rfl, rfl, rfl, rfl⟩
  next =>
    rw [run_bind, run_set] at hRun
    simp only at hRun
    cases hFlush : store.backend.flush with
    | error fault => rw [hFlush] at hRun; cases hRun; exact ⟨.refl _, rfl, rfl, rfl, rfl, rfl⟩
    | ok _ =>
      rw [hFlush] at hRun
      cases hClose : store.backend.close with
      | error fault => simp only [hClose] at hRun; cases hRun; exact ⟨.refl _, rfl, rfl, rfl, rfl, rfl⟩
      | ok backend =>
        simp only [hClose] at hRun
        cases hRun
        exact ⟨Backend.close_eq_ok hClose, rfl, rfl, rfl, rfl, rfl⟩

theorem Reachable.isSteady {allowed : Store → Prop} {store : Store}
    (hReached : Reachable allowed store) : store.IsSteady := by
  induction hReached with
  | start opened made _ => exact isSteady_ofBackend (Backend.openBackend_empty opened).2 made
  | call command faults _ _ ran _ ih =>
    obtain ⟨left, hRun, rfl⟩ := runDuring_eq ran
    obtain ⟨hGrants, hFaithful, hOpen⟩ := ih.withFaults faults
    exact isSteady_completes (command.completes hGrants hRun) hFaithful hOpen
  | tick time _ _ ih => exact ⟨ih.grants, ih.faithful, ih.faults, ih.isOpen⟩
  | close faults _ ran _ ih =>
    obtain ⟨left, hRun, rfl⟩ := runDuring_eq ran
    obtain ⟨hGrants, hFaithful, _⟩ := ih.withFaults faults
    obtain ⟨hKeeps, hClosed, hLocks, _⟩ := close_eq hRun
    refine ⟨hLocks ▸ hGrants, Backend.isFaithful_withFaults (hKeeps.faithful hFaithful) [], rfl,
      fun hOpen => ?_⟩
    exact absurd (hClosed.symm.trans hOpen) Bool.noConfusion
  | reopen _ opened made _ ih =>
    exact isSteady_ofBackend (opened.rows_eq ih.faithful).2 made

theorem Reachable.allowed {allowed : Store → Prop} {store : Store}
    (hReached : Reachable allowed store) : allowed store := by
  cases hReached <;> assumption

/-- Whatever becomes of the stamps, the rows are formed. -/
theorem Reachable.isFormed {allowed : Store → Prop} {store : Store}
    (hReached : Reachable allowed store) :
    store.backend.rows.IsFormed (fun _ => True) fun _ => True := by
  induction hReached with
  | start opened made _ =>
    rw [backend_ofBackend made, (Backend.openBackend_empty opened).1]
    exact Rows.isFormed_empty
  | call command faults valid before ran _ ih =>
    obtain ⟨left, hRun, rfl⟩ := runDuring_eq ran
    obtain ⟨hGrants, _, _⟩ := before.isSteady.withFaults faults
    exact ((command.completes hGrants hRun).changes valid ih).isFormed ih trivial
      fun _ _ _ _ => trivial
  | tick time _ _ ih => exact ih
  | close faults _ ran _ ih =>
    obtain ⟨left, hRun, rfl⟩ := runDuring_eq ran
    obtain ⟨hKeeps, _⟩ := close_eq hRun
    show left.backend.rows.IsFormed _ _
    rw [hKeeps.rows]
    exact ih
  | reopen before opened made _ ih =>
    rw [backend_ofBackend made, (opened.rows_eq before.isSteady.faithful).1]
    exact ih

/-- Wherever a run leads, a command does nothing, what a mutation does, or what a pass does. -/
theorem Reachable.changes {allowed : Store → Prop} {store after : Store}
    (hReached : Reachable allowed store) {command : Command} (hValid : command.IsValid)
    {faults : List Call} {outcome : Except StoreError Reply}
    (hRan : command.perform.runDuring faults store = (outcome, after)) :
    ∃ left, after = left.withFaults [] ∧ command.Changes (store.withFaults faults) left := by
  obtain ⟨left, hRun, rfl⟩ := runDuring_eq hRan
  obtain ⟨hGrants, _, _⟩ := hReached.isSteady.withFaults faults
  have hFormed : (store.withFaults faults).backend.rows.IsFormed (fun _ => True) fun _ => True :=
    hReached.isFormed
  exact ⟨left, rfl, (command.completes hGrants hRun).changes hValid hFormed⟩

/-- What holds of no rows, and of the rows after every command if it holds before, holds of the rows
wherever a run leads. -/
theorem Reachable.rows_induction {allowed : Store → Prop} {holds : Rows → Prop} (hEmpty : holds ∅)
    (hCommand : ∀ {command : Command} {faults : List Call} {store left : Store},
      Reachable allowed store → allowed (left.withFaults []) →
      command.Changes (store.withFaults faults) left → holds store.backend.rows →
      holds left.backend.rows) {store : Store} (hReached : Reachable allowed store) :
    holds store.backend.rows := by
  induction hReached with
  | start opened made _ =>
    rw [backend_ofBackend made, (Backend.openBackend_empty opened).1]
    exact hEmpty
  | call command faults valid before ran hAllowed ih =>
    obtain ⟨left, rfl, hChanges⟩ := before.changes valid ran
    exact @hCommand command faults _ left before hAllowed hChanges ih
  | tick time _ _ ih => exact ih
  | close faults _ ran _ ih =>
    obtain ⟨left, hRun, rfl⟩ := runDuring_eq ran
    obtain ⟨hKeeps, _⟩ := close_eq hRun
    show holds left.backend.rows
    rw [hKeeps.rows]
    exact ih
  | reopen before opened made _ ih =>
    rw [backend_ofBackend made, (opened.rows_eq before.isSteady.faithful).1]
    exact ih

/-- Closing keeps the rows and gives out no stamp. -/
theorem reachable_closed {store after : Store} (hReached : Reachable InTime store)
    {faults : List Call} {outcome : Except StoreError Unit}
    (hRan : close.runDuring faults store = (outcome, after)) :
    Reachable InTime after ∧ after.backend.rows = store.backend.rows := by
  obtain ⟨left, hRun, rfl⟩ := runDuring_eq hRan
  obtain ⟨hKeeps, _, _, hStamp, _⟩ := close_eq hRun
  have hInTime : (left.withFaults []).InTime := fun hLast =>
    hReached.allowed (hStamp.symm.trans hLast)
  exact ⟨hReached.close faults hRan hInTime, hKeeps.rows⟩

/-- Opening again finds the rows that were left and starts before all stamps. -/
theorem reachable_reopened {store after : Store} (hReached : Reachable InTime store)
    {backend : Backend} {settings : Settings} {ids : IdSource} {clock : Millis}
    (hOpened : store.backend.Reopens backend)
    (hMade : ofBackend backend settings ids clock = .ok after) :
    Reachable InTime after ∧ after.backend.rows = store.backend.rows := by
  have hRows := (hOpened.rows_eq hReached.isSteady.faithful).1
  rw [← backend_ofBackend hMade] at hRows
  obtain ⟨watermark, hFresh⟩ := ofBackend_eq_ok hMade
  have hInTime : after.InTime := by
    rw [hFresh]
    show Stamp.zero ≠ .last
    decide
  exact ⟨hReached.reopen hOpened hMade hInTime, hRows⟩

/-- No run makes the rows unsound. -/
theorem Reachable.isSound {store : Store} (hReached : Reachable InTime store) :
    store.backend.rows.IsSound :=
  hReached.rows_induction Rows.isSound_empty fun hBefore hAfter hChanges hSound =>
    hChanges.isSound hSound hBefore.allowed hAfter

end Store

/-! ### A short run -/

namespace Sample

def lake : Name := ⟨.root, "lake"⟩

def hive : Name := ⟨⟨["lake"]⟩, "hive"⟩

def makeLake : Command := .mutate (.create lake (.of .metalake))

def makeHive : Command := .mutate (.create hive (.of (.catalog .relational "hive")))

def renameLake : Command := .mutate (.alter .metalake lake "me" [.rename "sea"])

def lakeSlot : Slot := ⟨.metalake, lake, rfl, by decide +kernel⟩

def seaSlot : Slot := ⟨.metalake, ⟨.root, "sea"⟩, rfl, by decide +kernel⟩

def hiveSlot : Slot := ⟨.catalog, hive, rfl, by decide +kernel⟩

/-- A log that nothing was written to. -/
def backend : Backend :=
  match (Medium.ofRows ∅).openBackend .log "lake" Storage.Journal.defaultThreshold with
  | (.ok backend, _) => backend
  | (.error _, _) => .inMemory ∅

def blank : Store := .fresh backend .inMemory (.counter 1) 0 0

/-- A store with a metalake and a catalog in it. -/
def store : Store := (makeHive.perform.runDuring [] (makeLake.perform.runDuring [] blank).2).2

theorem reachable_store : Store.Reachable Store.InTime store := by
  have hBlank : Store.Reachable Store.InTime blank :=
    @Store.Reachable.start _ .log "lake" Storage.Journal.defaultThreshold backend _ .inMemory
      (.counter 1) 0 blank rfl rfl (by decide +kernel)
  have hLake := hBlank.call makeLake [] (by decide +kernel) (Prod.eta _).symm (by decide +kernel)
  exact hLake.call makeHive [] (by decide +kernel) (Prod.eta _).symm (by decide +kernel)

end Sample

end VersionedCatalog
