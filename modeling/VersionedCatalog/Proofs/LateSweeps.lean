import VersionedCatalog.Proofs.Atomicity

/-! # Passes that come late

A pass takes no locks, so what it found may be removed after any number of mutations
(`Store.LeadsTo`). By then the history has grown (`LeadsTo.grows`): a version that the pass found is
either followed by a later one or still the newest of its slot, and removing it together with all
before it changes nothing that can be read (`Store.Reachable.late_sweep`).
-/

namespace VersionedCatalog

open Storage (Rows Backend Call)
open VersionedCatalog.Action

/-! ### Reading rows that were thinned -/

namespace Storage

theorem Rows.IsThinned.refl (rows : Rows) : rows.IsThinned rows :=
  ⟨id, fun _ => rfl, fun _ => Or.inl rfl⟩

namespace Rows.IsThinned

variable {rows others : Rows} (hThinned : IsThinned rows others)
include hThinned

theorem newest?_iff_of_isLive {slot : Slot} {version : Version} (hLive : version.isLive = true) :
    others.newest? slot = some version ↔ rows.newest? slot = some version := by
  rcases hThinned.newest slot with hSame | ⟨hNone, hDead⟩
  · rw [hSame]
  · rw [hNone]
    exact iff_of_false (Option.some_ne_none version).symm fun hNewest => hDead ⟨version, hNewest, hLive⟩

theorem filter_newest? (slot : Slot) :
    (others.newest? slot).filter Version.isLive = (rows.newest? slot).filter Version.isLive := by
  refine Option.ext fun version => ?_
  rw [Option.filter_eq_some_iff, Option.filter_eq_some_iff]
  exact and_congr_left hThinned.newest?_iff_of_isLive

end Rows.IsThinned

/-- Two backends that may do the same, over sound rows and what was left of them. -/
structure Backend.IsThinned (backend other : Backend) : Prop where
  sound : backend.rows.IsSound
  rows : backend.rows.IsThinned other.rows
  permit : ∀ call, other.permit call = backend.permit call

end Storage

namespace Catalog

variable {backend other : Backend} (hThinned : backend.IsThinned other)
include hThinned

theorem live?_thinned {type : EntityType} {name : Name} (hFits : name.scope.depth = type.depth) :
    live? other type name = live? backend type name := by
  have hShaped := hThinned.sound.shaped
  have hOther := (hThinned.rows.isSound hThinned.sound).shaped
  by_cases hValid : name.IsValid
  · have hThere := live?_eq hShaped ⟨type, name, hFits, hValid⟩
    have hHere := live?_eq hOther ⟨type, name, hFits, hValid⟩
    rw [hHere, hThere, hThinned.permit, hThinned.rows.filter_newest?]
  · rw [live?, live?, latest?_of_not_valid hShaped hFits hValid,
      latest?_of_not_valid hOther hFits hValid, hThinned.permit]

theorem entity?_thinned {type : EntityType} {name : Name} (hFits : name.scope.depth = type.depth) :
    entity? other type name = entity? backend type name := by
  rw [entity?, live?_thinned hThinned hFits]
  rfl

theorem indexed?_thinned (id : EntityId) : indexed? other id = indexed? backend id := by
  rw [indexed?_eq, indexed?_eq, hThinned.permit, hThinned.rows.index]

theorem liveBelow_thinned {type : EntityType} {scope : Namespace}
    (hDepth : scope.depth = type.depth) :
    liveBelow other (Key.children type scope) = liveBelow backend (Key.children type scope) := by
  have hOther := (hThinned.rows.isSound hThinned.sound).shaped
  refine liveBelow_eq_of_newest hThinned.sound.shaped hOther (hThinned.permit _) ?_
    fun slot _ _ version hLive => hThinned.rows.newest?_iff_of_isLive hLive
  exact Nat.le_succ_of_le (Nat.le_of_eq hDepth)

end Catalog

namespace Store

/-- Nothing that can be read depends on the versions that were taken out. -/
theorem readsAs_of_isThinned {store other : Store} (hClosed : other.closed = store.closed)
    (hThinned : store.backend.IsThinned other.backend) : store.ReadsAs other where
  load type name := by
    rw [load, load, ensureOpen_congr hClosed]
    by_cases hFits : name.scope.depth = type.depth
    · rw [Catalog.entity?_thinned hThinned hFits]
    · have hDepth : checkDepth type name = .error (.nameDepth type name) := if_neg hFits
      rw [hDepth]
      rfl
  list scope type := by
    rw [list, list, ensureOpen_congr hClosed]
    by_cases hDepth : scope.depth = type.depth
    · rw [Catalog.liveBelow_thinned hThinned hDepth]
    · simp only [if_pos hDepth]
      rfl
  loadById id := by
    rw [loadById, loadById, ensureOpen_congr hClosed, Catalog.indexed?_thinned hThinned,
      Catalog.indexed?_eq]
    cases hIndexed : store.backend.rows.get? (Key.id id) with
    | none => cases (store.backend.permit .get).mapError StoreError.backend <;> rfl
    | some stem =>
      -- the index leads to a slot
      obtain ⟨slot, _, _, _, rfl⟩ := hThinned.sound.index.mp hIndexed
      have hStem : Catalog.decodeStem slot.stem = .ok (slot.type, slot.name) := by
        rw [Catalog.decodeStem, slot.decodeEntity_stem]
        rfl
      have hSame := Catalog.entity?_thinned hThinned slot.fits
      cases (store.backend.permit .get).mapError StoreError.backend with
      | error fault => rfl
      | ok _ => simp only [Outcome.ok_bind, hStem, hSame]

/-! ### The history grows -/

/-- The states that a store comes to without a pass in between. -/
inductive LeadsTo (store : Store) : Store → Prop
  | here : LeadsTo store store
  | call {middle after : Store} {outcome : Except StoreError Reply} (mutation : Mutation)
      (faults : List Call) (valid : mutation.name.IsValid) (before : LeadsTo store middle)
      (ran : mutation.perform.runDuring faults middle = (outcome, after))
      (inTime : after.InTime) : LeadsTo store after
  | tick {middle : Store} (time : Millis) (before : LeadsTo store middle) :
      LeadsTo store (middle.setClock time)
  | close {middle after : Store} {outcome : Except StoreError Unit} (faults : List Call)
      (before : LeadsTo store middle) (ran : close.runDuring faults middle = (outcome, after)) :
      LeadsTo store after
  | reopen {middle after : Store} {backend : Backend} {settings : Settings} {ids : IdSource}
      {clock : Millis} (before : LeadsTo store middle) (opened : middle.backend.Reopens backend)
      (made : ofBackend backend settings ids clock = .ok after) : LeadsTo store after

theorem grows_of_mutation {store after : Store} (hReached : Reachable InTime store)
    {mutation : Mutation} {faults : List Call} {outcome : Except StoreError Reply}
    (hValid : mutation.name.IsValid)
    (hRan : mutation.perform.runDuring faults store = (outcome, after)) (hAfter : after.InTime) :
    store.backend.rows.Grows after.backend.rows := by
  have hCommand : (Command.mutate mutation).IsValid := hValid
  obtain ⟨left, rfl, hChanges⟩ := hReached.changes hCommand hRan
  exact hChanges.grows hReached.isSound hReached.allowed hAfter

/-- Without a pass in between the history does nothing but grow. -/
theorem LeadsTo.grows {store later : Store} (hLeads : store.LeadsTo later)
    (hReached : Reachable InTime store) :
    Reachable InTime later ∧ store.backend.rows.Grows later.backend.rows := by
  induction hLeads with
  | here => exact ⟨hReached, .refl _⟩
  | call mutation faults valid _ ran inTime ih =>
    obtain ⟨hMiddle, hGrows⟩ := ih
    exact ⟨hMiddle.call (.mutate mutation) faults valid ran inTime,
      hGrows.trans (grows_of_mutation hMiddle valid ran inTime)⟩
  | tick time _ ih =>
    obtain ⟨hMiddle, hGrows⟩ := ih
    exact ⟨hMiddle.tick time hMiddle.allowed, hGrows⟩
  | close faults _ ran ih =>
    obtain ⟨hMiddle, hGrows⟩ := ih
    obtain ⟨hAfter, hRows⟩ := reachable_closed hMiddle ran
    exact ⟨hAfter, hRows ▸ hGrows⟩
  | reopen _ opened made ih =>
    obtain ⟨hMiddle, hGrows⟩ := ih
    obtain ⟨hAfter, hRows⟩ := reachable_reopened hMiddle opened made
    exact ⟨hAfter, hRows ▸ hGrows⟩

/-! ### The pass is carried out -/

/-- What is left to do of a pass that found something. -/
def pendingSweep (sweep : Sweep) : Pending Sweep := ⟨sweep.batch, none, none, true, sweep⟩

theorem isThinned_of_commit {store after : Store} (hSteady : store.IsSteady)
    (hSound : store.backend.rows.IsSound) {change : Pending Sweep} {faults : List Call}
    {outcome : Except StoreError Sweep}
    (hThinned : store.backend.rows.IsThinned (store.backend.rows.apply change.batch))
    (hRan : (commit change).runDuring faults store = (outcome, after)) :
    store.backend.IsThinned after.backend ∧ after.closed = store.closed ∧
      (outcome.isOk = true → after.backend.rows = store.backend.rows.apply change.batch) := by
  obtain ⟨left, hRun, rfl⟩ := runDuring_eq hRan
  obtain ⟨hReturns, hCommits⟩ := commit_cases hRun
  refine ⟨?_, hReturns.closed, ?_⟩
  · cases hCommits with
    | refused fault backend =>
      have hRows : (left.withFaults []).backend.rows = store.backend.rows := rows_of_runDuring backend
      have hClosed := congrArg Backend.isClosed backend
      refine ⟨hSound, hRows ▸ .refl _, fun call => ?_⟩
      simp only [Backend.permit, Backend.ensureSound, Backend.ensureOpen, hSteady.faults]
      rw [show (left.withFaults []).backend.isClosed = store.backend.isClosed from hClosed]
      rfl
    | written backend write keeps isOpen =>
      have hRows : (left.withFaults []).backend.rows = store.backend.rows.apply change.batch :=
        keeps.rows.trans (Backend.write_eq_ok write).1
      obtain ⟨_, hPermit, _⟩ := Outcome.bind_eq_ok write
      have hDuring : (store.withFaults faults).backend.isClosed = false :=
        Backend.permit_eq_ok hPermit
      have hBefore : store.backend.isClosed = false := hDuring
      have hAfter : (left.withFaults []).backend.isClosed = false := isOpen
      refine ⟨hSound, hRows ▸ hThinned, fun call => ?_⟩
      rw [Backend.permit_of_open hBefore hSteady.faults, Backend.permit_of_open hAfter rfl]
  · intro hOk
    cases hCommits with
    | refused fault backend => cases hOk
    | written backend write keeps isOpen =>
      exact keeps.rows.trans (Backend.write_eq_ok write).1

/-- What a pass found may be removed at any later time. No answer changes, nothing that is dead
comes back and nothing that is live is lost. -/
theorem Reachable.late_sweep {store later after : Store} (hReached : Reachable InTime store)
    {policy : Sweep.Policy} {sweep : Sweep}
    (hSweep : Sweep.ofBackend policy store.backend = .ok sweep) (hLeads : store.LeadsTo later)
    {faults : List Call} {outcome : Except StoreError Sweep}
    (hRan : (commit (pendingSweep sweep)).runDuring faults later = (outcome, after)) :
    (outcome.isOk = true → after.backend.rows = later.backend.rows.apply sweep.batch) ∧
    later.ReadsAs after ∧
    (∀ type name, after.contains type name = later.contains type name) ∧
    (∀ scope, after.listChildren scope = later.listChildren scope) ∧
    (∀ slot, after.backend.rows.IsLive slot ↔ later.backend.rows.IsLive slot) := by
  obtain ⟨hLater, hGrows⟩ := hLeads.grows hReached
  have hSwept := Sweep.isThinned_swept hReached.isSound.shaped hSweep hLater.isSound.shaped hGrows
  obtain ⟨hThinned, hClosed, hRows⟩ := isThinned_of_commit hLater.isSteady hLater.isSound hSwept hRan
  have hReads := readsAs_of_isThinned hClosed hThinned
  exact ⟨hRows, hReads, hReads.contains, hReads.listChildren, fun _ => hThinned.rows.isLive_iff⟩

end Store

namespace Sample

def dropHive : Mutation := .drop .catalog hive false

/-- The store without the catalog. -/
def dropped : Store := (dropHive.perform.runDuring [] store).2

/-- A pass over the store without the catalog, of which both versions are over. -/
def sweepDropped : Sweep := ⟨3, [hiveSlot.key ⟨0, 2⟩, hiveSlot.key ⟨0, 3⟩], 1⟩

/-- The store with the catalog made anew. -/
def remade : Store := (makeHive.perform.runDuring [] dropped).2

/-- What a pass found of the dropped catalog is removed when the catalog is there again, and the
new one is found as before. -/
theorem late_sweep_remade :
    Sweep.ofBackend ⟨10, 0⟩ dropped.backend = .ok sweepDropped ∧
    ((Store.commit (Store.pendingSweep sweepDropped)).runDuring [] remade).2.load .catalog hive =
      remade.load .catalog hive ∧
    (remade.load .catalog hive).isOk = true := by
  have hSweep : Sweep.ofBackend ⟨10, 0⟩ dropped.backend = .ok sweepDropped := by decide +kernel
  have hDropped : Store.Reachable Store.InTime dropped :=
    reachable_store.call (.mutate dropHive) [] (by decide +kernel) (Prod.eta _).symm
      (by decide +kernel)
  have hRemade : dropped.LeadsTo remade :=
    Store.LeadsTo.here.call (.create hive (.of (.catalog .relational "hive"))) []
      (by decide +kernel) (Prod.eta _).symm (by decide +kernel)
  obtain ⟨_, hReads, _⟩ := hDropped.late_sweep hSweep hRemade (Prod.eta _).symm
  exact ⟨hSweep, hReads.load .catalog hive, by decide +kernel⟩

end Sample

end VersionedCatalog
