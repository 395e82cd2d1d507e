import VersionedCatalog.Proofs.Lookups
import VersionedCatalog.Proofs.Plans

/-! # What creating plans

When creating ends with a batch it has found a parent, a kind, an id and a stamp, and no more is
needed for it to end so (`Store.prepareCreate_eq_pending`, `Store.Finds.exists_run`). The new entity
appears below a live parent, in a slot that is not live, with an id that the index does not have for
anybody alive (`Store.prepareCreate_appears`). In sound rows it is ready to appear
(`Appears.areReady`).
-/

namespace VersionedCatalog

open Storage (Rows Backend)
open VersionedCatalog.Action

/-- In sound rows the index leads to the living only. -/
theorem Storage.Rows.IsSound.get?_id_of_dead {rows : Rows} (hSound : rows.IsSound) {id : EntityId}
    (hDead : ∀ owner : Slot, rows.get? (Key.id id) = some owner.stem → ¬ rows.IsLive owner) :
    rows.get? (Key.id id) = none := by
  cases hIndexed : rows.get? (Key.id id) with
  | none => rfl
  | some stem =>
    obtain ⟨owner, found, hHolds, _, rfl⟩ := hSound.index.mp hIndexed
    exact absurd (.of_holds hHolds) (hDead owner hIndexed)

/-- A new entity that a draft asks for, in a slot that is not live, below a live parent and with an
id of nobody alive. -/
structure Appears (rows : Rows) (draft : Draft) (slot : Slot) (entity : Entity) (payload : Bytes) :
    Prop where
  type : slot.type = draft.type
  dead : ¬ rows.IsLive slot
  parents : ∀ parent : Slot, parent.IsParentOf slot → rows.IsLive parent
  free : ∀ owner : Slot, rows.get? (Key.id entity.id) = some owner.stem → ¬ rows.IsLive owner
  writing : Turn.IsWriting slot entity payload

namespace Appears

variable {rows : Rows} {draft : Draft} {slot : Slot} {entity : Entity} {payload : Bytes}
  (hAppears : Appears rows draft slot entity payload)
include hAppears

theorem get?_id (hSound : rows.IsSound) : rows.get? (Key.id entity.id) = none :=
  hSound.get?_id_of_dead hAppears.free

theorem areReady (hSound : rows.IsSound) {stamp : Stamp} (hNotLast : stamp ≠ .last)
    (hLater : ∀ version, rows.newest? slot = some version → version.stamp < stamp) :
    Turn.AreReady rows stamp [.appear slot entity payload] :=
  Turn.areReady_singleton ⟨hAppears.dead, hAppears.get?_id hSound, hAppears.writing⟩ rfl rfl hNotLast
    hLater hAppears.parents

end Appears

namespace Catalog

variable {backend : Backend}

theorem type_of_resolveKind {name : Name} {parent : Option Entity} {kind resolved : Kind}
    (hOk : resolveKind backend name parent kind = .ok resolved) : resolved.type = kind.type := by
  unfold resolveKind at hOk
  split at hOk
  next filesetType location =>
    split at hOk
    next =>
      cases parent with
      | none => cases hOk
      | some schema =>
        obtain ⟨found, _, hLast⟩ := Outcome.bind_eq_ok hOk
        cases hLast
        rfl
    next => cases hOk; rfl
  next => cases hOk; rfl

/-- A location is found for managed filesets only, below that of the schema or, if it has none, below
that of the catalog. -/
theorem resolveLocation_eq_ok {name : Name} {filesetType : FilesetType} {schema : Entity}
    {location : String} (hOk : resolveLocation backend name filesetType schema = .ok location) :
    filesetType = .managed ∧
      ((∃ root, filesetRoot? schema = some root ∧ location = s!"{root}/{name.leaf}") ∨
        (filesetRoot? schema = none ∧ ∃ home stamp catalog root,
          schema.name.parent? = some home ∧
          entity? backend .catalog home = .ok (some (stamp, catalog)) ∧
          filesetRoot? catalog = some root ∧
          location = s!"{root}/{schema.name.leaf}/{name.leaf}")) := by
  cases filesetType with
  | external => cases hOk
  | managed =>
    refine ⟨rfl, ?_⟩
    simp only [resolveLocation, reduceCtorEq, if_false] at hOk
    cases hRoot : filesetRoot? schema with
    | some root =>
      simp only [hRoot] at hOk
      cases hOk
      exact Or.inl ⟨root, rfl, rfl⟩
    | none =>
      simp only [hRoot] at hOk
      obtain ⟨found, hFound, hRest⟩ := Outcome.bind_eq_ok hOk
      cases found with
      | none => cases hRest
      | some root =>
        cases hRest
        unfold catalogRoot? at hFound
        split at hFound
        next => cases hFound
        next home hHome =>
          obtain ⟨live, hLive, hLast⟩ := Outcome.bind_eq_ok hFound
          cases live with
          | none => cases hLast
          | some live =>
            obtain ⟨stamp, catalog⟩ := live
            exact Or.inr ⟨rfl, home, stamp, catalog, root, hHome, hLive, Except.ok.inj hLast, rfl⟩

/-- In the index an id that may be claimed for a slot that is not live leads to nobody alive. -/
theorem claimId_eq_ok {slot : Slot} (hDead : ¬ backend.rows.IsLive slot) {id : EntityId}
    (hOk : claimId backend id slot.stem = .ok ()) (owner : Slot)
    (hIndexed : backend.rows.get? (Key.id id) = some owner.stem) : ¬ backend.rows.IsLive owner := by
  obtain ⟨found, hFound, hRest⟩ := Outcome.bind_eq_ok hOk
  rw [Backend.get_eq_ok (Outcome.mapError_eq_ok hFound), hIndexed] at hRest
  by_cases hOther : owner.stem = slot.stem
  · rw [Slot.stem_injective hOther]
    exact hDead
  · simp only [ne_eq, hOther, not_false_eq_true, if_true, decodeStem, owner.decodeEntity_stem,
      Outcome.mapError_ok, Outcome.ok_bind] at hRest
    obtain ⟨holder, hHolder, hLast⟩ := Outcome.bind_eq_ok hRest
    cases holder with
    | none => exact entity?_eq_ok hHolder
    | some _ => cases hLast

end Catalog

namespace Store

variable {store after : Store}

/-- How the id of a new entity is chosen: one that is asked for may be claimed, and of those that are
drawn the first that is not in the index is taken. -/
inductive Chooses (store : Store) (stem : Bytes) : Option EntityId → EntityId → Prop
  | claimed {id : EntityId} (claim : Catalog.claimId store.backend id stem = .ok ()) :
      Chooses store stem (some id) id
  | drawn {earlier : List EntityId} {id : EntityId} {rest : IdSource}
      (few : earlier.length < idAttempts) (draws : store.ids.Yields (earlier ++ [id]) rest)
      (taken : ∀ other ∈ earlier, ∃ owner,
        Catalog.indexed? store.backend other = .ok (some owner))
      (free : Catalog.indexed? store.backend id = .ok none) : Chooses store stem none id

theorem freeId_eq_ok {attempts : Nat} {id : EntityId}
    (hRun : (freeId attempts).run store = (.ok id, after)) :
    ∃ earlier, earlier.length < attempts ∧ store.ids.Yields (earlier ++ [id]) after.ids ∧
      (∀ other ∈ earlier, ∃ owner, Catalog.indexed? store.backend other = .ok (some owner)) ∧
      Catalog.indexed? store.backend id = .ok none := by
  induction attempts generalizing store with
  | zero => cases hRun
  | succ attempts ih =>
    obtain ⟨drawn, middle, hDrawn, hRest⟩ := bind_run_eq_ok hRun
    obtain ⟨ids, hDraw, rfl⟩ := drawId_eq_ok hDrawn
    obtain ⟨found, hFound, hLast⟩ := inspect_bind_run_eq_ok hRest
    cases found with
    | none =>
      cases hLast
      exact ⟨[], attempts.succ_pos, .next hDraw (.nothing ids), nofun, hFound⟩
    | some owner =>
      obtain ⟨earlier, hFew, hDraws, hTaken, hFree⟩ := ih hLast
      exact ⟨drawn :: earlier, Nat.succ_lt_succ hFew, .next hDraw hDraws,
        List.forall_mem_cons.mpr ⟨⟨owner, hFound⟩, hTaken⟩, hFree⟩

theorem exists_freeId {earlier : List EntityId} {id : EntityId} {rest : IdSource}
    (hDraws : store.ids.Yields (earlier ++ [id]) rest)
    (hTaken : ∀ other ∈ earlier, ∃ owner,
      Catalog.indexed? store.backend other = .ok (some owner))
    (hFree : Catalog.indexed? store.backend id = .ok none) {attempts : Nat}
    (hFew : earlier.length < attempts) :
    ∃ after, (freeId attempts).run store = (.ok id, after) := by
  induction earlier generalizing store attempts with
  | nil =>
    cases hDraws with
    | @next _ ids _ _ _ draw _ =>
      cases attempts with
      | zero => cases hFew
      | succ attempts =>
        refine ⟨{ store with ids }, ?_⟩
        rw [freeId, run_bind_of_ok (run_drawId_of_draw draw), run_inspect_bind_of_ok hFree]
        rfl
  | cons other earlier ih =>
    obtain ⟨⟨owner, hOwner⟩, hOthers⟩ := List.forall_mem_cons.mp hTaken
    cases hDraws with
    | @next _ ids _ _ _ draw draws =>
      cases attempts with
      | zero => cases hFew
      | succ attempts =>
        obtain ⟨after, hRest⟩ := @ih { store with ids } draws hOthers hFree attempts
          (Nat.lt_of_succ_lt_succ hFew)
        refine ⟨after, ?_⟩
        rw [freeId, run_bind_of_ok (run_drawId_of_draw draw), run_inspect_bind_of_ok hOwner]
        exact hRest

theorem chooseId_eq_ok {requested : Option EntityId} {stem : Bytes} {id : EntityId}
    (hRun : (chooseId requested stem).run store = (.ok id, after)) :
    store.Chooses stem requested id := by
  cases requested with
  | none =>
    have hDrawn : (freeId idAttempts).run store = (.ok id, after) := hRun
    obtain ⟨earlier, hFew, hDraws, hTaken, hFree⟩ := freeId_eq_ok hDrawn
    exact .drawn hFew hDraws hTaken hFree
  | some wanted =>
    obtain ⟨_, hClaim, hLast⟩ := inspect_bind_run_eq_ok hRun
    cases hLast
    exact .claimed hClaim

namespace Chooses

variable {stem : Bytes} {requested : Option EntityId} {id : EntityId}

theorem exists_run (hChooses : store.Chooses stem requested id) :
    ∃ after, (chooseId requested stem).run store = (.ok id, after) := by
  cases hChooses with
  | claimed claim => exact ⟨store, by rw [chooseId, run_inspect_bind_of_ok claim]; rfl⟩
  | drawn few draws taken free => exact exists_freeId draws taken free few

/-- Stamps, locks and clocks do not matter. -/
theorem congr {other : Store} (hBackend : other.backend = store.backend)
    (hIds : other.ids = store.ids) (hChooses : store.Chooses stem requested id) :
    other.Chooses stem requested id := by
  cases hChooses with
  | claimed claim => exact .claimed (hBackend ▸ claim)
  | drawn few draws taken free => exact .drawn few (hIds ▸ draws) (hBackend ▸ taken) (hBackend ▸ free)

/-- In the index the id that is chosen for a slot that is not live leads to nobody alive. -/
theorem not_isLive {slot : Slot} (hDead : ¬ store.backend.rows.IsLive slot)
    (hChooses : store.Chooses slot.stem requested id) (owner : Slot)
    (hIndexed : store.backend.rows.get? (Key.id id) = some owner.stem) :
    ¬ store.backend.rows.IsLive owner := by
  cases hChooses with
  | claimed claim => exact Catalog.claimId_eq_ok hDead claim owner hIndexed
  | drawn few draws taken free =>
    rw [← Backend.get_eq_ok (Outcome.mapError_eq_ok free)] at hIndexed
    cases hIndexed

end Chooses

theorem exists_entity?_of_load {type : EntityType} {name : Name} {entity : Entity}
    (hOk : store.load type name = .ok entity) :
    ∃ stamp, Catalog.entity? store.backend type name = .ok (some (stamp, entity)) := by
  obtain ⟨_, _, hRest⟩ := Outcome.bind_eq_ok hOk
  obtain ⟨_, _, hRest⟩ := Outcome.bind_eq_ok hRest
  obtain ⟨found, hFound, hLast⟩ := Outcome.bind_eq_ok hRest
  cases found with
  | none => cases hLast
  | some found => cases hLast; exact ⟨found.1, hFound⟩

/-- What `load` finds is held by the slot. -/
theorem load_eq_ok {slot : Slot} {entity : Entity}
    (hOk : store.load slot.type slot.name = .ok entity) : store.backend.rows.Holds slot entity := by
  obtain ⟨_, hFound⟩ := exists_entity?_of_load hOk
  exact Catalog.holds_of_entity? hFound

/-- The parent that is found is the entity that its slot holds. -/
theorem parentOf_eq_ok {slot parent : Slot} {found : Option Entity}
    (hOk : store.parentOf slot.type slot.name = .ok found) (hParent : parent.IsParentOf slot) :
    ∃ entity, found = some entity ∧ store.backend.rows.Holds parent entity := by
  unfold parentOf at hOk
  rw [hParent.name, hParent.type] at hOk
  obtain ⟨entity, hLoad, hLast⟩ := Outcome.bind_eq_ok hOk
  cases hLast
  exact ⟨entity, rfl, load_eq_ok hLoad⟩

/-- What is written as the greatest id so far along with a new id. -/
def raise? (store : Store) (assigned : Option EntityId) : Option Bytes :=
  (assigned.filter fun id => store.watermark < id.word).map EntityId.bytes

/-- A new entity is one turn. -/
theorem creationBatch_eq_ok {slot : Slot} {stamp : Stamp} {entity : Entity}
    {batch : Storage.Batch} (hOk : store.creationBatch slot.stem stamp entity = .ok batch) :
    ∃ payload, Entity.decode entity.type payload = .ok entity ∧
      batch = Turn.batch stamp [.appear slot entity payload] (store.raise? (some entity.id)) := by
  obtain ⟨op, hPut, hLast⟩ := Outcome.bind_eq_ok hOk
  obtain ⟨payload, hDecode, rfl⟩ := putLive_eq_ok hPut
  refine ⟨payload, hDecode, ?_⟩
  cases hLast
  rw [raise?, Option.filter_some]
  simp only [decide_eq_true_eq]
  split <;> rfl

theorem Stays.parentOf_eq {locked : Store} (hStays : store.Stays locked) (type : EntityType)
    (name : Name) : locked.parentOf type name = store.parentOf type name := by
  simp only [parentOf, load, ensureOpen, hStays.backend, hStays.closed]

theorem Stays.creationBatch_eq {locked : Store} (hStays : store.Stays locked) (stem : Bytes)
    (stamp : Stamp) (entity : Entity) :
    locked.creationBatch stem stamp entity = store.creationBatch stem stamp entity := by
  simp only [creationBatch, putLive, encode, format, hStays.settings, hStays.watermark]

/-- What creating finds if it ends with a batch. -/
structure Finds (store : Store) (name : Name) (draft : Draft) (stamp : Stamp) (entity : Entity)
    (batch : Storage.Batch) : Prop where
  fits : name.scope.depth = draft.type.depth
  chosen : ∃ requested, requestedId draft = .ok requested ∧
    store.Chooses (Key.entity draft.type name) requested entity.id
  resolved : ∃ parent, store.parentOf draft.type name = .ok parent ∧
    Catalog.resolveKind store.backend name parent draft.kind = .ok entity.kind
  issued : ∃ latest, Catalog.latest? store.backend (Key.entity draft.type name) = .ok latest ∧
    latest.filter Version.isLive = none ∧ store.Issues (latest.map (·.stamp)) stamp
  made : entity = {
    id := entity.id, name, kind := entity.kind
    comment := draft.comment
    properties := entity.id.addTo draft.properties
    audit := .created draft.creator store.clock }
  written : store.creationBatch (Key.entity draft.type name) stamp entity = .ok batch

theorem prepareCreate_eq_pending {name : Name} {draft : Draft} {change : Pending Entity}
    (hRun : (prepareCreate name draft).run store = (.ok (.pending change), after)) :
    store.Finds name draft after.lastStamp change.answer change.batch ∧
      change.assigned = some change.answer.id ∧ store.Stays after := by
  obtain ⟨requested, hChecked, hRest⟩ := inspect_bind_run_eq_ok hRun
  obtain ⟨_, _, hChecked⟩ := Outcome.bind_eq_ok hChecked
  obtain ⟨_, hDepth, hRequested⟩ := Outcome.bind_eq_ok hChecked
  obtain ⟨ticket, locked, hStays, ⟨hStamp, hIds⟩, hBody⟩ := underLocks_eq_pending hRest
  obtain ⟨parent, hParent, hRest⟩ := inspect_bind_run_eq_ok hBody
  obtain ⟨latest, hLatest, hRest⟩ := inspect_bind_run_eq_ok hRest
  split at hRest
  next =>
    obtain ⟨existing, _, hLast⟩ := inspect_bind_run_eq_ok hRest
    cases hLast
  next hNotLive =>
    obtain ⟨kind, hKind, hRest⟩ := inspect_bind_run_eq_ok hRest
    obtain ⟨id, drawn, hId, hRest⟩ := bind_run_eq_ok hRest
    have hDrawn := hStays.trans ((isQuiet_chooseId _ _).draws hId).stays
    obtain ⟨now, _, hNow, hRest⟩ := bind_run_eq_ok hRest
    cases hNow
    obtain ⟨stamp, stamped, hIssued, hRest⟩ := bind_run_eq_ok hRest
    have hStamped := hDrawn.trans ((isQuiet_issueStamp _).draws hIssued).stays
    obtain ⟨batch, hBatch, hLast⟩ := inspect_bind_run_eq_ok hRest
    cases hLast
    obtain ⟨hIssues, rfl⟩ := run_issueStamp_iff.mp hIssued
    have hChooses := (chooseId_eq_ok hId).congr hStays.backend.symm hIds.symm
    refine ⟨⟨checkDepth_eq_ok hDepth, ⟨requested, hRequested, hChooses⟩,
      ⟨parent, hStays.parentOf_eq _ _ ▸ hParent, hStays.backend ▸ hKind⟩,
      ⟨latest, hStays.backend ▸ hLatest, hNotLive, ?_⟩, ?_, ?_⟩, rfl, hStamped⟩
    · exact hDrawn.issues ((lastStamp_chooseId hId).trans hStamp) hIssues
    · rw [← hDrawn.clock]
    · rw [← hStamped.creationBatch_eq]
      exact hBatch

/-- What was found is what creating ends with. -/
theorem Finds.exists_run {name : Name} {draft : Draft} {stamp : Stamp} {entity : Entity}
    {batch : Storage.Batch} (hFinds : store.Finds name draft stamp entity batch)
    (hOpen : store.closed = false) (hFree : store.locks.AreFree [name.path]) :
    ∃ ticket after, (prepareCreate name draft).run store =
      (.ok (.pending ⟨batch, some ticket, some entity.id, false, entity⟩), after) := by
  obtain ⟨requested, hRequested, hChooses⟩ := hFinds.chosen
  obtain ⟨parent, hParent, hKind⟩ := hFinds.resolved
  obtain ⟨latest, hLatest, hNotLive, hIssues⟩ := hFinds.issued
  obtain ⟨ticket, locks, hLocked⟩ := @exists_locked Entity store _ hFree
  have hEnsure := ensureOpen_eq_ok_iff.mpr hOpen
  have hDepth : checkDepth draft.type name = .ok () := if_pos hFinds.fits
  have hStays := stays_withLocks store locks
  obtain ⟨drawn, hId⟩ := (hChooses.congr hStays.backend rfl).exists_run
  have hDrawn := hStays.trans ((isQuiet_chooseId _ _).draws hId).stays
  have hIssued : (issueStamp (latest.map (·.stamp))).run drawn =
      (.ok stamp, { drawn with lastStamp := stamp }) := by
    refine run_issueStamp_iff.mpr ⟨?_, rfl⟩
    rw [Issues, hDrawn.settings, hDrawn.clock, lastStamp_chooseId hId]
    exact hIssues
  let stamped : Store := { drawn with lastStamp := stamp }
  have hMade : ({
      id := entity.id, name, kind := entity.kind
      comment := draft.comment
      properties := entity.id.addTo draft.properties
      audit := .created draft.creator drawn.clock } : Entity) = entity := by
    rw [hDrawn.clock, ← hFinds.made]
  have hBatch : stamped.creationBatch (Key.entity draft.type name) stamp entity = .ok batch := by
    have hStamped : store.Stays stamped :=
      ⟨hDrawn.ids, hDrawn.backend, hDrawn.settings, hDrawn.clock, hDrawn.watermark, hDrawn.closed⟩
    rw [hStamped.creationBatch_eq]
    exact hFinds.written
  refine ⟨ticket, stamped, ?_⟩
  rw [prepareCreate, run_inspect_bind_of_ok (a := requested) (by simp [hEnsure, hDepth, hRequested]),
    hLocked, run_inspect_bind_of_ok hParent, run_inspect_bind_of_ok hLatest]
  simp only [hNotLive]
  rw [run_inspect_bind_of_ok hKind, run_bind_of_ok hId, run_bind_of_ok (run_get drawn),
    run_bind_of_ok hIssued, hMade, run_inspect_bind_of_ok hBatch]
  rfl

/-- Creating takes the locks of the name. -/
theorem prepares_create (name : Name) (draft : Draft) :
    Prepares [name.path] (prepareCreate name draft) := by
  refine Prepares.inspect_bind fun requested =>
    prepares_underLocks (fun ticket => ?_) (fun {ticket store change after} hRun => ?_)
  · refine (isQuiet_inspect _).bind fun parent => (isQuiet_inspect _).bind fun latest => ?_
    split
    next => exact (isQuiet_inspect _).bind fun _ => isQuiet_pure _
    next =>
      exact (isQuiet_inspect _).bind fun kind => (isQuiet_chooseId _ _).bind fun id =>
        isQuiet_get.bind fun now => (isQuiet_issueStamp _).bind fun stamp =>
          (isQuiet_inspect _).bind fun batch => isQuiet_pure _
  · obtain ⟨parent, _, hRest⟩ := inspect_bind_run_eq_ok hRun
    obtain ⟨latest, _, hRest⟩ := inspect_bind_run_eq_ok hRest
    split at hRest
    next =>
      obtain ⟨existing, _, hLast⟩ := inspect_bind_run_eq_ok hRest
      cases hLast
    next =>
      obtain ⟨kind, _, hRest⟩ := inspect_bind_run_eq_ok hRest
      obtain ⟨id, _, _, hRest⟩ := bind_run_eq_ok hRest
      obtain ⟨now, _, _, hRest⟩ := bind_run_eq_ok hRest
      obtain ⟨stamp, _, _, hRest⟩ := bind_run_eq_ok hRest
      obtain ⟨batch, _, hLast⟩ := inspect_bind_run_eq_ok hRest
      cases hLast
      rfl

theorem exists_slot_of_prepareCreate {name : Name} (hValid : name.IsValid) {draft : Draft}
    {prepared : Prepared Entity}
    (hRun : (prepareCreate name draft).run store = (.ok prepared, after)) :
    ∃ slot : Slot, slot.type = draft.type ∧ slot.name = name := by
  obtain ⟨_, hChecked, _⟩ := inspect_bind_run_eq_ok hRun
  obtain ⟨_, _, hChecked⟩ := Outcome.bind_eq_ok hChecked
  obtain ⟨_, hDepth, _⟩ := Outcome.bind_eq_ok hChecked
  exact ⟨⟨draft.type, name, checkDepth_eq_ok hDepth, hValid⟩, rfl, rfl⟩

/-- Where creating finds something to write, nothing is alive. -/
theorem Finds.not_isLive {slot : Slot} {draft : Draft} (hType : slot.type = draft.type)
    {stamp : Stamp} {entity : Entity} {batch : Storage.Batch}
    (hFinds : store.Finds slot.name draft stamp entity batch) :
    ¬ store.backend.rows.IsLive slot := by
  obtain ⟨latest, hLatest, hNotLive, _⟩ := hFinds.issued
  rw [← hType] at hLatest
  have hNewest : latest = store.backend.rows.newest? slot := Catalog.latest?_eq_ok hLatest
  rintro ⟨version, hVersion, hLive⟩
  rw [hNewest, hVersion, Option.filter_some_pos hLive] at hNotLive
  cases hNotLive

/-- Creating has nothing to write if the request is a repeated one. The entity that is there is the
answer. -/
theorem prepareCreate_eq_settled {slot : Slot} {draft : Draft} (hType : slot.type = draft.type)
    {entity : Entity}
    (hRun : (prepareCreate slot.name draft).run store = (.ok (.settled entity), after)) :
    store.backend.rows.Holds slot entity ∧
      ∃ id, requestedId draft = .ok (some id) ∧ entity.taggedId? = some id := by
  obtain ⟨requested, hChecked, hRest⟩ := inspect_bind_run_eq_ok hRun
  obtain ⟨_, _, hChecked⟩ := Outcome.bind_eq_ok hChecked
  obtain ⟨_, _, hRequested⟩ := Outcome.bind_eq_ok hChecked
  obtain ⟨ticket, locked, middle, hStays, _, hBody, _⟩ := underLocks_eq_ok hRest
  obtain ⟨parent, _, hRest⟩ := inspect_bind_run_eq_ok hBody
  obtain ⟨latest, hLatest, hRest⟩ := inspect_bind_run_eq_ok hRest
  rw [← hType] at hLatest hRest
  have hNewest : latest = locked.backend.rows.newest? slot := Catalog.latest?_eq_ok hLatest
  rw [hStays.backend] at hNewest
  split at hRest
  next current hLive =>
    obtain ⟨existing, hReplay, hLast⟩ := inspect_bind_run_eq_ok hRest
    cases hLast
    obtain ⟨hFound, hFlag⟩ := Option.filter_eq_some_iff.mp hLive
    obtain ⟨found, hDecode, hRest⟩ := Outcome.bind_eq_ok hReplay
    split at hRest
    next hSame =>
      cases hRest
      obtain ⟨hSome, hTag⟩ := hSame
      obtain ⟨id, rfl⟩ := Option.isSome_iff_exists.mp hSome
      exact ⟨⟨current, hNewest ▸ hFound, hFlag, Catalog.decode_eq_ok hDecode⟩, id, hRequested, hTag⟩
    next => cases hRest
  next =>
    obtain ⟨kind, _, hRest⟩ := inspect_bind_run_eq_ok hRest
    obtain ⟨id, _, _, hRest⟩ := bind_run_eq_ok hRest
    obtain ⟨now, _, _, hRest⟩ := bind_run_eq_ok hRest
    obtain ⟨stamp, _, _, hRest⟩ := bind_run_eq_ok hRest
    obtain ⟨batch, _, hLast⟩ := inspect_bind_run_eq_ok hRest
    cases hLast

/-- What creating plans is one turn: the entity appears in its slot. -/
theorem prepareCreate_appears {name : Name} (hValid : name.IsValid) {draft : Draft}
    {change : Pending Entity}
    (hRun : (prepareCreate name draft).run store = (.ok (.pending change), after)) :
    ∃ slot entity payload, slot.name = name ∧
      Appears store.backend.rows draft slot entity payload ∧ change.answer = entity ∧
      change.assigned = some entity.id ∧
      change.batch = Turn.batch after.lastStamp [.appear slot entity payload]
        (store.raise? change.assigned) ∧
      store.Issues ((store.backend.rows.newest? slot).map (·.stamp)) after.lastStamp := by
  obtain ⟨hFinds, hAssigned, hStays⟩ := prepareCreate_eq_pending hRun
  let slot : Slot := ⟨draft.type, name, hFinds.fits, hValid⟩
  obtain ⟨requested, _, hChooses⟩ := hFinds.chosen
  obtain ⟨parent, hParent, hKind⟩ := hFinds.resolved
  obtain ⟨latest, hLatest, _, hIssues⟩ := hFinds.issued
  have hNewest : latest = store.backend.rows.newest? slot := Catalog.latest?_eq_ok hLatest
  have hDead : ¬ store.backend.rows.IsLive slot := @Finds.not_isLive _ slot _ rfl _ _ _ hFinds
  obtain ⟨payload, hDecode, hBatch⟩ := @creationBatch_eq_ok _ slot _ _ _ hFinds.written
  have hType : change.answer.type = draft.type := Catalog.type_of_resolveKind hKind
  have hName : change.answer.name = name := by rw [hFinds.made]
  have hTag : change.answer.properties.get? EntityId.propertyKey = some change.answer.id.tag := by
    rw [hFinds.made, EntityId.addTo, OrderedMap.get?_insert, if_pos rfl]
  rw [hType] at hDecode
  refine ⟨slot, change.answer, payload, rfl, ⟨rfl, hDead, fun above hAbove => ?_,
    @Chooses.not_isLive _ _ _ slot hDead hChooses, hDecode, hName, hTag⟩, rfl, hAssigned, ?_, ?_⟩
  · obtain ⟨entity, _, hHolds⟩ := @parentOf_eq_ok _ slot above _ hParent hAbove
    exact .of_holds hHolds
  · rw [hAssigned]
    exact hBatch
  · rw [← hNewest]
    exact hIssues

end Store

end VersionedCatalog
