import VersionedCatalog.Proofs.Plans
import VersionedCatalog.Proofs.Subtrees

/-! # What dropping plans

An entity that is dropped vanishes together with everything that is alive below it
(`Store.prepareDrop_vanishes`), so nothing alive is left without its parent. In sound rows a subtree
is ready to vanish (`Turn.areReady_vanishAll`).
-/

namespace VersionedCatalog

open Storage (Rows Backend)
open VersionedCatalog.Action

namespace Turn

variable {rows : Rows} {root : Slot} {residents : List Resident}

/-- The residents of a subtree vanish. -/
def vanishAll (residents : List Resident) : List Turn :=
  residents.map fun resident => .vanish resident.slot resident.entity

theorem written_vanishAll (residents : List Resident) :
    written (vanishAll residents) = residents.map (·.slot) := by
  induction residents with
  | nil => rfl
  | cons resident rest ih => exact congrArg (resident.slot :: ·) ih

theorem areReady_vanishAll (hSound : rows.IsSound) (hSubtree : IsSubtree rows root residents)
    {stamp : Stamp} (hNotLast : stamp ≠ .last)
    (hLater : ∀ resident ∈ residents, resident.version.stamp < stamp) :
    AreReady rows stamp (vanishAll residents) := by
  refine ⟨fun turn hTurn => ?_, ?_, ?_, hNotLast, fun slot hSlot version hNewest => ?_,
    fun turn hTurn slot entity hTarget => ?_, fun turn hTurn slot hLeft child hChild hLive => ?_⟩
  · obtain ⟨resident, hMem, rfl⟩ := List.mem_map.mp hTurn
    exact (hSubtree.lives resident hMem).holds
  · rw [written_vanishAll]
    exact hSubtree.once
  · rw [vanishAll, List.map_map]
    exact hSubtree.ids hSound
  · rw [written_vanishAll] at hSlot
    obtain ⟨resident, hMem, rfl⟩ := List.mem_map.mp hSlot
    cases Option.some.inj ((hSubtree.lives resident hMem).newest.symm.trans hNewest)
    exact hLater resident hMem
  · obtain ⟨resident, _, rfl⟩ := List.mem_map.mp hTurn
    cases hTarget
  · obtain ⟨resident, hMem, rfl⟩ := List.mem_map.mp hTurn
    cases hLeft
    obtain ⟨other, hOther, rfl⟩ := hSubtree.exists_child hMem hChild hLive
    exact ⟨_, List.mem_map.mpr ⟨other, hOther, rfl⟩, rfl⟩

theorem areBehind_vanishAll (hSubtree : IsSubtree rows root residents) :
    AreBehind [root.path] (vanishAll residents) := by
  intro slot hSlot
  rw [written_vanishAll] at hSlot
  obtain ⟨resident, hMem, rfl⟩ := List.mem_map.mp hSlot
  refine ⟨root.path, List.mem_singleton.mpr rfl, ?_⟩
  rcases hSubtree.inside resident hMem with hRoot | hBelow
  · exact ⟨[], by rw [hRoot, List.append_nil]⟩
  · exact hBelow.1

end Turn

namespace Catalog

variable {backend : Backend} {allowed : Stamp → Prop} {known : EntityId → Prop}

theorem latestStamp_eq (found : List Doomed) :
    latestStamp found = Stamp.latestOf (found.map fun dead => dead.2.stamp) := by
  induction found with
  | nil => rfl
  | cons dead rest ih =>
    rw [List.map_cons, Stamp.latestOf, ← ih]
    rfl

/-- What is dropped is a whole subtree. -/
theorem doomed_eq_ok (hFormed : backend.rows.IsFormed allowed known) {root : Slot}
    {current : Version} {cascade : Bool} (hNewest : backend.rows.newest? root = some current)
    (hLive : current.isLive = true) {found : List Doomed}
    (hOk : doomed backend root.type root.name cascade current = .ok found) :
    ∃ residents, found = residents.map doom ∧ IsSubtree backend.rows root residents := by
  obtain ⟨below, hBelow, hRest⟩ := Outcome.bind_eq_ok hOk
  obtain ⟨residents, rfl, hResidents⟩ := exists_residents hFormed hBelow
  obtain ⟨resident, rfl, rfl, hLives⟩ := Resident.exists_of_newest? hFormed hNewest hLive
  refine ⟨residents ++ [resident], ?_, ?_⟩
  · have hFound : residents.map doom ++ [doom resident] = found := by
      split at hRest
      next => cases hRest
      next => exact Except.ok.inj hRest
    rw [← hFound, List.map_append]
    rfl
  · refine (hResidents.append (.singleton hLives) fun slot hBelow hSelf => ?_).congr fun slot =>
      Or.comm
    rw [hSelf] at hBelow
    exact hBelow.2 rfl

/-- The entities of residents are read from their versions, so tombstones can be made for all. -/
theorem tombstones_residents {residents : List Resident}
    (hLives : ∀ resident ∈ residents, resident.Lives backend.rows)
    (hFormed : backend.rows.IsFormed allowed known) (stamp : Stamp) :
    tombstones stamp (residents.map doom) =
      .ok (Turn.batch stamp (Turn.vanishAll residents) none) := by
  induction residents with
  | nil => rfl
  | cons resident rest ih =>
    obtain ⟨hFirst, hRest⟩ := List.forall_mem_cons.mp hLives
    have hDecode : decode resident.slot.type resident.version = .ok resident.entity := by
      rw [decode, hFirst.decoded]
      rfl
    rw [List.map_cons, doom, tombstones, hDecode, Outcome.ok_bind, ih hRest, Outcome.ok_bind,
      hFirst.stem hFormed]
    rfl

end Catalog

namespace Store

variable {store after : Store}

/-- Dropping takes the locks of the name. -/
theorem prepares_drop (type : EntityType) (name : Name) (cascade : Bool) :
    Prepares [name.path] (prepareDrop type name cascade) := by
  refine Prepares.inspect_bind fun _ =>
    prepares_underLocks (fun ticket => ?_) (fun {ticket store change after} hRun => ?_)
  · refine (isQuiet_inspect _).bind fun live => ?_
    split
    next => exact isQuiet_pure _
    next =>
      exact (isQuiet_inspect _).bind fun found => (isQuiet_issueStamp _).bind fun stamp =>
        (isQuiet_inspect _).bind fun batch => isQuiet_pure _
  · obtain ⟨live, _, hRest⟩ := inspect_bind_run_eq_ok hRun
    cases live with
    | none => cases hRest
    | some current =>
      obtain ⟨found, _, hRest⟩ := inspect_bind_run_eq_ok hRest
      obtain ⟨stamp, _, _, hRest⟩ := bind_run_eq_ok hRest
      obtain ⟨batch, _, hLast⟩ := inspect_bind_run_eq_ok hRest
      cases hLast
      rfl

/-- Dropping writes something exactly if there was an entity to drop. -/
theorem prepareDrop_eq_ok {type : EntityType} {name : Name} {cascade : Bool}
    {prepared : Prepared Bool}
    (hRun : (prepareDrop type name cascade).run store = (.ok prepared, after)) :
    prepared = .settled false ∨ ∃ change, prepared = .pending change ∧ change.answer = true := by
  obtain ⟨_, _, hRest⟩ := inspect_bind_run_eq_ok hRun
  obtain ⟨ticket, locked, middle, _, _, hBody, _⟩ := underLocks_eq_ok hRest
  obtain ⟨live, _, hRest⟩ := inspect_bind_run_eq_ok hBody
  cases live with
  | none => cases hRest; exact Or.inl rfl
  | some current =>
    obtain ⟨found, _, hRest⟩ := inspect_bind_run_eq_ok hRest
    obtain ⟨stamp, _, _, hRest⟩ := bind_run_eq_ok hRest
    obtain ⟨batch, _, hLast⟩ := inspect_bind_run_eq_ok hRest
    cases hLast
    exact Or.inr ⟨_, rfl, rfl⟩

/-- What dropping has found where there is something to drop: a stamp that comes after all that is to
be dropped, and the tombstones. -/
structure Dooms (store : Store) (type : EntityType) (name : Name) (cascade : Bool) (stamp : Stamp)
    (batch : Storage.Batch) : Prop where
  isOpen : store.closed = false
  fits : name.scope.depth = type.depth
  planned : ∃ current found, Catalog.live? store.backend type name = .ok (some current) ∧
    Catalog.doomed store.backend type name cascade current = .ok found ∧
    store.Issues (some (Catalog.latestStamp found)) stamp ∧
    Catalog.tombstones stamp found = .ok batch

/-- Dropping ends with the tombstones that it found, and changes nothing but locks and stamp. -/
theorem prepareDrop_eq_pending {type : EntityType} {name : Name} {cascade : Bool}
    {change : Pending Bool}
    (hRun : (prepareDrop type name cascade).run store = (.ok (.pending change), after)) :
    store.Dooms type name cascade after.lastStamp change.batch ∧ ∃ ticket,
      change = ⟨change.batch, some ticket, none, false, true⟩ ∧
      after = { store with locks := after.locks, lastStamp := after.lastStamp } := by
  have hOpen := isOpen_of_run hRun
  obtain ⟨_, hChecked, hRest⟩ := inspect_bind_run_eq_ok hRun
  obtain ⟨_, _, hDepth⟩ := Outcome.bind_eq_ok hChecked
  obtain ⟨ticket, locks, middle, hBody, hPending, _⟩ := exists_body_of_ok hRest
  cases hPending change rfl
  clear hPending
  obtain ⟨live, hLive, hRest⟩ := inspect_bind_run_eq_ok hBody
  cases live with
  | none => cases hRest
  | some current =>
    obtain ⟨doomed, hDoomed, hRest⟩ := inspect_bind_run_eq_ok hRest
    obtain ⟨stamp, stamped, hIssued, hRest⟩ := bind_run_eq_ok hRest
    obtain ⟨batch, hBatch, hLast⟩ := inspect_bind_run_eq_ok hRest
    obtain ⟨hIssues, rfl⟩ := run_issueStamp_iff.mp hIssued
    cases hLast
    exact ⟨⟨hOpen, checkDepth_eq_ok hDepth, current, doomed, hLive, hDoomed, hIssues, hBatch⟩,
      ticket, rfl, rfl⟩

/-- What is found in formed rows makes a subtree vanish. -/
theorem Dooms.exists_residents {allowed : Stamp → Prop} {known : EntityId → Prop} {root : Slot}
    {cascade : Bool} {stamp : Stamp} {batch : Storage.Batch}
    (hDooms : store.Dooms root.type root.name cascade stamp batch)
    (hFormed : store.backend.rows.IsFormed allowed known) :
    ∃ residents, IsSubtree store.backend.rows root residents ∧
      batch = Turn.batch stamp (Turn.vanishAll residents) none ∧
      store.Issues (some (Stamp.latestOf (residents.map (·.version.stamp)))) stamp := by
  obtain ⟨current, found, hLive, hDoomed, hIssues, hBatch⟩ := hDooms.planned
  obtain ⟨hCurrent, hFlag⟩ := Option.filter_eq_some_iff.mp (Catalog.live?_eq_ok hLive).symm
  obtain ⟨residents, rfl, hSubtree⟩ := Catalog.doomed_eq_ok hFormed hCurrent hFlag hDoomed
  rw [Catalog.latestStamp_eq, List.map_map] at hIssues
  rw [Catalog.tombstones_residents hSubtree.lives hFormed, Except.ok.injEq] at hBatch
  exact ⟨residents, hSubtree, hBatch.symm, hIssues⟩

/-- What dropping plans makes a subtree vanish. -/
theorem prepareDrop_vanishes {allowed : Stamp → Prop} {known : EntityId → Prop} {type : EntityType}
    {name : Name} (hValid : name.IsValid) {cascade : Bool}
    (hFormed : store.backend.rows.IsFormed allowed known) {change : Pending Bool}
    (hRun : (prepareDrop type name cascade).run store = (.ok (.pending change), after)) :
    ∃ root residents, root.type = type ∧ root.name = name ∧
      IsSubtree store.backend.rows root residents ∧ change.assigned = none ∧
      change.batch = Turn.batch after.lastStamp (Turn.vanishAll residents) none ∧
      store.Issues (some (Stamp.latestOf (residents.map (·.version.stamp)))) after.lastStamp := by
  obtain ⟨hDooms, ticket, hChange, _⟩ := prepareDrop_eq_pending hRun
  let root : Slot := ⟨type, name, hDooms.fits, hValid⟩
  obtain ⟨residents, hSubtree, hBatch, hIssues⟩ :=
    @Dooms.exists_residents store _ _ root _ _ _ hDooms hFormed
  exact ⟨root, residents, rfl, rfl, hSubtree, congrArg Pending.assigned hChange, hBatch, hIssues⟩

end Store

end VersionedCatalog
