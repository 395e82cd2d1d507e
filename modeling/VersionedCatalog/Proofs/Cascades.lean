import VersionedCatalog.Proofs.Admission
import VersionedCatalog.Proofs.Listings

/-! # When entities are dropped

An entity is dropped alone or with everything alive below it, which is found by going through one
range of keys for each deeper type. What these ranges hold decides what dropping answers, and where
there is something to drop it finds tombstones for all of it (`Store.Dooms`). Once they are written
nothing leads to what was dropped any more, no name, no id and no list, and everything else is read
as before (`Store.HasDropped`).

What is not alive stays so through every command that does not put anything in its place
(`Command.Changes.stays_dead`). Creating the parent again is one of these, so no old descendant comes
back with it (`Store.Reachable.drops`).
-/

namespace VersionedCatalog

open Storage (Rows Backend Call)
open VersionedCatalog.Action

/-! ### What is found -/

namespace Catalog

variable {backend : Backend} {allowed : Stamp → Prop} {known : EntityId → Prop}
  (hFormed : backend.rows.IsFormed allowed known)
include hFormed

theorem exists_liveInRanges (hMay : backend.permit .scan = .ok ()) (types : List EntityType)
    (path : List String) :
    ∃ found, liveInRanges backend (types.map fun type => (type, Key.typed type path)) = .ok found := by
  induction types with
  | nil => exact ⟨[], rfl⟩
  | cons type rest ih =>
    obtain ⟨versions, hVersions⟩ := exists_liveBelow hFormed type path
    rw [hMay] at hVersions
    obtain ⟨others, hOthers⟩ := ih
    exact ⟨_, by simp [liveInRanges, hVersions, hOthers]; rfl⟩

/-- An entity is not dropped alone if something below it is alive. -/
theorem doomed_of_inhabited (hMay : backend.permit .scan = .ok ()) {root : Slot}
    (hBelow : ∃ slot : Slot, slot.IsBelow root ∧ backend.rows.IsLive slot) (current : Version) :
    doomed backend root.type root.name false current = .error (.notEmpty root.type root.name) := by
  obtain ⟨found, hFound⟩ := exists_liveInRanges hFormed hMay root.type.deeper root.path
  obtain ⟨residents, rfl, hResidents⟩ := exists_residents hFormed hFound
  obtain ⟨slot, hUnder, hLive⟩ := hBelow
  obtain ⟨resident, hMem, _⟩ := hResidents.complete slot hUnder hLive
  have hSome : residents ≠ [] := List.ne_nil_of_mem hMem
  have hRanges : liveInRanges backend (Key.descendants root.type root.name) =
      .ok (residents.map doom) := hFound
  simp [doomed, hRanges, hSome]

/-- It is dropped with everything else, or if there is nothing else. -/
theorem exists_doomed (hMay : backend.permit .scan = .ok ()) {root : Slot} {cascade : Bool}
    (hAlone : cascade = true ∨ ∀ slot : Slot, slot.IsBelow root → ¬ backend.rows.IsLive slot)
    (current : Version) :
    ∃ found, doomed backend root.type root.name cascade current = .ok found := by
  obtain ⟨found, hFound⟩ := exists_liveInRanges hFormed hMay root.type.deeper root.path
  obtain ⟨residents, rfl, hResidents⟩ := exists_residents hFormed hFound
  have hRanges : liveInRanges backend (Key.descendants root.type root.name) =
      .ok (residents.map doom) := hFound
  refine ⟨residents.map doom ++ [(root.type, current)], ?_⟩
  rcases hAlone with rfl | hNone
  · simp [doomed, hRanges]
  · have hNil : residents = [] := by
      refine List.eq_nil_iff_forall_not_mem.mpr ?_
      intro resident hMem
      exact hNone _ (hResidents.inside resident hMem) (hResidents.lives resident hMem).isLive
    simp [doomed, hRanges, hNil]

end Catalog

namespace Store

/-! ### What dropping asks for -/

/-- Whether an entity of a type is alive under a name. -/
def Has (store : Store) (type : EntityType) (name : Name) : Prop :=
  ∃ entity, store.load type name = .ok entity

/-- Whether an entity of any type is alive strictly below a name. -/
def HasBelow (store : Store) (name : Name) : Prop :=
  ∃ type below, name.isAncestorOf below = true ∧ store.Has type below

/-- Whether a name of a type is that of an entity or lies below it. -/
def isWithin (type : EntityType) (name : Name) (other : EntityType) (place : Name) : Bool :=
  decide (other = type ∧ place = name) || name.isAncestorOf place

/-- What dropping asks for: where something is dropped, the clock is not behind it by more than the
skew, and there is room for the tombstones. Where an entity is kept because it is not empty, the clock
does not matter. -/
structure MayDrop (store : Store) (type : EntityType) (name : Name) (cascade : Bool) : Prop where
  timely : cascade = true ∨ ¬ store.HasBelow name → ∀ (slot : Slot) (version : Version),
    isWithin type name slot.type slot.name = true →
    store.backend.rows.newest? slot = some version → version.isLive = true →
    version.stamp.millis.toNat ≤ store.clock.toNat + store.settings.skewMillis.toNat
  room : ∀ stamp batch, store.Dooms type name cascade stamp batch → store.backend.HasRoom batch

theorem isWithin_iff {root slot : Slot} :
    isWithin root.type root.name slot.type slot.name = true ↔ slot = root ∨ slot.IsBelow root := by
  rw [isWithin, Bool.or_eq_true_iff, decide_eq_true_iff]
  exact Mutation.encloses_iff

section
variable {store : Store} (hSound : store.backend.rows.IsSound) (hSteady : store.IsSteady)
  (hOpen : store.closed = false)
include hSound hSteady hOpen

theorem has_iff_isLive {slot : Slot} :
    store.Has slot.type slot.name ↔ store.backend.rows.IsLive slot := by
  constructor
  · rintro ⟨entity, hLoad⟩
    obtain ⟨place, hType, hName, hHolds⟩ := slot_of_load hSound.shaped hLoad
    cases Slot.eq_of_parts hType hName
    exact .of_holds hHolds
  · intro hLive
    obtain ⟨entity, hHolds, _⟩ := hSound.shaped.holds_of_isLive hLive
    exact ⟨entity, load_of_holds hSound.shaped hSteady hOpen hHolds⟩

theorem hasBelow_iff {root : Slot} :
    store.HasBelow root.name ↔ ∃ slot : Slot, slot.IsBelow root ∧ store.backend.rows.IsLive slot := by
  constructor
  · rintro ⟨type, below, hAbove, entity, hLoad⟩
    obtain ⟨slot, rfl, rfl, hHolds⟩ := slot_of_load hSound.shaped hLoad
    exact ⟨slot, Slot.isAncestorOf_iff_isBelow.mp hAbove, .of_holds hHolds⟩
  · rintro ⟨slot, hBelow, hLive⟩
    exact ⟨slot.type, slot.name, Slot.isAncestorOf_iff_isBelow.mpr hBelow,
      (has_iff_isLive hSound hSteady hOpen).mpr hLive⟩

/-! ### What dropping comes to -/

/-- Where nothing is alive there is nothing to drop. -/
theorem run_drop_of_dead {locks : Locks} {root : Slot} (hFree : locks.AreFree [root.name.path])
    (hDead : ¬ store.backend.rows.IsLive root) (cascade : Bool) :
    ((drop root.type root.name cascade).run { store with locks }).1 = .ok false := by
  have hDepth : checkDepth root.type root.name = .ok () := if_pos root.fits
  have hLive := Catalog.live?_eq hSound.shaped root
  have hNone : (store.backend.rows.newest? root).filter Version.isLive = none := by
    refine Option.eq_none_iff_forall_ne_some.mpr ?_
    intro version hFound
    obtain ⟨hNewest, hFlag⟩ := Option.filter_eq_some_iff.mp hFound
    exact hDead ⟨version, hNewest, hFlag⟩
  rw [Backend.permit_of_open (hSteady.isOpen hOpen) hSteady.faults, hNone] at hLive
  obtain ⟨ticket, taken, hLocked⟩ := @exists_locked Bool { store with locks } _ hFree
  rw [drop, run_complete, prepareDrop,
    run_inspect_bind_of_ok (a := ()) (by simp [ensureOpen, hOpen, hDepth]), hLocked,
    run_inspect_bind_of_ok hLive]
  rfl

/-- Without cascade nothing is dropped that something alive is below. -/
theorem run_drop_of_inhabited {locks : Locks} {root : Slot}
    (hFree : locks.AreFree [root.name.path]) (hLive : store.backend.rows.IsLive root)
    (hBelow : ∃ slot : Slot, slot.IsBelow root ∧ store.backend.rows.IsLive slot) :
    ((drop root.type root.name false).run { store with locks }).1 =
      .error (.notEmpty root.type root.name) := by
  have hMay := Backend.permit_of_open (hSteady.isOpen hOpen) hSteady.faults
  have hDepth : checkDepth root.type root.name = .ok () := if_pos root.fits
  obtain ⟨current, hNewest, hFlag⟩ := hLive
  have hFound := Catalog.live?_eq hSound.shaped root
  rw [hMay, hNewest, Option.filter_some_pos hFlag] at hFound
  have hDoomed := Catalog.doomed_of_inhabited hSound.shaped (hMay .scan) hBelow current
  obtain ⟨ticket, taken, hLocked⟩ := @exists_locked Bool { store with locks } _ hFree
  rw [drop, run_complete, prepareDrop,
    run_inspect_bind_of_ok (a := ()) (by simp [ensureOpen, hOpen, hDepth]), hLocked,
    run_inspect_bind_of_ok hFound]
  simp only
  rw [run_inspect_bind_of_error hDoomed]

/-- Otherwise tombstones are found, if the clock allows it. -/
theorem exists_dooms {root : Slot} (hLive : store.backend.rows.IsLive root) {cascade : Bool}
    (hAlone : cascade = true ∨
      ∀ slot : Slot, slot.IsBelow root → ¬ store.backend.rows.IsLive slot)
    (hTimely : ∀ (slot : Slot) (version : Version), slot = root ∨ slot.IsBelow root →
      store.backend.rows.newest? slot = some version → version.isLive = true →
      version.stamp.millis.toNat ≤ store.clock.toNat + store.settings.skewMillis.toNat) :
    ∃ stamp batch, store.Dooms root.type root.name cascade stamp batch := by
  have hMay := Backend.permit_of_open (hSteady.isOpen hOpen) hSteady.faults
  obtain ⟨current, hNewest, hFlag⟩ := hLive
  have hFound := Catalog.live?_eq hSound.shaped root
  rw [hMay, hNewest, Option.filter_some_pos hFlag] at hFound
  obtain ⟨found, hDoomed⟩ := Catalog.exists_doomed hSound.shaped (hMay .scan) hAlone current
  obtain ⟨residents, rfl, hSubtree⟩ := Catalog.doomed_eq_ok hSound.shaped hNewest hFlag hDoomed
  obtain ⟨stamp, hIssues⟩ : ∃ stamp, store.Issues
      (some (Catalog.latestStamp (residents.map Catalog.doom))) stamp := by
    refine Stamp.exists_next_iff.mpr ?_
    rintro _ ⟨rfl⟩
    rw [Catalog.latestStamp_eq]
    refine @Stamp.latestOf_of_forall (fun floor => floor.millis.toNat ≤ _) (Nat.zero_le _) _ ?_
    intro floor hFloor
    rw [List.map_map] at hFloor
    obtain ⟨resident, hMem, rfl⟩ := List.mem_map.mp hFloor
    have hLives := hSubtree.lives resident hMem
    exact hTimely resident.slot resident.version (hSubtree.inside resident hMem) hLives.newest
      hLives.live
  exact ⟨stamp, _, hOpen, root.fits, current, _, hFound, hDoomed, hIssues,
    Catalog.tombstones_residents hSubtree.lives hSound.shaped stamp⟩

end

section
variable {store : Store} {type : EntityType} {name : Name} {cascade : Bool} {stamp : Stamp}
  {batch : Storage.Batch}

/-- The locks make no difference to what is found. -/
theorem Dooms.of_locks (hDooms : store.Dooms type name cascade stamp batch) (locks : Locks) :
    ({ store with locks } : Store).Dooms type name cascade stamp batch :=
  ⟨hDooms.isOpen, hDooms.fits, hDooms.planned⟩

/-- What is found is dropped where the locks are free and the tombstones can be written. -/
theorem Dooms.exists_run (hDooms : store.Dooms type name cascade stamp batch)
    (hFree : store.locks.AreFree [name.path]) {backend : Backend}
    (hWrite : store.backend.write batch = .ok backend) :
    ∃ locks, (drop type name cascade).run store =
      (.ok true, { store with backend, locks, lastStamp := stamp }) := by
  obtain ⟨current, found, hLive, hDoomed, hIssues, hBatch⟩ := hDooms.planned
  have hDepth : checkDepth type name = .ok () := if_pos hDooms.fits
  obtain ⟨ticket, taken, hLocked⟩ := @exists_locked Bool store _ hFree
  have hStamped : (issueStamp (some (Catalog.latestStamp found))).run { store with locks := taken } =
      (.ok stamp, { store with locks := taken, lastStamp := stamp }) :=
    run_issueStamp_iff.mpr ⟨hIssues, rfl⟩
  refine ⟨taken.release ticket, ?_⟩
  rw [drop, run_complete, prepareDrop,
    run_inspect_bind_of_ok (a := ()) (by simp [ensureOpen, hDooms.isOpen, hDepth]), hLocked,
    run_inspect_bind_of_ok hLive]
  simp only
  rw [run_inspect_bind_of_ok hDoomed, run_bind_of_ok hStamped, run_inspect_bind_of_ok hBatch]
  show (commit _).run _ = _
  rw [run_commit, hWrite]
  rfl

/-- Where something was dropped it was found, and its tombstones were written. -/
theorem drop_eq_true {after : Store}
    (hRun : (drop type name cascade).run store = (.ok true, after)) :
    ∃ batch, store.Dooms type name cascade after.lastStamp batch ∧
      store.backend.write batch = .ok after.backend ∧
      after = { store with
        backend := after.backend
        locks := after.locks
        lastStamp := after.lastStamp } := by
  rw [drop, run_complete] at hRun
  generalize hPrepare : (prepareDrop type name cascade).run store = prepared at hRun
  obtain ⟨found, middle⟩ := prepared
  cases found with
  | error error => cases hRun
  | ok found =>
    cases found with
    | settled answer =>
      cases hRun
      rcases prepareDrop_eq_ok hPrepare with hSettled | ⟨change, hPending, _⟩
      · cases hSettled
      · cases hPending
    | pending change =>
      obtain ⟨hDooms, ticket, hChange, hMiddle⟩ := prepareDrop_eq_pending hPrepare
      rw [hChange] at hRun
      simp only [run_commit] at hRun
      rw [hMiddle] at hRun
      cases hWrite : store.backend.write change.batch with
      | error fault =>
        simp only [hWrite] at hRun
        cases hRun
      | ok backend =>
        simp only [hWrite] at hRun
        cases hRun
        exact ⟨change.batch, hDooms, hWrite, rfl⟩

/-- What was dropped among locks that others hold is dropped without them too, and the outcome
differs in the locks alone. -/
theorem exists_runDuring_drop (hIdle : store.locks.grants = []) {locks : Locks} {faults : List Call}
    {after : Store}
    (hRun : (drop type name cascade).runDuring faults { store with locks } = (.ok true, after)) :
    ∃ idle, (drop type name cascade).runDuring faults store =
      (.ok true, { after with locks := idle }) := by
  obtain ⟨left, hRan, rfl⟩ := runDuring_eq hRun
  obtain ⟨batch, hDooms, hWrite, hLeft⟩ := drop_eq_true hRan
  have hAlone : (store.withFaults faults).Dooms type name cascade left.lastStamp batch :=
    hDooms.of_locks store.locks
  have hFree : (store.withFaults faults).locks.AreFree [name.path] :=
    Locks.areFree_of_idle hIdle _
  obtain ⟨idle, hDrop⟩ := hAlone.exists_run hFree hWrite
  refine ⟨idle, ?_⟩
  rw [runDuring, hDrop, hLeft]
  rfl

end

/-! ### Room and time -/

end Store

/-- The tombstones of a subtree have the size of the keys of what is dropped, and some bytes more. -/
theorem Turn.opsSize_vanishAll (stamp : Stamp) (residents : List Resident) :
    Storage.Record.opsSize (batch stamp (vanishAll residents) none) =
      ((residents.map fun resident => resident.slot.key resident.version.stamp).map
        fun key => key.length + 24).sum := by
  induction residents with
  | nil => rfl
  | cons resident rest ih =>
    have hCons : batch stamp (vanishAll (resident :: rest)) none =
        .put (resident.slot.key stamp) (Version.encodeValue .tombstone []) ::
          .delete (Key.id resident.entity.id) :: batch stamp (vanishAll rest) none := rfl
    rw [hCons, Storage.Record.opsSize_cons, Storage.Record.opsSize_cons, ih]
    simp only [List.map_cons, List.sum_cons, Storage.Record.opSize, Slot.key, Key.version, Key.id,
      Version.encodeValue, EntityId.bytes, List.length_append, List.length_cons, List.length_nil,
      Bytes.length_big, Stamp.length_bytes, Stamp.size]
    omega

namespace Store

/-- There is room for the tombstones unless the keys of all rows together are huge. -/
theorem Dooms.hasRoom {store : Store} {allowed : Stamp → Prop} {known : EntityId → Prop}
    (hFormed : store.backend.rows.IsFormed allowed known) {type : EntityType} {name : Name}
    (hValid : name.IsValid) {cascade : Bool} {stamp : Stamp} {batch : Storage.Batch}
    (hDooms : store.Dooms type name cascade stamp batch)
    (hSmall : 4 + (store.backend.rows.entries.map fun row => row.1.length + 24).sum < UInt32.size) :
    store.backend.HasRoom batch := by
  let root : Slot := ⟨type, name, hDooms.fits, hValid⟩
  obtain ⟨residents, hSubtree, rfl, _⟩ :=
    @Dooms.exists_residents store _ _ root _ _ _ hDooms hFormed
  have hOnce : (residents.map fun resident => resident.slot.key resident.version.stamp).Nodup := by
    have hSlots := hSubtree.once
    rw [List.Nodup, List.pairwise_map] at hSlots ⊢
    exact hSlots.imp fun hApart hKey => hApart (Slot.key_injective hKey).1
  have hPart : (residents.map fun resident => resident.slot.key resident.version.stamp) ⊆
      store.backend.rows.entries.map Prod.fst := by
    intro key hKey
    obtain ⟨resident, hMem, rfl⟩ := List.mem_map.mp hKey
    have hHas := Rows.hasVersion_of_newest? hFormed (hSubtree.lives resident hMem).newest
    exact List.mem_map.mpr ⟨_, (store.backend.rows.get?_eq_some_iff _ _).mp hHas.found, rfl⟩
  have hSize := Storage.sum_map_le_of_subset hOnce hPart fun key => key.length + 24
  have hKeys : (store.backend.rows.entries.map Prod.fst).map (fun key => key.length + 24) =
      store.backend.rows.entries.map fun row => row.1.length + 24 := List.map_map
  rw [hKeys] at hSize
  refine store.backend.hasRoom_of_fits ?_
  rw [Storage.Record.Fits, Turn.opsSize_vanishAll]
  exact Nat.lt_of_le_of_lt (Nat.add_le_add_left hSize 4) hSmall

/-- Whatever is dropped, the clock allows it if it is not behind any row by more than the skew, and
there is room if the rows are not huge. -/
theorem mayDrop_of_rows {store : Store} {allowed : Stamp → Prop} {known : EntityId → Prop}
    (hFormed : store.backend.rows.IsFormed allowed known) {type : EntityType} {name : Name}
    (hValid : name.IsValid)
    (hTimely : ∀ row ∈ store.backend.rows.entries, ∀ found ∈ (Key.split row.1).toOption,
      found.2.millis.toNat ≤ store.clock.toNat + store.settings.skewMillis.toNat)
    (hSmall : 4 + (store.backend.rows.entries.map fun row => row.1.length + 24).sum < UInt32.size)
    (cascade : Bool) : store.MayDrop type name cascade := by
  refine ⟨?_, fun stamp batch hDooms => hDooms.hasRoom hFormed hValid hSmall⟩
  intro _ slot version _ hNewest _
  have hHas := Rows.hasVersion_of_newest? hFormed hNewest
  have hRow := (store.backend.rows.get?_eq_some_iff _ _).mp hHas.found
  refine hTimely _ hRow (slot.stem, version.stamp) ?_
  have hSplit := Key.split_version slot.stem version.stamp slot.stem_ne_nil
  exact congrArg Except.toOption hSplit

/-! ### What is read afterwards -/

/-- Nothing leads to an entity of a type under a name: neither the name nor an id nor a list. -/
structure IsGone (store : Store) (type : EntityType) (name : Name) : Prop where
  missing : store.load type name = .error (.missing type name)
  unindexed : ∀ id entity, store.loadById id = .ok entity →
    ¬ (entity.type = type ∧ entity.name = name)
  unlisted : ∀ scope found, store.list scope type = .ok found → ∀ entity ∈ found, entity.name ≠ name

/-- What a store answers after an entity was dropped with everything alive below it. -/
structure HasDropped (before after : Store) (type : EntityType) (name : Name) : Prop where
  gone : ∀ other place entity, isWithin type name other place = true →
    before.load other place = .ok entity →
    after.IsGone other place ∧ after.loadById entity.id = .error (.missingId entity.id) ∧
      ∃ earlier, after.versions other place = .ok (earlier ++ [(after.lastStamp, .tombstone)])
  others : ∀ other place, ¬ (isWithin type name other place = true ∧ before.Has other place) →
    after.load other place = before.load other place
  otherIds : ∀ id, (∀ other place entity, isWithin type name other place = true →
    before.load other place = .ok entity → entity.id ≠ id) → after.loadById id = before.loadById id
  lists : ∀ scope other, after.list scope other = (before.list scope other).map
    (·.filter fun entity => !isWithin type name other entity.name)

/-- The locks make no difference to what is read. -/
theorem HasDropped.of_locks {before after : Store} {type : EntityType} {name : Name} {locks : Locks}
    (hDropped : before.HasDropped { after with locks } type name) :
    before.HasDropped after type name := by
  refine ⟨?_, hDropped.others, hDropped.otherIds, hDropped.lists⟩
  intro other place entity hInside hLoad
  obtain ⟨⟨hMissing, hUnindexed, hUnlisted⟩, hRest⟩ := hDropped.gone other place entity hInside hLoad
  exact ⟨⟨hMissing, hUnindexed, hUnlisted⟩, hRest⟩

theorem isGone_of_not_live {store : Store} (hSound : store.backend.rows.IsSound)
    (hSteady : store.IsSteady) (hOpen : store.closed = false) {slot : Slot}
    (hDead : ¬ store.backend.rows.IsLive slot) : store.IsGone slot.type slot.name := by
  have hMissing := load_of_not_live hSound.shaped hSteady hOpen hDead
  refine ⟨hMissing, ?_, ?_⟩
  · rintro id entity hLoad ⟨hType, hName⟩
    obtain ⟨place, hHolds, _⟩ := (loadById_eq_ok_iff hSound hSteady hOpen).mp hLoad
    obtain ⟨hPlace, _⟩ := hSound.shaped.name_of_holds hHolds
    have hKind : entity.type = place.type := by
      obtain ⟨version, _, _, hDecode⟩ := hHolds
      exact Entity.type_of_decode hDecode
    cases Slot.eq_of_parts (hKind.symm.trans hType) (hPlace.symm.trans hName)
    exact hDead (.of_holds hHolds)
  · intro scope found hFound entity hMem hName
    by_cases hDepth : scope.depth = slot.type.depth
    · obtain ⟨listed, hLists⟩ := exists_lists hSound.shaped hSteady hOpen hDepth
      cases Except.ok.inj (hFound.symm.trans hLists.listed)
      have hLoad := ((hLists.loaded entity).mp hMem).1
      rw [hName, hMissing] at hLoad
      cases hLoad
    · rw [list_of_other_depth hOpen hDepth] at hFound
      cases hFound

theorem IsGone.not_isLive {store : Store} (hSound : store.backend.rows.IsSound)
    (hSteady : store.IsSteady) (hOpen : store.closed = false) {slot : Slot}
    (hGone : store.IsGone slot.type slot.name) : ¬ store.backend.rows.IsLive slot := by
  intro hLive
  obtain ⟨entity, hLoad⟩ := (has_iff_isLive hSound hSteady hOpen).mpr hLive
  cases hGone.missing.symm.trans hLoad

end Store

namespace Turn

variable {rows : Rows} {root : Slot} {residents : List Resident}

/-- Where a subtree vanished nothing is left, and elsewhere everything. -/
theorem holds_vanishAll_iff (hSound : rows.IsSound) (hSubtree : IsSubtree rows root residents)
    {stamp : Stamp} (hReady : AreReady rows stamp (vanishAll residents)) {slot : Slot}
    {entity : Entity} :
    (rows.apply (batch stamp (vanishAll residents) none)).Holds slot entity ↔
      ¬ (slot = root ∨ slot.IsBelow root) ∧ rows.Holds slot entity := by
  rw [hReady.holds_iff hSound, written_vanishAll]
  constructor
  · rintro (⟨turn, hTurn, hTarget⟩ | ⟨hOther, hHolds⟩)
    · obtain ⟨resident, _, rfl⟩ := List.mem_map.mp hTurn
      cases hTarget
    · refine ⟨fun hInside => hOther ?_, hHolds⟩
      obtain ⟨resident, hMem, hSlot⟩ := hSubtree.complete slot hInside (.of_holds hHolds)
      exact List.mem_map.mpr ⟨resident, hMem, hSlot⟩
  · rintro ⟨hOutside, hHolds⟩
    refine Or.inr ⟨fun hWritten => hOutside ?_, hHolds⟩
    obtain ⟨resident, hMem, rfl⟩ := List.mem_map.mp hWritten
    exact hSubtree.inside resident hMem

end Turn

namespace Store

/-- An open store before and after a subtree vanished from its rows, and nothing else happened. -/
structure Vanishes (store after : Store) (root : Slot) (residents : List Resident) : Prop where
  sound : store.backend.rows.IsSound
  steady : store.IsSteady
  isOpen : store.closed = false
  subtree : IsSubtree store.backend.rows root residents
  ready : Turn.AreReady store.backend.rows after.lastStamp (Turn.vanishAll residents)
  rows : after.backend.rows =
    store.backend.rows.apply (Turn.batch after.lastStamp (Turn.vanishAll residents) none)
  stillSound : after.backend.rows.IsSound
  stillSteady : after.IsSteady
  closed : after.closed = store.closed

namespace Vanishes

variable {store after : Store} {root : Slot} {residents : List Resident}

theorem stillOpen (hVanishes : store.Vanishes after root residents) : after.closed = false :=
  hVanishes.closed.trans hVanishes.isOpen

theorem holds_iff (hVanishes : store.Vanishes after root residents) {slot : Slot}
    {entity : Entity} : after.backend.rows.Holds slot entity ↔
      ¬ (slot = root ∨ slot.IsBelow root) ∧ store.backend.rows.Holds slot entity := by
  rw [hVanishes.rows]
  exact Turn.holds_vanishAll_iff hVanishes.sound hVanishes.subtree hVanishes.ready

theorem not_isLive (hVanishes : store.Vanishes after root residents) {slot : Slot}
    (hInside : slot = root ∨ slot.IsBelow root) : ¬ after.backend.rows.IsLive slot := by
  intro hLive
  obtain ⟨entity, hThere, _⟩ := hVanishes.stillSound.shaped.holds_of_isLive hLive
  exact (hVanishes.holds_iff.mp hThere).1 hInside

/-- A name is still found unless it is within what vanished. -/
theorem load_eq_ok_iff (hVanishes : store.Vanishes after root residents) {type : EntityType}
    {name : Name} {entity : Entity} : after.load type name = .ok entity ↔
      store.load type name = .ok entity ∧ isWithin root.type root.name type name = false := by
  constructor
  · intro hLoad
    obtain ⟨slot, rfl, rfl, hThere⟩ := slot_of_load hVanishes.stillSound.shaped hLoad
    obtain ⟨hOutside, hBefore⟩ := hVanishes.holds_iff.mp hThere
    exact ⟨load_of_holds hVanishes.sound.shaped hVanishes.steady hVanishes.isOpen hBefore,
      Bool.eq_false_iff.mpr fun hInside => hOutside (isWithin_iff.mp hInside)⟩
  · rintro ⟨hLoad, hOutside⟩
    obtain ⟨slot, rfl, rfl, hBefore⟩ := slot_of_load hVanishes.sound.shaped hLoad
    refine load_of_holds hVanishes.stillSound.shaped hVanishes.stillSteady hVanishes.stillOpen
      (hVanishes.holds_iff.mpr ⟨?_, hBefore⟩)
    intro hInside
    rw [isWithin_iff.mpr hInside] at hOutside
    cases hOutside

/-- What did not vanish is answered as before, be it an entity or a refusal. -/
theorem load_eq (hVanishes : store.Vanishes after root residents) {type : EntityType} {name : Name}
    (hOther : ¬ (isWithin root.type root.name type name = true ∧ store.Has type name)) :
    after.load type name = store.load type name := by
  refine load_congr hVanishes.steady hVanishes.stillSteady hVanishes.closed hVanishes.sound.shaped
    hVanishes.stillSound.shaped ?_
  rintro slot rfl rfl
  rw [hVanishes.rows]
  refine hVanishes.ready.newest?_other hVanishes.sound.shaped ?_
  intro hWritten
  rw [Turn.written_vanishAll] at hWritten
  obtain ⟨resident, hMem, rfl⟩ := List.mem_map.mp hWritten
  exact hOther ⟨isWithin_iff.mpr (hVanishes.subtree.inside resident hMem),
    (has_iff_isLive hVanishes.sound hVanishes.steady hVanishes.isOpen).mpr
      (hVanishes.subtree.lives resident hMem).isLive⟩

/-- The history of what vanished ends with a tombstone. -/
theorem versions_eq (hVanishes : store.Vanishes after root residents) {slot : Slot}
    (hInside : slot = root ∨ slot.IsBelow root) (hLive : store.backend.rows.IsLive slot) :
    ∃ earlier, after.versions slot.type slot.name =
      .ok (earlier ++ [(after.lastStamp, .tombstone)]) := by
  obtain ⟨resident, hMem, rfl⟩ := hVanishes.subtree.complete slot hInside hLive
  have hWrite : (resident.slot, Flag.tombstone, ([] : Bytes)) ∈
      (Turn.vanishAll residents).flatMap Turn.writes :=
    List.mem_flatMap.mpr ⟨_, List.mem_map.mpr ⟨resident, hMem, rfl⟩, List.mem_singleton_self _⟩
  have hNewest := @Turn.AreReady.newest?_written _ _ _ none hVanishes.ready hVanishes.sound.shaped
    _ _ _ hWrite
  rw [← hVanishes.rows] at hNewest
  exact exists_versions_last hVanishes.stillSound.shaped hVanishes.stillSteady hVanishes.stillOpen
    hNewest rfl

theorem list_eq (hVanishes : store.Vanishes after root residents) (scope : Namespace)
    (type : EntityType) : after.list scope type = (store.list scope type).map
      (·.filter fun entity => !isWithin root.type root.name type entity.name) := by
  by_cases hDepth : scope.depth = type.depth
  · obtain ⟨found, hFound⟩ :=
      exists_lists hVanishes.sound.shaped hVanishes.steady hVanishes.isOpen hDepth
    obtain ⟨left, hLeft⟩ :=
      exists_lists hVanishes.stillSound.shaped hVanishes.stillSteady hVanishes.stillOpen hDepth
    have hSame : left = found.filter fun entity =>
        !isWithin root.type root.name type entity.name := by
      refine hLeft.eq_of_mem (hFound.ascending.filter _) ?_
      intro entity
      rw [hLeft.loaded, List.mem_filter, hFound.loaded, hVanishes.load_eq_ok_iff, Bool.not_eq_true']
      exact and_right_comm
    rw [hFound.listed, hLeft.listed, hSame]
    rfl
  · rw [list_of_other_depth hVanishes.isOpen hDepth, list_of_other_depth hVanishes.stillOpen hDepth]
    rfl

/-- Where a subtree vanished it was dropped. -/
theorem hasDropped (hVanishes : store.Vanishes after root residents) :
    store.HasDropped after root.type root.name := by
  refine ⟨?_, fun _ _ => hVanishes.load_eq, ?_, hVanishes.list_eq⟩
  · intro other place entity hInside hLoad
    obtain ⟨slot, rfl, rfl, hBefore⟩ := slot_of_load hVanishes.sound.shaped hLoad
    have hWithin := isWithin_iff.mp hInside
    refine ⟨isGone_of_not_live hVanishes.stillSound hVanishes.stillSteady hVanishes.stillOpen
      (hVanishes.not_isLive hWithin), ?_, hVanishes.versions_eq hWithin (.of_holds hBefore)⟩
    refine loadById_of_unknown hVanishes.stillSound hVanishes.stillSteady hVanishes.stillOpen ?_
    intro owner found hThere hId
    obtain ⟨hOutside, hFound⟩ := hVanishes.holds_iff.mp hThere
    exact hOutside (hVanishes.sound.slot_eq_of_id hFound hBefore hId ▸ hWithin)
  · intro id hApart
    refine loadById_congr hVanishes.steady hVanishes.stillSteady hVanishes.closed hVanishes.sound
      hVanishes.stillSound ?_
    intro slot entity hId
    rw [hVanishes.holds_iff]
    refine and_iff_right_of_imp ?_
    intro hBefore hInside
    exact hApart slot.type slot.name entity (isWithin_iff.mpr hInside)
      (load_of_holds hVanishes.sound.shaped hVanishes.steady hVanishes.isOpen hBefore) hId

end Vanishes

/-! ### What does not come back -/

end Store

/-- Whether a mutation can put something under a name where nothing is alive: it creates it, or gives
its name or one above it to something else. -/
def Mutation.Brings (type : EntityType) (name : Name) : Mutation → Prop
  | create place draft => draft.type = type ∧ place = name
  | alter other place _ changes =>
    Store.targetName place changes ≠ place ∧
      Store.isWithin other (Store.targetName place changes) type name = true
  | drop _ _ _ => False

/-- A turn puts its entity where nothing was only if the mutation brings it there. -/
theorem Mutation.Does.brings_or_isLive {rows : Rows} {mutation : Mutation} {deed : Deed}
    (hDoes : mutation.Does rows deed) {turn : Turn} (hTurn : turn ∈ deed.turns) {slot : Slot}
    {entity : Entity} (hTarget : turn.target? = some (slot, entity)) :
    mutation.Brings slot.type slot.name ∨ rows.IsLive slot := by
  cases hDoes with
  | create appears =>
    cases List.mem_singleton.mp hTurn
    cases hTarget
    exact Or.inl ⟨appears.type.symm, rfl⟩
  | rewrite rewrites same =>
    cases List.mem_singleton.mp hTurn
    cases hTarget
    exact Or.inr rewrites.lives.isLive
  | @relocate source target payload moves modifier changes relocation goal =>
    obtain ⟨move, hMove, rfl⟩ := List.mem_map.mp hTurn
    cases hTarget
    have hMoved : Store.targetName source.name changes ≠ source.name := fun hSame =>
      relocation.apart (Slot.eq_of_parts relocation.type (goal.trans hSame))
    refine Or.inl ⟨hMoved, ?_⟩
    rw [← goal, ← relocation.type, Store.isWithin_iff]
    exact (relocation.goes hMove).inside_target relocation.type
  | drop subtree =>
    obtain ⟨resident, _, rfl⟩ := List.mem_map.mp hTurn
    cases hTarget

namespace Command

def Brings (type : EntityType) (name : Name) : Command → Prop
  | mutate mutation => mutation.Brings type name
  | collect => False
  | sweep _ => False

/-- What is not alive stays so in a command that does not bring it. -/
theorem Changes.stays_dead {command : Command} {store after : Store}
    (hChanges : command.Changes store after) (hSound : store.backend.rows.IsSound)
    (hBefore : store.lastStamp ≠ .last) (hAfter : after.lastStamp ≠ .last) {slot : Slot}
    (hBrings : ¬ command.Brings slot.type slot.name) (hDead : ¬ store.backend.rows.IsLive slot) :
    ¬ after.backend.rows.IsLive slot := by
  cases hChanges with
  | kept rows =>
    rw [rows]
    exact hDead
  | mutated named _ does carries stamp rows =>
    have hReady := does.areReady hSound carries.issues hBefore (stamp ▸ hAfter)
    rw [rows, carries.batch]
    intro hLive
    obtain ⟨entity, hHolds, _⟩ := (hReady.isShaped hSound.shaped).holds_of_isLive hLive
    rcases (hReady.holds_iff hSound).mp hHolds with ⟨turn, hTurn, hTarget⟩ | ⟨_, hThere⟩
    · rw [named] at hBrings
      exact (does.brings_or_isLive hTurn hTarget).elim hBrings hDead
    · exact hDead (.of_holds hThere)
  | swept _ found rows =>
    rw [rows]
    exact fun hLive =>
      hDead ((Sweep.isThinned_swept hSound.shaped found hSound.shaped (.refl _)).isLive_iff.mp hLive)

end Command

namespace Store

/-- The states that a store comes to by some commands, while time passes and it is closed and opened
again. -/
inductive RunsBy (may : Command → Prop) (store : Store) : Store → Prop
  | here : RunsBy may store store
  | call {middle after : Store} {outcome : Except StoreError Reply} (command : Command)
      (faults : List Call) (valid : command.IsValid) (before : RunsBy may store middle)
      (ran : command.perform.runDuring faults middle = (outcome, after)) (inTime : after.InTime)
      (allowed : may command) : RunsBy may store after
  | tick {middle : Store} (now : Millis) (before : RunsBy may store middle) :
      RunsBy may store (middle.setClock now)
  | close {middle after : Store} {outcome : Except StoreError Unit} (faults : List Call)
      (before : RunsBy may store middle) (ran : close.runDuring faults middle = (outcome, after)) :
      RunsBy may store after
  | reopen {middle after : Store} {backend : Backend} {settings : Settings} {ids : IdSource}
      {clock : Millis} (before : RunsBy may store middle) (opened : middle.backend.Reopens backend)
      (made : ofBackend backend settings ids clock = .ok after) : RunsBy may store after

/-- What is not alive stays so through a run of commands that do not bring it. -/
theorem RunsBy.stays_dead {store later : Store} {slot : Slot}
    (hRuns : RunsBy (fun command => ¬ command.Brings slot.type slot.name) store later)
    (hReached : Reachable InTime store) (hDead : ¬ store.backend.rows.IsLive slot) :
    Reachable InTime later ∧ ¬ later.backend.rows.IsLive slot := by
  induction hRuns with
  | here => exact ⟨hReached, hDead⟩
  | call command faults valid _ ran inTime allowed ih =>
    obtain ⟨hMiddle, hHere⟩ := ih
    obtain ⟨left, rfl, hChanges⟩ := hMiddle.changes valid ran
    exact ⟨hMiddle.call command faults valid ran inTime,
      hChanges.stays_dead hMiddle.isSound hMiddle.allowed inTime allowed hHere⟩
  | tick now _ ih =>
    obtain ⟨hMiddle, hHere⟩ := ih
    exact ⟨hMiddle.tick now hMiddle.allowed, hHere⟩
  | close faults _ ran ih =>
    obtain ⟨hMiddle, hHere⟩ := ih
    obtain ⟨hAfter, hRows⟩ := reachable_closed hMiddle ran
    exact ⟨hAfter, hRows ▸ hHere⟩
  | reopen _ opened made ih =>
    obtain ⟨hMiddle, hHere⟩ := ih
    obtain ⟨hAfter, hRows⟩ := reachable_reopened hMiddle opened made
    exact ⟨hAfter, hRows ▸ hHere⟩

/-! ### Runs -/

/-- What dropping answers. -/
theorem Reachable.drop_answers {store : Store} (hReached : Reachable InTime store)
    (hOpen : store.closed = false) {root : Slot} {locks : Locks}
    (hFree : locks.AreFree [root.name.path]) {cascade : Bool}
    (hMay : store.MayDrop root.type root.name cascade) {answer : Except StoreError Bool} {after : Store}
    (hRan : (drop root.type root.name cascade).runDuring [] { store with locks } = (answer, after)) :
    (answer = .ok false ↔ ¬ store.Has root.type root.name) ∧
    (answer = .error (.notEmpty root.type root.name) ↔
      store.Has root.type root.name ∧ cascade = false ∧ store.HasBelow root.name) ∧
    (answer = .ok true ↔
      store.Has root.type root.name ∧ (cascade = true ∨ ¬ store.HasBelow root.name)) := by
  have hSound := hReached.isSound
  have hSteady := hReached.isSteady
  have hFaultless : ({ store with locks } : Store).withFaults [] = { store with locks } :=
    congrArg (fun other : Store => { other with locks }) (withFaults_nil hSteady)
  have hAnswer : ((drop root.type root.name cascade).run { store with locks }).1 = answer := by
    rw [runDuring, hFaultless] at hRan
    exact (Prod.mk.inj hRan).1
  have hBelow := @hasBelow_iff store hSound hSteady hOpen root
  rw [has_iff_isLive hSound hSteady hOpen, hBelow, ← hAnswer]
  by_cases hLive : store.backend.rows.IsLive root
  · by_cases hKept : cascade = false ∧
        ∃ slot : Slot, slot.IsBelow root ∧ store.backend.rows.IsLive slot
    · obtain ⟨rfl, hSome⟩ := hKept
      rw [run_drop_of_inhabited hSound hSteady hOpen hFree hLive hSome]
      simp [hLive, hSome]
    · have hAlone : cascade = true ∨
          ¬ ∃ slot : Slot, slot.IsBelow root ∧ store.backend.rows.IsLive slot := by
        cases cascade with
        | true => exact Or.inl rfl
        | false => exact Or.inr fun hSome => hKept ⟨rfl, hSome⟩
      obtain ⟨stamp, batch, hDooms⟩ := exists_dooms hSound hSteady hOpen hLive
        (hAlone.imp_right fun hEmpty slot hUnder hThere => hEmpty ⟨slot, hUnder, hThere⟩)
        fun slot version hInside => hMay.timely (hAlone.imp_right (mt hBelow.mp)) slot version
          (isWithin_iff.mpr hInside)
      obtain ⟨written, hWrite⟩ := Backend.exists_write_of_hasRoom
        ⟨hSteady.isOpen hOpen, hSteady.faults, hSteady.faithful⟩ (hMay.room _ _ hDooms)
      obtain ⟨left, hDrop⟩ := (hDooms.of_locks locks).exists_run hFree hWrite
      rw [hDrop]
      simp only [reduceCtorEq, Except.ok.injEq, Bool.true_eq_false, false_iff, true_iff]
      exact ⟨fun hDead => hDead hLive, fun hAll => hKept hAll.2, hLive, hAlone⟩
  · rw [run_drop_of_dead hSound hSteady hOpen hFree hLive]
    simp [hLive]

/-- After something was dropped the run goes on, and everything is read as it should be. -/
theorem Reachable.drop_leads {store : Store} (hReached : Reachable InTime store)
    (hOpen : store.closed = false) {root : Slot} {cascade : Bool} {faults : List Call} {after : Store}
    (hRan : (drop root.type root.name cascade).runDuring faults store = (.ok true, after))
    (hAfter : after.InTime) :
    Reachable InTime after ∧ after.closed = store.closed ∧
      store.HasDropped after root.type root.name := by
  let command : Command := .mutate (.drop root.type root.name cascade)
  have hCommand : command.perform.runDuring faults store = (.ok (.dropped true), after) := by
    show (do return Reply.dropped (← drop root.type root.name cascade) :
      Action Reply).runDuring faults store = _
    rw [runDuring_bind_pure, hRan]
    rfl
  have hThere := hReached.call command faults root.valid hCommand hAfter
  have hSound := hReached.isSound
  obtain ⟨left, hLeft, rfl⟩ := runDuring_eq hRan
  obtain ⟨batch, hDooms, hWrite, hSame⟩ := drop_eq_true hLeft
  have hFaulty : (store.withFaults faults).backend.rows.IsSound := hSound
  obtain ⟨residents, hSubtree, rfl, hIssues⟩ := hDooms.exists_residents hFaulty.shaped
  have hReady : Turn.AreReady store.backend.rows left.lastStamp (Turn.vanishAll residents) :=
    (@Mutation.Does.drop _ root residents cascade hSubtree).areReady hSound hIssues hReached.allowed
      hAfter
  have hRows : (left.withFaults []).backend.rows = store.backend.rows.apply
      (Turn.batch left.lastStamp (Turn.vanishAll residents) none) := (Backend.write_eq_ok hWrite).1
  have hClosed : (left.withFaults []).closed = store.closed := by
    rw [hSame]
    rfl
  have hVanishes : store.Vanishes (left.withFaults []) root residents :=
    ⟨hSound, hReached.isSteady, hOpen, hSubtree, hReady, hRows, hThere.isSound, hThere.isSteady,
      hClosed⟩
  exact ⟨hThere, hClosed, hVanishes.hasDropped⟩

/-- **Dropping.**  Whoever else holds locks, dropping answers that there was nothing exactly if
nothing is alive under the name, that the entity is not empty exactly if it is alive, something is
alive below it and there is no cascade, and otherwise that it was dropped. Then nothing leads to it
and to what was alive below it, their histories end with tombstones, and everything else is read as
before. Nothing that was below it comes back before it is itself created or moved there again,
however often the entity is. -/
theorem Reachable.drops {store : Store} (hReached : Reachable InTime store)
    (hOpen : store.closed = false) {type : EntityType} {name : Name} (hValid : name.IsValid)
    (hDepth : name.scope.depth = type.depth) {locks : Locks} (hFree : locks.AreFree [name.path])
    {cascade : Bool} (hMay : store.MayDrop type name cascade) :
    (∃ answer left, (drop type name cascade).runDuring [] { store with locks } = (answer, left) ∧
      (answer = .ok false ↔ ¬ store.Has type name) ∧
      (answer = .error (.notEmpty type name) ↔
        store.Has type name ∧ cascade = false ∧ store.HasBelow name) ∧
      (answer = .ok true ↔ store.Has type name ∧ (cascade = true ∨ ¬ store.HasBelow name))) ∧
    ∀ (faults : List Call) (after : Store),
      (drop type name cascade).runDuring faults { store with locks } = (.ok true, after) →
      after.InTime →
      store.HasDropped after type name ∧
      ∃ idle, (drop type name cascade).runDuring faults store =
          (.ok true, { after with locks := idle }) ∧
        ∀ other below old, name.isAncestorOf below = true → store.load other below = .ok old →
          (∀ draft, ¬ (Command.mutate (.create name draft)).Brings other below) ∧
          ∀ later, RunsBy (fun command => ¬ command.Brings other below) { after with locks := idle }
            later → later.closed = false → later.IsGone other below := by
  let root : Slot := ⟨type, name, hDepth, hValid⟩
  constructor
  · generalize hRan : (drop type name cascade).runDuring [] { store with locks } = ran
    obtain ⟨answer, left⟩ := ran
    exact ⟨answer, left, rfl,
      @Reachable.drop_answers store hReached hOpen root locks hFree cascade hMay _ _ hRan⟩
  · intro faults after hRan hAfter
    obtain ⟨idle, hAlone⟩ := exists_runDuring_drop hReached.isSteady.grants hRan
    obtain ⟨hThere, hClosed, hDropped⟩ :=
      @Reachable.drop_leads store hReached hOpen root cascade faults _ hAlone hAfter
    refine ⟨hDropped.of_locks, idle, hAlone, ?_⟩
    intro other below old hAbove hLoad
    obtain ⟨slot, rfl, rfl, _⟩ := slot_of_load hReached.isSound.shaped hLoad
    have hBelow : slot.IsBelow root := Slot.isAncestorOf_iff_isBelow.mp hAbove
    constructor
    · rintro draft ⟨_, hSame⟩
      exact hBelow.2 (congrArg Name.path hSame)
    · intro later hRuns hStillOpen
      obtain ⟨hGone, _⟩ := hDropped.gone _ _ old ((@isWithin_iff root slot).mpr (Or.inr hBelow)) hLoad
      have hDead := hGone.not_isLive hThere.isSound hThere.isSteady (hClosed.trans hOpen)
      obtain ⟨hLater, hStill⟩ := hRuns.stays_dead hThere hDead
      exact isGone_of_not_live hLater.isSound hLater.isSteady hStillOpen hStill

end Store

namespace Sample

/-- The locks while somebody changes another metalake. -/
def bayLocks : Locks := (vaulted.locks.acquire [["bay"]]).2

def dropMetalake (name : Name) (cascade : Bool) : Except StoreError Bool × Store :=
  (Store.drop .metalake name cascade).runDuring [] { vaulted with locks := bayLocks }

/-- The store without the metalake and all that was in it. -/
def razed : Store := ((Store.drop .metalake lake true).runDuring [] vaulted).2

/-- The store with the metalake made anew. -/
def rebuilt : Store := (makeLake.perform.runDuring [] razed).2

theorem mayDrop_vaulted {name : Name} (hValid : name.IsValid) (cascade : Bool) :
    vaulted.MayDrop .metalake name cascade :=
  Store.mayDrop_of_rows reachable_vaulted.isFormed hValid (by decide +kernel) (by decide +kernel)
    cascade

/-- A metalake that does not exist is not found, the one that does is not dropped without what is in
it, and when it was dropped and made again nothing of this is there. -/
theorem drops_vaulted :
    (dropMetalake seaSlot.name true).1 = .ok false ∧
    (dropMetalake lake false).1 = .error (.notEmpty .metalake lake) ∧
    ∃ after, dropMetalake lake true = (.ok true, after) ∧
      vaulted.HasDropped after .metalake lake ∧
      rebuilt.Has .metalake lake ∧ rebuilt.IsGone .catalog hive ∧ rebuilt.IsGone .schema vault := by
  obtain ⟨hOpen, hLakeOk, hHiveOk, hVaultOk, hSeaNot⟩ : vaulted.closed = false ∧
      (vaulted.load .metalake lake).isOk = true ∧ (vaulted.load .catalog hive).isOk = true ∧
      (vaulted.load .schema vault).isOk = true ∧
      (vaulted.load .metalake seaSlot.name).isOk = false := by
    decide +kernel
  obtain ⟨hFree, hSeaFree⟩ : bayLocks.AreFree [lake.path] ∧ bayLocks.AreFree [seaSlot.name.path] := by
    decide +kernel
  have hValid : lake.IsValid := lakeSlot.valid
  have hLake : vaulted.Has .metalake lake := Outcome.exists_of_isOk hLakeOk
  have hHive : vaulted.Has .catalog hive := Outcome.exists_of_isOk hHiveOk
  have hVault : vaulted.Has .schema vault := Outcome.exists_of_isOk hVaultOk
  have hAbove : lake.isAncestorOf hive = true ∧ lake.isAncestorOf vault = true := by decide +kernel
  refine ⟨?_, ?_, ?_⟩
  · obtain ⟨answer, left, hRan, hNothing, _⟩ := (reachable_vaulted.drops hOpen seaSlot.valid rfl
      hSeaFree (mayDrop_vaulted seaSlot.valid true)).1
    rw [dropMetalake, hRan]
    refine hNothing.mpr ?_
    rintro ⟨entity, hLoad⟩
    rw [hLoad] at hSeaNot
    cases hSeaNot
  · obtain ⟨answer, left, hRan, _, hRefused, _⟩ := (reachable_vaulted.drops hOpen hValid rfl
      hFree (mayDrop_vaulted hValid false)).1
    rw [dropMetalake, hRan]
    exact hRefused.mpr ⟨hLake, rfl, .catalog, hive, hAbove.1, hHive⟩
  · obtain ⟨⟨answer, left, hRan, _, _, hDropped⟩, hLeads⟩ := reachable_vaulted.drops hOpen
      hValid rfl hFree (mayDrop_vaulted hValid true)
    cases hDropped.mpr ⟨hLake, Or.inl rfl⟩
    have hLeft : (dropMetalake lake true).2.InTime := by decide +kernel
    obtain ⟨hInTime, hStillOpen, hLakeAgain⟩ : rebuilt.InTime ∧ rebuilt.closed = false ∧
        (rebuilt.load .metalake lake).isOk = true := by
      decide +kernel
    rw [dropMetalake, hRan] at hLeft
    obtain ⟨hHas, idle, hAlone, hStays⟩ := hLeads [] left hRan hLeft
    have hRazed : razed = { left with locks := idle } := congrArg Prod.snd hAlone
    have hGone : ∀ other below, lake.isAncestorOf below = true → vaulted.Has other below →
        rebuilt.IsGone other below := by
      rintro other below hBelow ⟨old, hOld⟩
      obtain ⟨hSpared, hStill⟩ := hStays other below old hBelow hOld
      refine hStill rebuilt ?_ hStillOpen
      rw [← hRazed]
      exact Store.RunsBy.here.call makeLake [] hValid (Prod.eta _).symm hInTime (hSpared _)
    exact ⟨left, hRan, hHas, Outcome.exists_of_isOk hLakeAgain, hGone _ _ hAbove.1 hHive,
      hGone _ _ hAbove.2 hVault⟩

end Sample

end VersionedCatalog
