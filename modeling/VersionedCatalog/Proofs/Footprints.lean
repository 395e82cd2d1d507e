import VersionedCatalog.Proofs.Commands

/-! # What mutations read

A mutation reads the newest versions of the slots near the paths that it locks, and one that creates
an entity reads the rows of the index for the id that it asks for, or for the ids that it draws.
Over another backend that looks the same there (`Backend.LooksAs`) it is prepared in the same way,
whatever else is in the rows and whatever comes of it (`Mutation.prepare_mirrors`).
-/

namespace VersionedCatalog

open Storage (Rows Backend Call)
open VersionedCatalog.Action

/-- Two backends over sound rows that cannot be told apart near some paths and by some ids. -/
structure Storage.Backend.LooksAs (paths : List Path) (asks : EntityId → Prop)
    (backend other : Backend) : Prop where
  faults : other.faults = backend.faults
  isClosed : other.isClosed = backend.isClosed
  sound : backend.rows.IsSound
  otherSound : other.rows.IsSound
  newest : ∀ slot, Turn.IsNear paths slot → other.rows.newest? slot = backend.rows.newest? slot
  index : ∀ id, asks id → other.rows.get? (Key.id id) = backend.rows.get? (Key.id id)

theorem Storage.Backend.LooksAs.mono {paths : List Path} {asks fewer : EntityId → Prop}
    {backend other : Backend} (hLooks : backend.LooksAs paths asks other)
    (hFewer : ∀ id, fewer id → asks id) : backend.LooksAs paths fewer other :=
  ⟨hLooks.faults, hLooks.isClosed, hLooks.sound, hLooks.otherSound, hLooks.newest,
    fun id hAsks => hLooks.index id (hFewer id hAsks)⟩

theorem Storage.Backend.LooksAs.permit {paths : List Path} {asks : EntityId → Prop}
    {backend other : Backend} (hLooks : backend.LooksAs paths asks other) (call : Call) :
    other.permit call = backend.permit call := by
  simp only [Backend.permit, Backend.ensureSound, Backend.ensureOpen, hLooks.faults,
    hLooks.isClosed]

/-! ### Lookups -/

namespace Catalog

section
variable {paths : List Path} {asks : EntityId → Prop} {backend other : Backend}
  (hLooks : backend.LooksAs paths asks other)
include hLooks

theorem latest?_near {slot : Slot} (hNear : Turn.IsNear paths slot) :
    latest? other slot.stem = latest? backend slot.stem := by
  rw [latest?_eq hLooks.otherSound.shaped, latest?_eq hLooks.sound.shaped, hLooks.permit,
    hLooks.newest slot hNear]

theorem live?_near {slot : Slot} (hNear : Turn.IsNear paths slot) :
    live? other slot.type slot.name = live? backend slot.type slot.name := by
  rw [live?_eq hLooks.otherSound.shaped, live?_eq hLooks.sound.shaped, hLooks.permit,
    hLooks.newest slot hNear]

theorem entity?_near {slot : Slot} (hNear : Turn.IsNear paths slot) :
    entity? other slot.type slot.name = entity? backend slot.type slot.name := by
  rw [entity?, live?_near hLooks hNear]
  rfl

theorem indexed?_near {id : EntityId} (hAsks : asks id) :
    indexed? other id = indexed? backend id := by
  rw [indexed?_eq, indexed?_eq, hLooks.permit, hLooks.index id hAsks]

/-- A scan of a range near the paths finds the same versions, in the same order. -/
theorem liveBelow_near {type : EntityType} {path : List String}
    (hLength : path.length ≤ type.depth + 1)
    (hNear : ∀ slot : Slot, slot.type = type → path <+: slot.path → Turn.IsNear paths slot) :
    liveBelow other (Key.typed type path) = liveBelow backend (Key.typed type path) := by
  refine liveBelow_eq_of_newest hLooks.sound.shaped hLooks.otherSound.shaped ?_ hLength
    fun slot hType hPath version _ => ?_
  · rw [hLooks.permit]
  · rw [hLooks.newest slot (hNear slot hType hPath)]

theorem liveBelow_deeper {root : Slot} (hRoot : root.path ∈ paths) {type : EntityType}
    (hDeeper : type ∈ root.type.deeper) :
    liveBelow other (Key.typed type root.path) = liveBelow backend (Key.typed type root.path) := by
  refine liveBelow_near hLooks ?_ fun slot _ hPath => ⟨root.path, hRoot, Or.inl hPath⟩
  have hDepth := EntityType.mem_deeper_iff.mp hDeeper
  rw [root.length_path]
  omega

/-! ### What is dropped -/

omit hLooks in
theorem liveInRanges_congr {ranges : List (EntityType × Bytes)}
    (hEach : ∀ range ∈ ranges, liveBelow other range.2 = liveBelow backend range.2) :
    liveInRanges other ranges = liveInRanges backend ranges := by
  induction ranges with
  | nil => rfl
  | cons range rest ih =>
    obtain ⟨hFirst, hRest⟩ := List.forall_mem_cons.mp hEach
    rw [liveInRanges, liveInRanges, hFirst, ih hRest]

theorem doomed_near {root : Slot} (hRoot : root.path ∈ paths) (cascade : Bool) (current : Version) :
    doomed other root.type root.name cascade current =
      doomed backend root.type root.name cascade current := by
  have hBelow : liveInRanges other (Key.descendants root.type root.name) =
      liveInRanges backend (Key.descendants root.type root.name) := by
    refine liveInRanges_congr fun range hRange => ?_
    obtain ⟨type, hDeeper, rfl⟩ := List.mem_map.mp hRange
    exact liveBelow_deeper hLooks hRoot hDeeper
  rw [doomed, doomed, hBelow]

/-! ### What is moved -/

theorem floorAt_near {slot : Slot} (hNear : Turn.IsNear paths slot) (stamp : Stamp) :
    floorAt other slot.stem stamp = floorAt backend slot.stem stamp := by
  rw [floorAt, floorAt, latest?_near hLooks hNear]

section
variable {source target : Slot} (hType : source.type = target.type) (hTarget : target.path ∈ paths)
include hType hTarget

theorem relocate_near {resident : Resident} (hLives : resident.Lives backend.rows)
    (hBelow : resident.slot.IsBelow source) :
    relocate other source.name target.name resident.slot.type resident.version =
      relocate backend source.name target.name resident.slot.type resident.version := by
  obtain ⟨goal, hGoal, hGoalBelow, hRebase⟩ := Slot.exists_moved hBelow hType
  have hName := (hLooks.sound.shaped.name_of_holds hLives.holds).1
  have hStem : Key.entity resident.slot.type goal.name = goal.stem := by rw [← hGoal]; rfl
  have hNear : Turn.IsNear paths goal := ⟨target.path, hTarget, Or.inl hGoalBelow.1⟩
  have hFloor := floorAt_near hLooks hNear resident.version.stamp
  simp [relocate, decode, hLives.decoded, hName, hRebase, hStem, hFloor]

omit hLooks hType hTarget in
theorem relocateAll_congr {source target : Name} {type : EntityType} {versions : List Version}
    (hEach : ∀ version ∈ versions,
      relocate other source target type version = relocate backend source target type version) :
    relocateAll other source target type versions =
      relocateAll backend source target type versions := by
  induction versions with
  | nil => rfl
  | cons version rest ih =>
    obtain ⟨hFirst, hRest⟩ := List.forall_mem_cons.mp hEach
    rw [relocateAll, relocateAll, hFirst, ih hRest]

/-- What is found below the source is moved in the same way. -/
theorem relocateAll_near {type : EntityType} (hDeeper : type ∈ source.type.deeper)
    {versions : List Version}
    (hOk : liveBelow backend (Key.typed type source.path) = .ok versions) :
    relocateAll other source.name target.name type versions =
      relocateAll backend source.name target.name type versions := by
  refine relocateAll_congr fun version hVersion => ?_
  have hShaped := hLooks.sound.shaped
  have hLength : source.path.length ≤ type.depth + 1 := by
    have hDepth := EntityType.mem_deeper_iff.mp hDeeper
    rw [source.length_path]
    omega
  obtain ⟨slot, rfl, hPath, hNewest, hLive⟩ :=
    (mem_liveBelow_iff hShaped hLength hOk version).mp hVersion
  obtain ⟨resident, rfl, rfl, hLives⟩ := Resident.exists_of_newest? hShaped hNewest hLive
  exact relocate_near hLooks hType hTarget hLives (Slot.isBelow_iff_deeper.mpr ⟨hDeeper, hPath⟩)

theorem relocateRanges_near (hSource : source.path ∈ paths) {types : List EntityType}
    (hDeeper : ∀ type ∈ types, type ∈ source.type.deeper) :
    relocateRanges other source.name target.name
        (types.map fun type => (type, Key.typed type source.path)) =
      relocateRanges backend source.name target.name
        (types.map fun type => (type, Key.typed type source.path)) := by
  induction types with
  | nil => rfl
  | cons type rest ih =>
    obtain ⟨hFirst, hRest⟩ := List.forall_mem_cons.mp hDeeper
    rw [List.map_cons, relocateRanges, relocateRanges, ih hRest,
      liveBelow_deeper hLooks hSource hFirst]
    cases hOk : liveBelow backend (Key.typed type source.path) with
    | error error => rfl
    | ok versions =>
      have hMoved := relocateAll_near hLooks hType hTarget hFirst hOk
      simp only [Outcome.ok_bind, hMoved]

theorem relocateTree_near (hSource : source.path ∈ paths) {updated : Entity}
    (hUpdated : updated.type = source.type) (stamp : Stamp) :
    relocateTree other source.name stamp updated target.name =
      relocateTree backend source.name stamp updated target.name := by
  have hStem : Key.entity updated.type target.name = target.stem := by
    rw [hUpdated, hType]
    rfl
  have hRoot : Turn.IsNear paths target := ⟨target.path, hTarget, Or.inl List.prefix_rfl⟩
  have hDeeper : ∀ type ∈ source.type.deeper, type ∈ source.type.deeper := fun _ hMem => hMem
  have hBelow := relocateRanges_near hLooks hType hTarget hSource hDeeper
  have hRanges : Key.descendants updated.type source.name =
      source.type.deeper.map fun type => (type, Key.typed type source.path) := by
    rw [hUpdated]
    rfl
  simp only [relocateTree, hStem, hRanges, latest?_near hLooks hRoot, hBelow]

end

/-! ### What is created -/

/-- Who has an id may be far from the paths, but that it lives says the index already. -/
theorem claimId_near {id : EntityId} (hAsks : asks id) (stem : Bytes) :
    claimId other id stem = claimId backend id stem := by
  have hSame := hLooks.index id hAsks
  rw [claimId, claimId, indexed?_near hLooks hAsks, indexed?_eq]
  cases backend.permit .get with
  | error fault => rfl
  | ok _ =>
    cases hIndex : backend.rows.get? (Key.id id) with
    | none => rfl
    | some owner =>
      rw [hIndex] at hSame
      obtain ⟨slot, entity, hHolds, _, rfl⟩ := hLooks.sound.index.mp hIndex
      obtain ⟨place, found, hFound, _, hStem⟩ := hLooks.otherSound.index.mp hSame
      rw [← Slot.stem_injective hStem] at hFound
      obtain ⟨stamp, hEntity⟩ := entity?_of_holds hLooks.sound.shaped hHolds
      obtain ⟨otherStamp, hOther⟩ := entity?_of_holds hLooks.otherSound.shaped hFound
      have hDecode : decodeStem slot.stem = .ok (slot.type, slot.name) := by
        rw [decodeStem, slot.decodeEntity_stem]
        rfl
      rw [hLooks.permit] at hOther
      cases hPermit : backend.permit .last <;>
        simp [hDecode, hEntity, hOther, hPermit]

/-- The catalog of a schema is above everything in the schema. -/
theorem catalogRoot?_near {parent : Slot} (hType : parent.type = .schema)
    (hNear : ∀ slot : Slot, slot.path <+: parent.path → Turn.IsNear paths slot) {schema : Entity}
    (hName : schema.name = parent.name) :
    catalogRoot? other schema = catalogRoot? backend schema := by
  have hNotRoot : parent.type ≠ .metalake := by rw [hType]; decide
  obtain ⟨above, hAbove⟩ := Slot.exists_parent hNotRoot
  have hCatalog : above.type = .catalog := by
    have hParent := hAbove.type
    rw [hType] at hParent
    exact (Option.some.inj hParent).symm
  have hEntity := entity?_near hLooks (hNear above ⟨_, hAbove.path_eq.symm⟩)
  rw [hCatalog] at hEntity
  simp only [catalogRoot?, hName, hAbove.name, hEntity]

omit hLooks in
theorem resolveKind_congr {name : Name} {parent : Option Entity} {kind : Kind}
    (hParent : kind.type = .fileset → ∀ schema ∈ parent,
      catalogRoot? other schema = catalogRoot? backend schema) :
    resolveKind other name parent kind = resolveKind backend name parent kind := by
  cases kind with
  | fileset filesetType location =>
    cases parent with
    | none => rfl
    | some schema =>
      have hRoot := hParent rfl schema rfl
      simp only [resolveKind, resolveLocation, hRoot]
  | _ => rfl

end

end Catalog

/-! ### Actions over another backend -/

/-- The same store over another backend. -/
def Store.over (store : Store) (backend : Backend) : Store := { store with backend }

namespace Store

variable (store : Store) (backend : Backend)

@[simp] theorem over_backend : (store.over backend).backend = backend := rfl

@[simp] theorem over_settings : (store.over backend).settings = store.settings := rfl

@[simp] theorem over_ids : (store.over backend).ids = store.ids := rfl

@[simp] theorem over_clock : (store.over backend).clock = store.clock := rfl

@[simp] theorem over_lastStamp : (store.over backend).lastStamp = store.lastStamp := rfl

@[simp] theorem over_ensureOpen : (store.over backend).ensureOpen = store.ensureOpen := rfl

@[simp] theorem over_locks : (store.over backend).locks = store.locks := rfl

end Store

namespace Action

variable {α β : Type}

/-- An action that ends over another backend as it ends over the one of the store. -/
def Mirrors (x : Action α) (store : Store) (other : Backend) : Prop :=
  x.run (store.over other) = ((x.run store).1, (x.run store).2.over other)

variable {store : Store} {other : Backend}

theorem mirrors_pure (a : α) : (pure a : Action α).Mirrors store other := rfl

theorem mirrors_throw (error : StoreError) : (throw error : Action α).Mirrors store other := rfl

theorem mirrors_inspect {look : Store → Except StoreError α}
    (hSame : look (store.over other) = look store) : (inspect look).Mirrors store other := by
  rw [Mirrors, run_inspect, run_inspect, hSame]

theorem Mirrors.bind {x : Action α} {f : α → Action β} (hFirst : x.Mirrors store other)
    (hRest : ∀ a middle, x.run store = (.ok a, middle) → (f a).Mirrors middle other) :
    (x >>= f).Mirrors store other := by
  rw [Mirrors, run_bind, run_bind, hFirst]
  generalize hRun : x.run store = outcome
  obtain ⟨found, middle⟩ := outcome
  cases found with
  | error error => rfl
  | ok a => exact hRest a middle hRun

theorem mirrors_get_bind {f : Store → Action β} (hSame : f (store.over other) = f store)
    (hRest : (f store).Mirrors store other) : (get >>= f).Mirrors store other := by
  rw [Mirrors, run_bind, run_bind, run_get, run_get]
  simp only [hSame]
  exact hRest

/-- What follows an inspection goes on in the same state. -/
theorem mirrors_inspect_bind {look : Store → Except StoreError α} {f : α → Action β}
    (hSame : look (store.over other) = look store)
    (hRest : ∀ a, look store = .ok a → (f a).Mirrors store other) :
    (inspect look >>= f).Mirrors store other := by
  refine (mirrors_inspect hSame).bind fun a middle hRun => ?_
  obtain ⟨hLook, rfl⟩ := inspect_run_eq_ok hRun
  exact hRest a hLook

end Action

namespace Store

variable {α : Type} {paths : List Path} {asks : EntityId → Prop} {store : Store} {other : Backend}

theorem mirrors_issueStamp (latest : Option Stamp) : (issueStamp latest).Mirrors store other := by
  rw [Mirrors, run_issueStamp, run_issueStamp, over_settings, over_clock, over_lastStamp]
  cases Stamp.next store.settings.skewMillis store.clock store.lastStamp latest <;> rfl

theorem mirrors_drawId : drawId.Mirrors store other := by
  rw [Mirrors, run_drawId, run_drawId, over_ids]
  cases store.ids.draw? <;> rfl

theorem mirrors_freeId (hLooks : store.backend.LooksAs paths asks other) (hAll : ∀ id, asks id)
    (attempts : Nat) : (freeId attempts).Mirrors store other := by
  induction attempts generalizing store with
  | zero => exact mirrors_throw _
  | succ attempts ih =>
    refine mirrors_drawId.bind fun id middle hDrawn => ?_
    have hSame := (isQuiet_drawId.draws hDrawn).backend
    rw [← hSame] at hLooks
    refine mirrors_inspect_bind (Catalog.indexed?_near hLooks (hAll id)) fun found _ => ?_
    split
    next => exact mirrors_pure id
    next => exact ih hLooks

/-- Choosing an id looks up the one that is asked for, or else the ones that are drawn. -/
theorem mirrors_chooseId (hLooks : store.backend.LooksAs paths asks other)
    {requested : Option EntityId} (hAsks : ∀ id, (∀ wanted ∈ requested, id = wanted) → asks id)
    (stem : Bytes) : (chooseId requested stem).Mirrors store other := by
  cases requested with
  | none =>
    have hAll : ∀ id, asks id := fun id => hAsks id fun wanted hWanted => by cases hWanted
    exact mirrors_freeId hLooks hAll idAttempts
  | some wanted =>
    have hOne : asks wanted := hAsks wanted fun _ hSame => Option.some.inj hSame
    exact mirrors_inspect_bind (Catalog.claimId_near hLooks hOne stem) fun _ _ => mirrors_pure wanted

theorem mirrors_underLocks {body : Nat → Action (Prepared α)}
    (hBody : ∀ ticket locks, (body ticket).Mirrors { store with locks } other) :
    (underLocks paths body).Mirrors store other := by
  rw [Mirrors, run_underLocks, run_underLocks, over_locks]
  generalize store.locks.acquire paths = acquired
  obtain ⟨granted, locks⟩ := acquired
  cases granted with
  | error timeout => rfl
  | ok grant =>
    have hSame : (body grant.ticket).run { store.over other with locks } = _ :=
      hBody grant.ticket locks
    simp only [hSame]
    generalize (body grant.ticket).run { store with locks } = outcome
    obtain ⟨found, after⟩ := outcome
    cases found with
    | error error => rfl
    | ok prepared => cases prepared <;> rfl

/-! ### Preparing -/

theorem parentOf_near (hLooks : store.backend.LooksAs paths asks other) {slot : Slot}
    (hSlot : slot.path ∈ paths) :
    (store.over other).parentOf slot.type slot.name = store.parentOf slot.type slot.name := by
  by_cases hType : slot.type = .metalake
  · rw [hType]
    cases hName : slot.name.parent? <;> simp [parentOf, EntityType.parent?, hName]
  · obtain ⟨parent, hParent⟩ := Slot.exists_parent hType
    have hNear : Turn.IsNear paths parent := ⟨slot.path, hSlot, Or.inr ⟨_, hParent.path_eq.symm⟩⟩
    have hEntity := Catalog.entity?_near hLooks hNear
    simp only [parentOf, hParent.name, hParent.type, load, over_ensureOpen, over_backend, hEntity]

/-- The kind of a new entity depends on nothing but its parent and the parent of that. -/
theorem resolveKind_near (hLooks : store.backend.LooksAs paths asks other) {slot : Slot}
    (hSlot : slot.path ∈ paths) {kind : Kind} (hKind : kind.type = slot.type)
    {parent : Option Entity} (hParent : store.parentOf slot.type slot.name = .ok parent) :
    Catalog.resolveKind other slot.name parent kind =
      Catalog.resolveKind store.backend slot.name parent kind := by
  refine Catalog.resolveKind_congr fun hFileset schema hSchema => ?_
  have hType : slot.type = .fileset := hKind.symm.trans hFileset
  have hNotRoot : slot.type ≠ .metalake := by rw [hType]; decide
  obtain ⟨above, hAbove⟩ := Slot.exists_parent hNotRoot
  obtain ⟨entity, rfl, hHolds⟩ := parentOf_eq_ok hParent hAbove
  cases hSchema
  have hAboveType : above.type = .schema := by
    have hParentType := hAbove.type
    rw [hType] at hParentType
    exact (Option.some.inj hParentType).symm
  refine Catalog.catalogRoot?_near hLooks hAboveType (fun place hPlace => ?_)
    (hLooks.sound.shaped.name_of_holds hHolds).1
  exact ⟨slot.path, hSlot, Or.inr (hPlace.trans ⟨_, hAbove.path_eq.symm⟩)⟩

theorem mirrors_prepareCreate {name : Name} (hValid : name.IsValid) {draft : Draft}
    (hLooks : store.backend.LooksAs [name.path] asks other)
    (hAsks : ∀ requested, requestedId draft = .ok requested →
      ∀ id, (∀ wanted ∈ requested, id = wanted) → asks id) :
    (prepareCreate name draft).Mirrors store other := by
  refine mirrors_inspect_bind rfl fun requested hChecked => mirrors_underLocks fun ticket locks => ?_
  obtain ⟨_, _, hChecked⟩ := Outcome.bind_eq_ok hChecked
  obtain ⟨_, hDepth, hRequested⟩ := Outcome.bind_eq_ok hChecked
  generalize hLocked : ({ store with locks } : Store) = locked
  have hBackend : locked.backend = store.backend := by rw [← hLocked]
  rw [← hBackend] at hLooks
  let slot : Slot := ⟨draft.type, name, checkDepth_eq_ok hDepth, hValid⟩
  have hSlot : slot.path ∈ [name.path] := List.mem_singleton.mpr rfl
  have hHere : Turn.IsNear [name.path] slot := ⟨_, hSlot, Or.inl List.prefix_rfl⟩
  have hParents := parentOf_near hLooks hSlot
  refine mirrors_inspect_bind hParents fun parent hParent => ?_
  have hLatest := Catalog.latest?_near hLooks hHere
  refine mirrors_inspect_bind hLatest fun latest _ => ?_
  split
  next => exact mirrors_inspect_bind rfl fun existing _ => mirrors_pure _
  next =>
    have hType : draft.kind.type = slot.type := rfl
    have hKind := resolveKind_near hLooks hSlot hType hParent
    refine mirrors_inspect_bind hKind fun kind _ => ?_
    refine (mirrors_chooseId hLooks (hAsks requested hRequested) _).bind fun id drawn _ => mirrors_get_bind rfl ?_
    exact (mirrors_issueStamp _).bind fun stamp stamped _ =>
      mirrors_inspect_bind rfl fun batch _ => mirrors_pure _

theorem mirrors_prepareDrop {type : EntityType} {name : Name} (hValid : name.IsValid)
    {cascade : Bool} (hLooks : store.backend.LooksAs [name.path] asks other) :
    (prepareDrop type name cascade).Mirrors store other := by
  refine mirrors_inspect_bind rfl fun _ hChecked => mirrors_underLocks fun ticket locks => ?_
  obtain ⟨_, _, hDepth⟩ := Outcome.bind_eq_ok hChecked
  generalize hLocked : ({ store with locks } : Store) = locked
  have hBackend : locked.backend = store.backend := by rw [← hLocked]
  rw [← hBackend] at hLooks
  let root : Slot := ⟨type, name, checkDepth_eq_ok hDepth, hValid⟩
  have hRoot : root.path ∈ [name.path] := List.mem_singleton.mpr rfl
  have hLive := Catalog.live?_near hLooks ⟨root.path, hRoot, Or.inl List.prefix_rfl⟩
  refine mirrors_inspect_bind hLive fun live _ => ?_
  cases live with
  | none => exact mirrors_pure _
  | some current =>
    have hDoomed := Catalog.doomed_near hLooks hRoot cascade current
    refine mirrors_inspect_bind hDoomed fun doomed _ => ?_
    exact (mirrors_issueStamp _).bind fun stamp stamped _ =>
      mirrors_inspect_bind rfl fun batch _ => mirrors_pure _

theorem mirrors_prepareAlter {type : EntityType} {name : Name} (hValid : name.IsValid)
    {modifier : String} {changes : List Change}
    (hLooks : store.backend.LooksAs (lockedPaths name (targetName name changes)) asks other) :
    (prepareAlter type name modifier changes).Mirrors store other := by
  refine mirrors_inspect_bind rfl fun _ hChecked => mirrors_underLocks fun ticket locks => ?_
  obtain ⟨_, _, hChecked⟩ := Outcome.bind_eq_ok hChecked
  obtain ⟨_, hDepth, _⟩ := Outcome.bind_eq_ok hChecked
  generalize hLocked : ({ store with locks } : Store) = locked
  have hBackend : locked.backend = store.backend := by rw [← hLocked]
  rw [← hBackend] at hLooks
  let source : Slot := ⟨type, name, checkDepth_eq_ok hDepth, hValid⟩
  have hSource : source.path ∈ lockedPaths name (targetName name changes) := by
    unfold lockedPaths
    split <;> exact List.mem_cons_self
  have hLoad : (locked.over other).loadForChange source.type source.name =
      locked.loadForChange source.type source.name := by
    have hNear := Catalog.entity?_near hLooks ⟨source.path, hSource, Or.inl List.prefix_rfl⟩
    simp only [loadForChange, over_backend, hNear]
  refine mirrors_inspect_bind hLoad fun found hFound => ?_
  obtain ⟨stamp, current⟩ := found
  obtain ⟨resident, hSlot, rfl, rfl, hLives, hName, _⟩ :=
    @loadForChange_eq_ok locked _ _ source hLooks.sound.shaped _ _ hFound
  dsimp only
  split
  next => exact mirrors_pure _
  next =>
    have hChanged : (locked.over other).changed modifier changes resident.entity =
        locked.changed modifier changes resident.entity := rfl
    refine mirrors_inspect_bind hChanged fun updated hUpdated => ?_
    split
    next =>
      exact (mirrors_issueStamp _).bind fun issued stamped _ =>
        mirrors_inspect_bind rfl fun version _ => mirrors_pure _
    next hMoved =>
      obtain ⟨hKeeps, hGoal, hStaysValid, hScope⟩ := changed_eq_ok hUpdated
      rw [hName] at hGoal hStaysValid hScope
      let target : Slot := ⟨type, targetName name changes, by
        rw [← hGoal, hScope]; exact source.fits, hGoal ▸ hStaysValid hValid⟩
      have hTarget : target.path ∈ lockedPaths name (targetName name changes) := by
        rw [lockedPaths, if_neg hMoved]
        exact List.mem_cons_of_mem _ List.mem_cons_self
      have hUpdatedType : updated.type = source.type := by
        rw [hKeeps.type, Entity.type_of_decode hLives.decoded, hSlot]
      have hSameType : source.type = target.type := rfl
      have hMoves := Catalog.relocateTree_near hLooks hSameType hTarget hSource hUpdatedType
        resident.version.stamp
      refine mirrors_inspect_bind hMoves fun moves _ => ?_
      refine (mirrors_issueStamp _).bind fun issued stamped _ => ?_
      have hSettings : (stamped.over other).settings = stamped.settings := rfl
      exact mirrors_inspect_bind (Relocation.batch_congr hSettings issued moves) fun batch _ =>
        mirrors_pure _

end Store

namespace Mutation

/-- The ids that a mutation may look up in the index. -/
def AsksFor : Mutation → EntityId → Prop
  | create _ draft, id => ∀ wanted, Store.requestedId draft = .ok (some wanted) → id = wanted
  | alter _ _ _ _, _ => False
  | drop _ _ _, _ => False

/-- The ids that a mutation looks up if it comes to choosing one. -/
def LooksUp : Mutation → EntityId → Prop
  | create _ draft, id =>
    ∃ requested, Store.requestedId draft = .ok requested ∧ ∀ wanted ∈ requested, id = wanted
  | alter _ _ _ _, _ => False
  | drop _ _ _, _ => False

theorem LooksUp.asksFor {mutation : Mutation} {id : EntityId} (hLooksUp : mutation.LooksUp id) :
    mutation.AsksFor id := by
  cases mutation with
  | create name draft =>
    obtain ⟨requested, hRequested, hOnly⟩ := hLooksUp
    exact fun wanted hWanted => hOnly wanted (Except.ok.inj (hRequested.symm.trans hWanted))
  | alter | drop => exact hLooksUp

theorem prepare_mirrors_lookups {mutation : Mutation} (hValid : mutation.name.IsValid) {store : Store}
    {other : Backend} (hLooks : store.backend.LooksAs mutation.paths mutation.LooksUp other) :
    mutation.prepare.Mirrors store other := by
  cases mutation with
  | create name draft =>
    have hCreate := Store.mirrors_prepareCreate hValid hLooks fun requested hRequested id hOnly =>
      ⟨requested, hRequested, hOnly⟩
    exact hCreate.bind fun prepared _ _ => mirrors_pure _
  | alter type name modifier changes =>
    exact (Store.mirrors_prepareAlter hValid hLooks).bind fun prepared _ _ => mirrors_pure _
  | drop type name cascade =>
    exact (Store.mirrors_prepareDrop hValid hLooks).bind fun prepared _ _ => mirrors_pure _

/-- A mutation reads nothing but what is near the paths that it locks and rows of the index for the
ids that it asks for. -/
theorem prepare_mirrors {mutation : Mutation} (hValid : mutation.name.IsValid) {store : Store}
    {other : Backend} (hLooks : store.backend.LooksAs mutation.paths mutation.AsksFor other) :
    mutation.prepare.Mirrors store other :=
  prepare_mirrors_lookups hValid (hLooks.mono fun _ hLooksUp => hLooksUp.asksFor)

end Mutation

end VersionedCatalog
