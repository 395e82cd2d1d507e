import VersionedCatalog.Proofs.Altering

/-! # When altering succeeds

Altering succeeds exactly by writing what it finds: where it succeeded it found something to write, or
there were no changes (`Store.alter_eq_ok`), and where it finds something that can be written it
succeeds (`Store.Amends.exists_run`). Locks make no difference to what is found
(`Store.Amends.of_locks`), and a tree can be relocated to every slot of its type that is not live
(`Catalog.exists_relocateTree`).
-/

namespace VersionedCatalog

open Storage (Rows Backend Call)
open VersionedCatalog.Action

/-! ### Relocating succeeds -/

namespace Catalog

variable {backend : Backend} {allowed : Stamp → Prop} {known : EntityId → Prop}

theorem relocateAll_of_each {source target : Name} {type : EntityType} {versions : List Version}
    (hEach : ∀ version ∈ versions, ∃ relocation,
      relocate backend source target type version = .ok relocation) :
    ∃ relocations, relocateAll backend source target type versions = .ok relocations := by
  induction versions with
  | nil => exact ⟨[], rfl⟩
  | cons version rest ih =>
    obtain ⟨⟨first, hFirst⟩, hRest⟩ := List.forall_mem_cons.mp hEach
    obtain ⟨others, hOthers⟩ := ih hRest
    exact ⟨first :: others, by simp [relocateAll, hFirst, hOthers]⟩

section
variable (hFormed : backend.rows.IsFormed allowed known) (hMay : ∀ call, backend.permit call = .ok ())
include hFormed hMay

theorem exists_floorAt (slot : Slot) (stamp : Stamp) :
    ∃ floor, floorAt backend slot.stem stamp = .ok floor := by
  have hLatest := latest?_eq hFormed slot
  rw [hMay] at hLatest
  rw [floorAt, hLatest]
  cases backend.rows.newest? slot with
  | none => exact ⟨_, rfl⟩
  | some version => exact ⟨_, rfl⟩

theorem exists_relocate {source target : Slot} (hType : source.type = target.type)
    {resident : Resident} (hLives : resident.Lives backend.rows)
    (hBelow : resident.slot.IsBelow source) : ∃ relocation,
      relocate backend source.name target.name resident.slot.type resident.version =
        .ok relocation := by
  have hDecode : decode resident.slot.type resident.version = .ok resident.entity := by
    rw [decode, hLives.decoded]
    rfl
  obtain ⟨hName, _⟩ := hFormed.name_of_holds hLives.holds
  obtain ⟨goal, hGoalType, _, hRebase⟩ := Slot.exists_moved hBelow hType
  obtain ⟨floor, hFloor⟩ := exists_floorAt hFormed hMay goal resident.version.stamp
  rw [Slot.stem, hGoalType] at hFloor
  refine ⟨⟨resident.version.stem, Key.entity resident.slot.type goal.name,
    { resident.entity with name := goal.name }, floor⟩, ?_⟩
  rw [relocate, hDecode, Outcome.ok_bind, hName, hRebase]
  simp [hFloor]

theorem exists_relocateRanges {source target : Slot} (hType : source.type = target.type)
    {types : List EntityType} (hDeeper : ∀ type ∈ types, type ∈ source.type.deeper) :
    ∃ relocations, relocateRanges backend source.name target.name
      (types.map fun type => (type, Key.typed type source.path)) = .ok relocations := by
  induction types with
  | nil => exact ⟨[], rfl⟩
  | cons type rest ih =>
    obtain ⟨hFirst, hRest⟩ := List.forall_mem_cons.mp hDeeper
    obtain ⟨others, hOthers⟩ := ih hRest
    obtain ⟨versions, hVersions⟩ := exists_liveBelow hFormed type source.path
    rw [hMay] at hVersions
    have hLength : source.path.length ≤ type.depth + 1 := by
      have hDepth := EntityType.mem_deeper_iff.mp hFirst
      rw [source.length_path]
      omega
    have hFound := mem_liveBelow_iff hFormed hLength hVersions
    obtain ⟨moved, hMoved⟩ : ∃ moved,
        relocateAll backend source.name target.name type versions = .ok moved := by
      refine relocateAll_of_each fun version hMem => ?_
      obtain ⟨slot, rfl, hPath, hNewest, hLive⟩ := (hFound version).mp hMem
      obtain ⟨resident, rfl, rfl, hLives⟩ := Resident.exists_of_newest? hFormed hNewest hLive
      exact exists_relocate hFormed hMay hType hLives (Slot.isBelow_iff_deeper.mpr ⟨hFirst, hPath⟩)
    refine ⟨moved ++ others, ?_⟩
    rw [List.map_cons, relocateRanges, hVersions, hOthers]
    simp [hMoved]

/-- A tree can be relocated to a slot of its type that is not live. -/
theorem exists_relocateTree {source target : Slot} (hType : source.type = target.type)
    (hDead : ¬ backend.rows.IsLive target) {entity : Entity} (hEntity : entity.type = source.type)
    (stamp : Stamp) : ∃ relocations,
      relocateTree backend source.name stamp entity target.name = .ok relocations := by
  have hLatest := latest?_eq hFormed target
  rw [hMay, Slot.stem, ← hType] at hLatest
  have hFree : (backend.rows.newest? target).any Version.isLive = false := by
    rw [Rows.isLive_iff_any] at hDead
    exact Bool.eq_false_iff.mpr hDead
  obtain ⟨others, hOthers⟩ :=
    exists_relocateRanges hFormed hMay hType fun _ (hMem : _ ∈ source.type.deeper) => hMem
  have hRanges : relocateRanges backend source.name target.name
      (Key.descendants source.type source.name) = .ok others := hOthers
  simp [relocateTree, hEntity, hLatest, hFree, hRanges]

end

end Catalog

namespace Store

/-! ### What is found is written -/

section
variable {store after : Store} {type : EntityType} {name : Name} {modifier : String}
  {changes : List Change} {updated : Entity} {stamp : Stamp} {batch : Storage.Batch}

/-- What is to be written depends on what is stored, on the settings, on the clock and on the stamp that
was given out last. -/
theorem rewriting_congr {other : Store} (hBackend : other.backend = store.backend)
    (hSettings : other.settings = store.settings) (hClock : other.clock = store.clock)
    (hLast : other.lastStamp = store.lastStamp) {target : Name} {latest : Stamp} :
    other.Rewriting type name target latest updated stamp batch ↔
      store.Rewriting type name target latest updated stamp batch := by
  simp only [Rewriting, Issues, putLive, encode, format, hBackend, hSettings, hClock, hLast,
    Relocation.batch_congr hSettings]

/-- The locks make no difference to what is found. -/
theorem Amends.of_locks {locks : Locks}
    (hAmends : ({ store with locks } : Store).Amends type name modifier changes updated stamp batch) :
    store.Amends type name modifier changes updated stamp batch := by
  obtain ⟨latest, current, hLoad, hChanged, hWriting⟩ := hAmends.planned
  exact ⟨hAmends.isOpen, hAmends.fits, hAmends.checked, hAmends.changing, latest, current, hLoad,
    hChanged, (@rewriting_congr store _ _ _ _ _ { store with locks } rfl rfl rfl rfl _ _).mp hWriting⟩

/-- What is found is prepared where the locks are free. -/
theorem Amends.exists_prepared
    (hAmends : store.Amends type name modifier changes updated stamp batch)
    (hFree : store.locks.AreFree (lockedPaths name (targetName name changes))) :
    ∃ ticket locks, (prepareAlter type name modifier changes).run store =
      (.ok (.pending ⟨batch, some ticket, none, false, updated⟩),
        { store with locks, lastStamp := stamp }) := by
  obtain ⟨latest, current, hLoad, hChanged, hWriting⟩ := hAmends.planned
  have hEnsure := ensureOpen_eq_ok_iff.mpr hAmends.isOpen
  have hDepth : checkDepth type name = .ok () := if_pos hAmends.fits
  have hNotEmpty : changes.isEmpty = false := by
    rw [List.isEmpty_eq_false_iff]
    exact hAmends.changing
  obtain ⟨ticket, locks, hLocked⟩ := @exists_locked Entity store _ hFree
  have hFound : ({ store with locks } : Store).loadForChange type name = .ok (latest, current) := hLoad
  have hUpdated : ({ store with locks } : Store).changed modifier changes current = .ok updated :=
    hChanged
  have hStamped : ∀ {floor}, store.Issues (some floor) stamp →
      (issueStamp (some floor)).run { store with locks } =
        (.ok stamp, { store with locks, lastStamp := stamp }) := fun hIssues =>
    run_issueStamp_iff.mpr ⟨hIssues, rfl⟩
  refine ⟨ticket, locks, ?_⟩
  rw [prepareAlter, run_inspect_bind_of_ok (a := ()) (by simp [hEnsure, hDepth, hAmends.checked]),
    hLocked, run_inspect_bind_of_ok hFound]
  simp only [hNotEmpty, Bool.false_eq_true, if_false]
  rw [run_inspect_bind_of_ok hUpdated]
  rw [Rewriting] at hWriting
  split at hWriting
  next hSame =>
    obtain ⟨hIssues, op, hPut, rfl⟩ := hWriting
    have hOp : ({ store with locks, lastStamp := stamp } : Store).putLive (Key.entity type name)
        stamp updated = .ok op := hPut
    rw [if_pos hSame, run_bind_of_ok (hStamped hIssues), run_inspect_bind_of_ok hOp]
    rfl
  next hMoved =>
    obtain ⟨moves, hRelocate, hIssues, hBatch⟩ := hWriting
    have hMoves : Catalog.relocateTree ({ store with locks } : Store).backend name latest updated
        (targetName name changes) = .ok moves := hRelocate
    have hRows := @Relocation.batch_congr store { store with locks, lastStamp := stamp } rfl stamp moves
    rw [hBatch] at hRows
    rw [if_neg hMoved, run_inspect_bind_of_ok hMoves, run_bind_of_ok (hStamped hIssues),
      run_inspect_bind_of_ok hRows]
    rfl

/-- What is found and can be written is the outcome. -/
theorem Amends.exists_run (hAmends : store.Amends type name modifier changes updated stamp batch)
    (hFree : store.locks.AreFree (lockedPaths name (targetName name changes))) {backend : Backend}
    (hWrite : store.backend.write batch = .ok backend) :
    ∃ locks, (alter type name modifier changes).run store =
      (.ok updated, { store with backend, locks, lastStamp := stamp }) := by
  obtain ⟨ticket, locks, hPrepared⟩ := hAmends.exists_prepared hFree
  refine ⟨locks.release ticket, ?_⟩
  rw [alter, run_complete, hPrepared]
  simp only [run_commit, hWrite]
  rfl

/-- What is found to be changed is what is loaded. -/
theorem load_of_loadForChange (hOpen : store.closed = false)
    (hFits : name.scope.depth = type.depth) {latest : Stamp} {current : Entity}
    (hLoad : store.loadForChange type name = .ok (latest, current)) :
    store.load type name = .ok current := by
  have hEnsure := ensureOpen_eq_ok_iff.mpr hOpen
  have hDepth : checkDepth type name = .ok () := if_pos hFits
  obtain ⟨found, hFound, hRest⟩ := Outcome.bind_eq_ok hLoad
  cases found with
  | none => cases hRest
  | some found =>
    cases hRest
    simp [load, hEnsure, hDepth, hFound]

/-- Without changes altering answers what is there, and changes nothing but the locks. -/
theorem prepareAlter_eq_settled
    (hRun : (prepareAlter type name modifier changes).run store = (.ok (.settled updated), after)) :
    changes = [] ∧ store.load type name = .ok updated ∧
      after = { store with locks := after.locks } := by
  have hNone : changes = [] := by
    by_contra hSome
    obtain ⟨change, hPending⟩ := (prepareAlter_eq_ok hRun).mpr hSome
    cases hPending
  subst hNone
  have hOpen := isOpen_of_run hRun
  obtain ⟨_, hChecked, hRest⟩ := inspect_bind_run_eq_ok hRun
  obtain ⟨_, _, hChecked⟩ := Outcome.bind_eq_ok hChecked
  obtain ⟨_, hDepth, _⟩ := Outcome.bind_eq_ok hChecked
  obtain ⟨ticket, locks, middle, hBody, _, hSettled⟩ := exists_body_of_ok hRest
  cases hSettled updated rfl
  obtain ⟨⟨latest, current⟩, hLoad, hLast⟩ := inspect_bind_run_eq_ok hBody
  cases hLast
  exact ⟨rfl, load_of_loadForChange hOpen (checkDepth_eq_ok hDepth) hLoad, rfl⟩

/-- Where altering succeeds it has nothing to change and answers what is there, or it has written what
it found. -/
theorem alter_eq_ok (hRun : (alter type name modifier changes).run store = (.ok updated, after)) :
    (changes = [] ∧ store.load type name = .ok updated ∧
        after = { store with locks := after.locks }) ∨
      ∃ batch, store.Amends type name modifier changes updated after.lastStamp batch ∧
        store.backend.write batch = .ok after.backend ∧
        after = { store with
          backend := after.backend
          locks := after.locks
          lastStamp := after.lastStamp } := by
  rw [alter, run_complete] at hRun
  generalize hPrepare : (prepareAlter type name modifier changes).run store = prepared at hRun
  obtain ⟨found, middle⟩ := prepared
  cases found with
  | error error => cases hRun
  | ok found =>
    cases found with
    | settled answer =>
      cases hRun
      exact Or.inl (prepareAlter_eq_settled hPrepare)
    | pending change =>
      obtain ⟨hAmends, ticket, hChange, hMiddle⟩ := prepareAlter_eq_pending hPrepare
      rw [hChange] at hRun
      simp only [run_commit] at hRun
      rw [hMiddle] at hRun
      cases hWrite : store.backend.write change.batch with
      | error fault =>
        simp only [hWrite] at hRun
        cases hRun
      | ok backend =>
        simp only [hWrite] at hRun
        cases hRun
        exact Or.inr ⟨change.batch, hAmends, hWrite, rfl⟩

end

end Store

end VersionedCatalog
