import VersionedCatalog.Proofs.Moving

/-! # What altering plans

Where there are changes, altering finds the entity as it is and as it will be, a stamp that comes after
all that is written over, and what is to be written (`Store.Amends`), and it plans to write this
(`Store.prepareAlter_eq_pending`). The entity stays in its slot with other contents
(`Store.Rewriting.exists_stay`), or it moves with everything alive below it to a slot that is not live
(`Store.Rewriting.exists_moves`). In sound rows both are ready (`Rewrites.areReady`,
`Turn.areReady_moveAll`).
-/

namespace VersionedCatalog

open Storage (Rows Backend)
open VersionedCatalog.Action

/-- A live entity that is written with other contents in the slot where it is. -/
structure Rewrites (rows : Rows) (resident : Resident) (entity : Entity) (payload : Bytes) :
    Prop where
  lives : resident.Lives rows
  id : entity.id = resident.entity.id
  writing : Turn.IsWriting resident.slot entity payload

theorem Rewrites.areReady {rows : Rows} {resident : Resident} {entity : Entity} {payload : Bytes}
    (hRewrites : Rewrites rows resident entity payload) (hSound : rows.IsSound) {stamp : Stamp}
    (hNotLast : stamp ≠ .last) (hLater : resident.version.stamp < stamp) :
    Turn.AreReady rows stamp [.stay resident.slot resident.entity entity payload] := by
  refine Turn.areReady_singleton ⟨hRewrites.lives.holds, hRewrites.id, hRewrites.writing⟩ rfl rfl
    hNotLast (fun version hNewest => ?_) fun parent hParent =>
      hSound.parents hParent hRewrites.lives.isLive
  cases Option.some.inj (hRewrites.lives.newest.symm.trans hNewest)
  exact hLater

namespace Store

variable {store after : Store}

/-- Whether an entity can be written in the format of a store. -/
def CanWrite (store : Store) (entity : Entity) : Prop :=
  ∃ payload, store.encode entity = .ok payload

/-- The payload that an entity is written with. -/
def payloadOf (store : Store) (entity : Entity) : Bytes :=
  match store.encode entity with
  | .ok payload => payload
  | .error _ => []

/-- The rows of some moves are those of their turns, and what they write can be read. -/
theorem relocationBatch_eq_ok {rows : Rows} {source target : Slot} {stamp : Stamp}
    {moves : List Move} (hLeads : ∀ move ∈ moves, move.Leads rows source target)
    {batch : Storage.Batch}
    (hOk : Relocation.batch store stamp (moves.map Move.relocation) = .ok batch) :
    batch = Turn.batch stamp (Turn.moveAll store.payloadOf moves) none ∧
      ∀ move ∈ moves,
        Entity.decode move.entity.type (store.payloadOf move.entity) = .ok move.entity := by
  induction moves generalizing batch with
  | nil => cases hOk; exact ⟨rfl, fun _ hMem => (List.not_mem_nil hMem).elim⟩
  | cons move rest ih =>
    obtain ⟨hFirst, hLeadsRest⟩ := List.forall_mem_cons.mp hLeads
    obtain ⟨ops, hOps, hRest⟩ := Outcome.bind_eq_ok hOk
    obtain ⟨others, hOthers, hLast⟩ := Outcome.bind_eq_ok hRest
    cases hLast
    obtain ⟨rfl, hDecode⟩ := ih hLeadsRest hOthers
    obtain ⟨version, hVersion, hLast⟩ := Outcome.bind_eq_ok hOps
    cases hLast
    obtain ⟨payload, hPayload, hLast⟩ := Outcome.bind_eq_ok hVersion
    cases hLast
    have hEncode : store.encode move.entity = .ok payload := hPayload
    have hHere : store.payloadOf move.entity = payload := by rw [payloadOf, hEncode]
    refine ⟨?_, List.forall_mem_cons.mpr ⟨?_, hDecode⟩⟩
    · have hText : move.relocation.entity.name = move.target.name := hFirst.name
      have hTurns : Turn.moveAll store.payloadOf (move :: rest) =
          move.turn store.payloadOf :: Turn.moveAll store.payloadOf rest := rfl
      rw [hText, hTurns, Turn.batch_cons, ← hHere]
      rfl
    · rw [hHere]
      exact Entity.decode_encode (Outcome.mapError_eq_ok hEncode)

end Store

/-- How moves are written depends on the settings alone. -/
theorem Relocation.batch_congr {store other : Store} (hSettings : other.settings = store.settings)
    (stamp : Stamp) (moves : List Relocation) :
    batch other stamp moves = batch store stamp moves := by
  induction moves with
  | nil => rfl
  | cons move rest ih =>
    rw [batch, batch, ih, ops, ops, Store.putLive, Store.putLive, Store.encode, Store.encode,
      Store.format, Store.format, hSettings]

/-- Moves can be written exactly if all entities that move can. -/
theorem Relocation.exists_batch_iff {store : Store} {stamp : Stamp} {relocations : List Relocation} :
    (∃ batch, Relocation.batch store stamp relocations = .ok batch) ↔
      ∀ relocation ∈ relocations, store.CanWrite relocation.entity := by
  induction relocations with
  | nil => exact iff_of_true ⟨[], rfl⟩ fun _ hMem => (List.not_mem_nil hMem).elim
  | cons relocation rest ih =>
    rw [List.forall_mem_cons, ← ih]
    constructor
    · rintro ⟨batch, hBatch⟩
      obtain ⟨ops, hOps, hRest⟩ := Outcome.bind_eq_ok hBatch
      obtain ⟨others, hOthers, _⟩ := Outcome.bind_eq_ok hRest
      obtain ⟨version, hVersion, _⟩ := Outcome.bind_eq_ok hOps
      obtain ⟨payload, hPayload, _⟩ := Outcome.bind_eq_ok hVersion
      exact ⟨⟨payload, hPayload⟩, others, hOthers⟩
    · rintro ⟨⟨payload, hPayload⟩, others, hOthers⟩
      exact ⟨_, by simp [Relocation.batch, Relocation.ops, Store.putLive, hPayload, hOthers]; rfl⟩

namespace Store

variable {store after : Store}

theorem loadForChange_eq_ok {allowed : Stamp → Prop} {known : EntityId → Prop} {slot : Slot}
    (hFormed : store.backend.rows.IsFormed allowed known) {stamp : Stamp} {entity : Entity}
    (hOk : store.loadForChange slot.type slot.name = .ok (stamp, entity)) :
    ∃ resident : Resident, resident.slot = slot ∧ resident.version.stamp = stamp ∧
      resident.entity = entity ∧ resident.Lives store.backend.rows ∧ entity.name = slot.name ∧
      entity.properties.get? EntityId.propertyKey = some entity.id.tag := by
  obtain ⟨found, hFound, hRest⟩ := Outcome.bind_eq_ok hOk
  cases found with
  | none => cases hRest
  | some found =>
    cases hRest
    obtain ⟨version, hNewest, hLive, hStamp, hDecode⟩ := Catalog.entity?_eq_ok hFound
    obtain ⟨hName, hTag, _⟩ := hFormed.name_of_holds ⟨version, hNewest, hLive, hDecode⟩
    exact ⟨⟨slot, version, entity⟩, rfl, hStamp, rfl, ⟨hNewest, hLive, hDecode⟩, hName, hTag⟩

theorem changed_eq_ok {modifier : String} {changes : List Change} {entity updated : Entity}
    (hOk : store.changed modifier changes entity = .ok updated) :
    Entity.Keeps entity updated ∧ updated.name = targetName entity.name changes ∧
      (entity.name.IsValid → updated.name.IsValid) ∧ updated.name.scope = entity.name.scope := by
  obtain ⟨changed, hChanged, hLast⟩ := Outcome.bind_eq_ok hOk
  cases hLast
  obtain ⟨hKeeps, hName, hValid, hScope⟩ := Change.applyAll_eq_ok (Outcome.mapError_eq_ok hChanged)
  exact ⟨⟨hKeeps.id, hKeeps.type, hKeeps.tag⟩, hName, hValid, hScope⟩

/-- Altering takes the locks of the name and of the name that it leads to. -/
theorem prepares_alter (type : EntityType) (name : Name) (modifier : String)
    (changes : List Change) :
    Prepares (lockedPaths name (targetName name changes))
      (prepareAlter type name modifier changes) := by
  refine Prepares.inspect_bind fun _ =>
    prepares_underLocks (fun ticket => ?_) (fun {ticket store change after} hRun => ?_)
  · refine (isQuiet_inspect _).bind ?_
    rintro ⟨stamp, current⟩
    dsimp only
    split
    next => exact isQuiet_pure _
    next =>
      refine (isQuiet_inspect _).bind fun updated => ?_
      split
      next =>
        exact (isQuiet_issueStamp _).bind fun issued => (isQuiet_inspect _).bind fun version =>
          isQuiet_pure _
      next =>
        exact (isQuiet_inspect _).bind fun moves => (isQuiet_issueStamp _).bind fun issued =>
          (isQuiet_inspect _).bind fun batch => isQuiet_pure _
  · obtain ⟨⟨stamp, current⟩, _, hRest⟩ := inspect_bind_run_eq_ok hRun
    dsimp only at hRest
    split at hRest
    next => cases hRest
    next =>
      obtain ⟨updated, _, hRest⟩ := inspect_bind_run_eq_ok hRest
      split at hRest
      next =>
        obtain ⟨issued, _, _, hRest⟩ := bind_run_eq_ok hRest
        obtain ⟨version, _, hLast⟩ := inspect_bind_run_eq_ok hRest
        cases hLast
        rfl
      next =>
        obtain ⟨moves, _, hRest⟩ := inspect_bind_run_eq_ok hRest
        obtain ⟨issued, _, _, hRest⟩ := bind_run_eq_ok hRest
        obtain ⟨batch, _, hLast⟩ := inspect_bind_run_eq_ok hRest
        cases hLast
        rfl

/-- Altering writes something exactly if there are changes. -/
theorem prepareAlter_eq_ok {type : EntityType} {name : Name} {modifier : String}
    {changes : List Change} {prepared : Prepared Entity}
    (hRun : (prepareAlter type name modifier changes).run store = (.ok prepared, after)) :
    (∃ change, prepared = .pending change) ↔ changes ≠ [] := by
  obtain ⟨_, _, hRest⟩ := inspect_bind_run_eq_ok hRun
  obtain ⟨ticket, locked, middle, _, _, hBody, _⟩ := underLocks_eq_ok hRest
  obtain ⟨⟨stamp, current⟩, _, hRest⟩ := inspect_bind_run_eq_ok hBody
  dsimp only at hRest
  split at hRest
  next hEmpty =>
    cases hRest
    constructor
    · rintro ⟨change, hPending⟩
      cases hPending
    · exact fun hSome => absurd (List.isEmpty_iff.mp hEmpty) hSome
  next hSome =>
    refine ⟨fun _ hNil => hSome (List.isEmpty_iff.mpr hNil), fun _ => ?_⟩
    obtain ⟨updated, _, hRest⟩ := inspect_bind_run_eq_ok hRest
    split at hRest
    next =>
      obtain ⟨issued, _, _, hRest⟩ := bind_run_eq_ok hRest
      obtain ⟨version, _, hLast⟩ := inspect_bind_run_eq_ok hRest
      cases hLast
      exact ⟨_, rfl⟩
    next =>
      obtain ⟨moves, _, hRest⟩ := inspect_bind_run_eq_ok hRest
      obtain ⟨issued, _, _, hRest⟩ := bind_run_eq_ok hRest
      obtain ⟨batch, _, hLast⟩ := inspect_bind_run_eq_ok hRest
      cases hLast
      exact ⟨_, rfl⟩

/-! ### What altering finds -/

section
variable {type : EntityType} {name : Name} {modifier : String} {changes : List Change}
  {updated : Entity} {stamp : Stamp} {batch : Storage.Batch}

/-- What is to be written of an entity that was altered, and the stamp that it is written with: in the
slot where it is, or under its new name together with everything alive below it. -/
def Rewriting (store : Store) (type : EntityType) (name target : Name) (latest : Stamp)
    (updated : Entity) (stamp : Stamp) (batch : Storage.Batch) : Prop :=
  if target = name then
    store.Issues (some latest) stamp ∧
      ∃ op, store.putLive (Key.entity type name) stamp updated = .ok op ∧ batch = [op]
  else
    ∃ moves, Catalog.relocateTree store.backend name latest updated target = .ok moves ∧
      store.Issues (some (Relocation.latestFloor moves)) stamp ∧
      Relocation.batch store stamp moves = .ok batch

/-- What altering has found where there are changes. -/
structure Amends (store : Store) (type : EntityType) (name : Name) (modifier : String)
    (changes : List Change) (updated : Entity) (stamp : Stamp) (batch : Storage.Batch) : Prop where
  isOpen : store.closed = false
  fits : name.scope.depth = type.depth
  checked : Change.validateAll type changes = .ok ()
  changing : changes ≠ []
  planned : ∃ latest current, store.loadForChange type name = .ok (latest, current) ∧
    store.changed modifier changes current = .ok updated ∧
    store.Rewriting type name (targetName name changes) latest updated stamp batch

/-- Altering prepares what it finds, and changes nothing but locks and stamp. -/
theorem prepareAlter_eq_pending {change : Pending Entity}
    (hRun : (prepareAlter type name modifier changes).run store = (.ok (.pending change), after)) :
    store.Amends type name modifier changes change.answer after.lastStamp change.batch ∧
      ∃ ticket, change = ⟨change.batch, some ticket, none, false, change.answer⟩ ∧
        after = { store with locks := after.locks, lastStamp := after.lastStamp } := by
  have hChanging := (prepareAlter_eq_ok hRun).mp ⟨change, rfl⟩
  have hOpen := isOpen_of_run hRun
  obtain ⟨_, hChecked, hRest⟩ := inspect_bind_run_eq_ok hRun
  obtain ⟨_, _, hChecked⟩ := Outcome.bind_eq_ok hChecked
  obtain ⟨_, hDepth, hChecked⟩ := Outcome.bind_eq_ok hChecked
  obtain ⟨ticket, locks, middle, hBody, hPending, _⟩ := exists_body_of_ok hRest
  cases hPending change rfl
  clear hPending
  obtain ⟨⟨latest, current⟩, hLoad, hRest⟩ := inspect_bind_run_eq_ok hBody
  dsimp only at hRest
  split at hRest
  next => cases hRest
  next =>
    obtain ⟨updated, hUpdated, hRest⟩ := inspect_bind_run_eq_ok hRest
    -- once it is known what is to be written, the rest was known all along
    have hFound : ∀ {stamp batch},
        store.Rewriting type name (targetName name changes) latest updated stamp batch →
        store.Amends type name modifier changes updated stamp batch := fun hWriting =>
      ⟨hOpen, checkDepth_eq_ok hDepth, Outcome.mapError_eq_ok hChecked, hChanging, latest, current,
        hLoad, hUpdated, hWriting⟩
    split at hRest
    next hSame =>
      obtain ⟨issued, stamped, hIssued, hRest⟩ := bind_run_eq_ok hRest
      obtain ⟨op, hPut, hLast⟩ := inspect_bind_run_eq_ok hRest
      obtain ⟨hIssues, rfl⟩ := run_issueStamp_iff.mp hIssued
      cases hLast
      refine ⟨hFound ?_, ticket, rfl, rfl⟩
      rw [Rewriting, if_pos hSame]
      exact ⟨hIssues, op, hPut, rfl⟩
    next hMoved =>
      obtain ⟨moves, hRelocate, hRest⟩ := inspect_bind_run_eq_ok hRest
      obtain ⟨issued, stamped, hIssued, hRest⟩ := bind_run_eq_ok hRest
      obtain ⟨rows, hBatch, hLast⟩ := inspect_bind_run_eq_ok hRest
      obtain ⟨hIssues, rfl⟩ := run_issueStamp_iff.mp hIssued
      cases hLast
      refine ⟨hFound ?_, ticket, rfl, rfl⟩
      rw [Rewriting, if_neg hMoved]
      have hRows := @Relocation.batch_congr store { store with locks, lastStamp := issued } rfl issued
        moves
      exact ⟨moves, hRelocate, hIssues, hRows.symm.trans hBatch⟩

end

/-- What altering knows of an entity before it looks at where the entity will be. -/
structure IsRead (rows : Rows) (goal : Name) (resident : Resident) (updated : Entity) : Prop where
  lives : resident.Lives rows
  keeps : Entity.Keeps resident.entity updated
  tag : resident.entity.properties.get? EntityId.propertyKey = some resident.entity.id.tag
  type : updated.type = resident.slot.type
  name : updated.name = goal
  valid : goal.IsValid
  scope : goal.scope = resident.slot.name.scope

/-- What was read has a slot to go to. -/
theorem IsRead.exists_target {rows : Rows} {goal : Name} {resident : Resident} {updated : Entity}
    (hRead : IsRead rows goal resident updated) :
    ∃ target : Slot, target.type = resident.slot.type ∧ target.name = goal := by
  have hFits : goal.scope.depth = resident.slot.type.depth := by
    rw [hRead.scope]
    exact resident.slot.fits
  exact ⟨⟨resident.slot.type, goal, hFits, hRead.valid⟩, rfl, rfl⟩

section
variable {allowed : Stamp → Prop} {known : EntityId → Prop}
  (hFormed : store.backend.rows.IsFormed allowed known)
include hFormed

/-- What is changed was read. -/
theorem isRead_of_changed {resident : Resident} (hLives : resident.Lives store.backend.rows)
    {modifier : String} {changes : List Change} {updated : Entity}
    (hChanged : store.changed modifier changes resident.entity = .ok updated) :
    IsRead store.backend.rows (targetName resident.slot.name changes) resident updated := by
  obtain ⟨hName, hTag, _⟩ := hFormed.name_of_holds hLives.holds
  obtain ⟨hKeeps, hTarget, hValid, hScope⟩ := changed_eq_ok hChanged
  rw [hName] at hTarget hValid hScope
  have hType : updated.type = resident.slot.type :=
    hKeeps.type.trans (Entity.type_of_decode hLives.decoded)
  exact ⟨hLives, hKeeps, hTag, hType, hTarget, hTarget ▸ hValid resident.slot.valid, hTarget ▸ hScope⟩

/-- What is found is what becomes of a resident. -/
theorem Amends.exists_read {type : EntityType} {name : Name} {modifier : String}
    {changes : List Change} {updated : Entity} {stamp : Stamp} {batch : Storage.Batch}
    (hAmends : store.Amends type name modifier changes updated stamp batch) :
    ∃ resident : Resident, resident.slot.type = type ∧ resident.slot.name = name ∧
      store.changed modifier changes resident.entity = .ok updated ∧
      IsRead store.backend.rows (targetName resident.slot.name changes) resident updated ∧
      store.Rewriting resident.slot.type resident.slot.name
        (targetName resident.slot.name changes) resident.version.stamp updated stamp batch := by
  obtain ⟨latest, current, hLoad, hChanged, hRewriting⟩ := hAmends.planned
  have hValid : name.IsValid := by
    obtain ⟨found, hFound, hRest⟩ := Outcome.bind_eq_ok hLoad
    cases found with
    | none => cases hRest
    | some found => exact Catalog.isValid_of_entity? hFormed hAmends.fits hFound
  obtain ⟨resident, hSlot, rfl, rfl, hLives, _⟩ :=
    @loadForChange_eq_ok store _ _ ⟨type, name, hAmends.fits, hValid⟩ hFormed _ _ hLoad
  obtain rfl : resident.slot.type = type := congrArg Slot.type hSlot
  obtain rfl : resident.slot.name = name := congrArg Slot.name hSlot
  exact ⟨resident, rfl, rfl, hChanged, isRead_of_changed hFormed hLives hChanged, hRewriting⟩

end

section
variable {resident : Resident} {updated : Entity} {stamp : Stamp} {batch : Storage.Batch}

/-- An entity that keeps its name stays in its slot. -/
theorem Rewriting.exists_stay
    (hRead : IsRead store.backend.rows resident.slot.name resident updated)
    (hRewriting : store.Rewriting resident.slot.type resident.slot.name resident.slot.name
      resident.version.stamp updated stamp batch) :
    store.Issues (some resident.version.stamp) stamp ∧ store.CanWrite updated ∧
      ∃ payload, Rewrites store.backend.rows resident updated payload ∧
        batch = Turn.batch stamp [.stay resident.slot resident.entity updated payload] none := by
  rw [Rewriting, if_pos rfl] at hRewriting
  obtain ⟨hIssues, op, hPut, rfl⟩ := hRewriting
  obtain ⟨written, hWritten, _⟩ := Outcome.bind_eq_ok hPut
  obtain ⟨payload, hDecode, rfl⟩ := putLive_eq_ok hPut
  refine ⟨hIssues, ⟨written, hWritten⟩, payload, ⟨hRead.lives, hRead.keeps.id, ?_, hRead.name, ?_⟩, rfl⟩
  · rw [← hRead.type]
    exact hDecode
  · rw [hRead.keeps.tag, hRead.keeps.id]
    exact hRead.tag

/-- An entity that gets another name moves to a slot that is not live, with all that is alive
below it. -/
theorem Rewriting.exists_moves {allowed : Stamp → Prop} {known : EntityId → Prop}
    (hFormed : store.backend.rows.IsFormed allowed known) {target : Slot}
    (hType : target.type = resident.slot.type) (hMoved : target.name ≠ resident.slot.name)
    (hRead : IsRead store.backend.rows target.name resident updated)
    (hRewriting : store.Rewriting resident.slot.type resident.slot.name target.name
      resident.version.stamp updated stamp batch) :
    ∃ moves, IsRelocation store.backend.rows resident.slot target store.payloadOf moves ∧
      batch = Turn.batch stamp (Turn.moveAll store.payloadOf moves) none ∧
      store.Issues (some (Stamp.latestOf (moves.map (·.floor)))) stamp ∧
      (∀ move ∈ moves, move.resident.slot = resident.slot → move.entity = updated) ∧
      ∀ move ∈ moves, store.CanWrite move.entity := by
  rw [Rewriting, if_neg hMoved] at hRewriting
  obtain ⟨relocations, hRelocate, hIssues, hBatch⟩ := hRewriting
  obtain ⟨hDead, moves, rfl, hSubtree, hLeads, hRoot⟩ := Catalog.relocateTree_eq_ok hFormed
    hType.symm hRead.lives rfl hRead.keeps hRead.name hRelocate
  obtain ⟨hTurns, hDecode⟩ := relocationBatch_eq_ok hLeads hBatch
  have hApart : target ≠ resident.slot := fun hEq => hMoved (congrArg Slot.name hEq)
  rw [Catalog.latestFloor_eq] at hIssues
  exact ⟨moves, ⟨hType, hRead.scope, hApart, hDead, hSubtree, hLeads, hDecode⟩, hTurns, hIssues, hRoot,
    fun move hMove => Relocation.exists_batch_iff.mp ⟨_, hBatch⟩ _ (List.mem_map.mpr ⟨move, hMove, rfl⟩)⟩

end

section
variable {type : EntityType} {name : Name} {modifier : String} {changes : List Change}
  {change : Pending Entity} {allowed : Stamp → Prop} {known : EntityId → Prop}
  (hFormed : store.backend.rows.IsFormed allowed known)
  (hRun : (prepareAlter type name modifier changes).run store = (.ok (.pending change), after))
include hFormed hRun

/-- What is planned for an entity that keeps its name. -/
theorem prepareAlter_stays (hSame : targetName name changes = name) :
    ∃ resident entity payload, resident.slot.type = type ∧ resident.slot.name = name ∧
      Rewrites store.backend.rows resident entity payload ∧ change.assigned = none ∧
      change.batch = Turn.batch after.lastStamp
        [.stay resident.slot resident.entity entity payload] none ∧
      store.Issues (some resident.version.stamp) after.lastStamp := by
  obtain ⟨hAmends, ticket, hChange, _⟩ := prepareAlter_eq_pending hRun
  obtain ⟨resident, rfl, rfl, _, hRead, hRewriting⟩ := hAmends.exists_read hFormed
  rw [hSame] at hRead hRewriting
  obtain ⟨hIssues, _, payload, hRewrites, hBatch⟩ := hRewriting.exists_stay hRead
  exact ⟨resident, _, payload, rfl, rfl, hRewrites, congrArg Pending.assigned hChange, hBatch, hIssues⟩

/-- What is planned for an entity that gets another name. The answer is what it is there. -/
theorem prepareAlter_moves (hMoved : targetName name changes ≠ name) :
    ∃ source target payload moves, source.type = type ∧ source.name = name ∧
      target.name = targetName name changes ∧
      IsRelocation store.backend.rows source target payload moves ∧ change.assigned = none ∧
      change.batch = Turn.batch after.lastStamp (Turn.moveAll payload moves) none ∧
      store.Issues (some (Stamp.latestOf (moves.map (·.floor)))) after.lastStamp ∧
      ∀ move ∈ moves, move.resident.slot = source → move.entity = change.answer := by
  obtain ⟨hAmends, ticket, hChange, _⟩ := prepareAlter_eq_pending hRun
  obtain ⟨resident, rfl, rfl, _, hRead, hRewriting⟩ := hAmends.exists_read hFormed
  obtain ⟨target, hType, hGoal⟩ := hRead.exists_target
  rw [← hGoal] at hMoved hRead hRewriting
  obtain ⟨moves, hRelocation, hBatch, hIssues, hRoot, _⟩ :=
    hRewriting.exists_moves hFormed hType hMoved hRead
  exact ⟨resident.slot, target, store.payloadOf, moves, rfl, rfl, hGoal, hRelocation,
    congrArg Pending.assigned hChange, hBatch, hIssues, hRoot⟩

end

end Store

end VersionedCatalog
