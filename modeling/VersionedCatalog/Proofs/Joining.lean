import VersionedCatalog.Proofs.Admission
import VersionedCatalog.Proofs.Carrying
import VersionedCatalog.Proofs.Listings
import VersionedCatalog.Proofs.Renaming
import VersionedCatalog.Proofs.Retention

/-! # One alteration and its parts

Changes can be made of an entity at once or in two parts, one list after the other. Made at once, they
are all checked before the first one is made, and the entity moves to its last name only, if that is
not the name that it has. Made in parts, everything alive below it moves with it to the name in between
and is written once more on the way, perhaps back to where it was.

What the parts make of the entity both lists make of it (`Store.changed_append`), since no change looks
at who made the last one and when (`Change.applyAll_audited`). What the parts wrote over, and what they
wrote, leaves room for one stamp and one batch (`Store.HasAltered.mayAlter_trans`), and what is held
afterwards is the same. So both lists can be made at once, and then the same is read
(`Store.Reachable.alters_at_once`).
-/

namespace VersionedCatalog

open Storage (Rows Backend Call)
open VersionedCatalog.Action

/-! ### Changes in two parts -/

namespace Change

/-- An entity with another audit. -/
def audited (audit : Audit) (entity : Entity) : Entity := { entity with audit }

theorem audited_withLocation (audit : Audit) (entity : Entity) (location : String) :
    (audited audit entity).withLocation location = audited audit (entity.withLocation location) := by
  obtain ⟨_, _, _, _, _, kind⟩ := entity
  cases kind <;> rfl

theorem audited_withColumns (audit : Audit) (entity : Entity) (columns : List Column) :
    (audited audit entity).withColumns columns = audited audit (entity.withColumns columns) := by
  obtain ⟨_, _, _, _, _, kind⟩ := entity
  cases kind <;> rfl

end Change

namespace Edit

open Change (audited)

variable {α β : Type}

/-- Whether an edit neither looks at the audit nor touches it. -/
def IgnoresAudit (x : Edit α) : Prop :=
  ∀ (audit : Audit) (entity : Entity),
    x.run (audited audit entity) = ((x.run entity).1, audited audit (x.run entity).2)

theorem ignoresAudit_pure (a : α) : (pure a : Edit α).IgnoresAudit := fun _ _ => rfl

theorem ignoresAudit_throw (error : ChangeError) : (throw error : Edit α).IgnoresAudit :=
  fun _ _ => rfl

theorem ignoresAudit_modify {step : Entity → Entity}
    (hStep : ∀ audit entity, step (audited audit entity) = audited audit (step entity)) :
    (modify step : Edit Unit).IgnoresAudit := fun audit entity =>
  congrArg (Prod.mk (Except.ok ())) (hStep audit entity)

theorem IgnoresAudit.bind {x : Edit α} {f : α → Edit β} (hFirst : x.IgnoresAudit)
    (hRest : ∀ a, (f a).IgnoresAudit) : (x >>= f).IgnoresAudit := by
  intro audit entity
  have hAudited := hFirst audit entity
  cases hRun : x.run entity with
  | mk found after =>
    rw [hRun] at hAudited
    cases found with
    | ok a =>
      rw [run_bind_of_ok hAudited, run_bind_of_ok hRun]
      exact hRest a audit after
    | error error => rw [run_bind_of_error hAudited, run_bind_of_error hRun]

/-- What is looked up may be anything but the audit. -/
theorem ignoresAudit_get_bind {f : Entity → Edit β}
    (hBlind : ∀ audit entity, f (audited audit entity) = f entity)
    (hRest : ∀ entity, (f entity).IgnoresAudit) : (get >>= f).IgnoresAudit := by
  intro audit entity
  rw [run_get_bind, run_get_bind, hBlind]
  exact hRest entity audit entity

theorem IgnoresAudit.discard {x : Edit α} (hIgnores : x.IgnoresAudit) :
    (discard x).IgnoresAudit := hIgnores.bind fun _ => ignoresAudit_pure ()

theorem ignoresAudit_backup (key : String) : (backup key).IgnoresAudit := by
  refine ignoresAudit_get_bind (fun _ _ => rfl) fun entity => ?_
  split
  next => exact ignoresAudit_pure _
  next => exact ignoresAudit_throw _

theorem ignoresAudit_withProperty (key value : String) :
    (modify fun entity => entity.withProperty key value : Edit Unit).IgnoresAudit :=
  ignoresAudit_modify fun _ _ => rfl

theorem ignoresAudit_withoutProperty (key : String) :
    (modify fun entity => entity.withoutProperty key : Edit Unit).IgnoresAudit :=
  ignoresAudit_modify fun _ _ => rfl

theorem ignoresAudit_replaceBackup (key location : String) :
    (replaceBackup key location).IgnoresAudit :=
  (ignoresAudit_backup key).bind fun old =>
    (ignoresAudit_withProperty key location).bind fun _ => ignoresAudit_pure old

theorem ignoresAudit_replaceLocation (location : String) :
    (replaceLocation location).IgnoresAudit := by
  refine ignoresAudit_get_bind (fun _ _ => rfl) fun entity => ?_
  split
  next =>
    have hWrite : (modify fun entity => entity.withLocation location : Edit Unit).IgnoresAudit :=
      ignoresAudit_modify fun audit entity => Change.audited_withLocation audit entity location
    exact hWrite.bind fun _ => ignoresAudit_pure _
  next => exact ignoresAudit_throw _

theorem ignoresAudit_columns : columns.IgnoresAudit := by
  refine ignoresAudit_get_bind (fun _ _ => rfl) fun entity => ?_
  split
  next => exact ignoresAudit_pure _
  next => exact ignoresAudit_throw _

theorem ignoresAudit_setColumns (columns : List Column) : (setColumns columns).IgnoresAudit :=
  ignoresAudit_modify fun audit entity => Change.audited_withColumns audit entity columns

end Edit

namespace Change

open Edit

/-- No change looks at the audit or touches it. -/
theorem ignoresAudit_edit (change : Change) : change.edit.IgnoresAudit := by
  cases change with
  | setProperty key value => exact ignoresAudit_withProperty key value
  | removeProperty key => exact ignoresAudit_withoutProperty key
  | updateComment | removeComment => exact ignoresAudit_modify fun _ _ => rfl
  | rename leaf =>
    refine ignoresAudit_get_bind (fun _ _ => rfl) fun entity => ?_
    split
    next => exact ignoresAudit_modify fun _ _ => rfl
    next => exact ignoresAudit_throw _
  | updateLocation location => exact (ignoresAudit_replaceLocation location).discard
  | addBackup key location =>
    refine ignoresAudit_get_bind (fun _ _ => rfl) fun entity => ?_
    simp only
    split
    next => exact (ignoresAudit_throw _).bind fun _ => ignoresAudit_withProperty key location
    next => exact ignoresAudit_withProperty key location
  | updateBackup key location => exact (ignoresAudit_replaceBackup key location).discard
  | removeBackup key =>
    exact (ignoresAudit_backup key).bind fun _ => ignoresAudit_withoutProperty key
  | switchBackups first second =>
    exact (ignoresAudit_backup first).bind fun firstLocation =>
      (ignoresAudit_replaceBackup second firstLocation).bind fun secondLocation =>
        (ignoresAudit_replaceBackup first secondLocation).discard
  | switchPrimary key =>
    refine (ignoresAudit_backup key).bind fun location =>
      (ignoresAudit_replaceLocation location).bind fun primary => ?_
    cases primary with
    | some primary => exact (ignoresAudit_replaceBackup key primary).discard
    | none => exact ignoresAudit_get_bind (fun _ _ => rfl) fun _ => ignoresAudit_throw _
  | addColumn column =>
    refine ignoresAudit_columns.bind fun columns => ?_
    split
    next => exact (ignoresAudit_throw _).bind fun _ => ignoresAudit_setColumns _
    next => exact ignoresAudit_setColumns _
  | deleteColumn name ifExists =>
    refine ignoresAudit_columns.bind fun columns => (ignoresAudit_setColumns _).bind fun _ => ?_
    split
    next => exact ignoresAudit_throw _
    next => exact ignoresAudit_pure ()
  | updateColumnComment name comment =>
    refine ignoresAudit_columns.bind fun columns => ?_
    split
    next => exact (ignoresAudit_throw _).bind fun _ => ignoresAudit_setColumns _
    next => exact ignoresAudit_setColumns _

theorem apply_audited (change : Change) (audit : Audit) (entity : Entity) :
    change.apply (audited audit entity) =
      ((change.apply entity).1, audited audit (change.apply entity).2) := by
  have hType : (audited audit entity).type = entity.type := rfl
  rw [apply, apply, hType]
  split
  next => rfl
  next => exact change.ignoresAudit_edit audit entity

theorem applyAll_audited (changes : List Change) (audit : Audit) (entity : Entity) :
    applyAll changes (audited audit entity) = (applyAll changes entity).map (audited audit) := by
  induction changes generalizing entity with
  | nil => rfl
  | cons change rest ih =>
    rw [applyAll, applyAll, apply_audited]
    cases change.apply entity with
    | mk found changed =>
      cases found with
      | error error => rfl
      | ok _ => exact ih changed

/-- Changes keep the audit. -/
theorem audit_of_applyAll {changes : List Change} {entity changed : Entity}
    (hOk : applyAll changes entity = .ok changed) : changed.audit = entity.audit := by
  have hSame := applyAll_audited changes entity.audit entity
  have hSelf : audited entity.audit entity = entity := rfl
  rw [hSelf, hOk] at hSame
  rw [Except.ok.inj hSame]
  rfl

theorem applyAll_append (first second : List Change) (entity : Entity) :
    applyAll (first ++ second) entity = (do applyAll second (← applyAll first entity)) := by
  induction first generalizing entity with
  | nil => rfl
  | cons change rest ih =>
    rw [List.cons_append, applyAll, applyAll]
    split
    next changed _ => exact ih changed
    next => rfl

theorem validateAll_append {type : EntityType} {first second : List Change}
    (hFirst : validateAll type first = .ok ()) (hSecond : validateAll type second = .ok ()) :
    validateAll type (first ++ second) = .ok () := by
  induction first with
  | nil => exact hSecond
  | cons change rest ih =>
    obtain ⟨_, hCheck, hRest⟩ := Outcome.bind_eq_ok hFirst
    rw [List.cons_append, validateAll, hCheck]
    exact ih hRest

end Change

theorem Outcome.eq_of_fst {α β : Type} {pair : α × β} {first : α} (hFirst : pair.1 = first) :
    pair = (first, pair.2) := by
  rw [← hFirst]

namespace Store

theorem targetName_append (name : Name) (first second : List Change) :
    targetName name (first ++ second) = targetName (targetName name first) second := by
  induction first generalizing name with
  | nil => rfl
  | cons change rest ih =>
    rw [List.cons_append, Change.targetName_cons, Change.targetName_cons, ih]

/-- Where the clock stands still, what two lists of changes make of an entity one after the other both
together make of it at once. -/
theorem changed_append {store : Store} {modifier : String} {first second : List Change}
    {current between final : Entity} (hFirst : store.changed modifier first current = .ok between)
    (hSecond : store.changed modifier second between = .ok final) :
    store.changed modifier (first ++ second) current = .ok final := by
  obtain ⟨middle, hMiddle, hLast⟩ := Outcome.bind_eq_ok hFirst
  cases hLast
  obtain ⟨last, hApplied, hLast⟩ := Outcome.bind_eq_ok hSecond
  cases hLast
  have hBetween : Change.applyAll second
      (Change.audited (middle.audit.touch modifier store.clock) middle) = .ok last :=
    Outcome.mapError_eq_ok hApplied
  rw [Change.applyAll_audited] at hBetween
  cases hEnd : Change.applyAll second middle with
  | error error =>
    rw [hEnd] at hBetween
    cases hBetween
  | ok found =>
    rw [hEnd] at hBetween
    cases hBetween
    have hAudit := Change.audit_of_applyAll hEnd
    rw [changed, Change.applyAll_append, Outcome.mapError_eq_ok hMiddle, Outcome.ok_bind, hEnd]
    simp only [Outcome.mapError_ok, Outcome.ok_bind, hAudit]
    rfl

/-! ### Alterations in a run -/

/-- An alteration that had something to change, and the states before and after it. -/
structure HasAltered (before after : Store) (source target : Slot) (modifier : String)
    (changes : List Change) (current updated : Entity) : Prop where
  isOpen : before.closed = false
  goal : target.name = targetName source.name changes
  checked : Change.validateAll source.type changes = .ok ()
  changing : changes ≠ []
  holds : before.backend.rows.Holds source current
  changed : before.changed modifier changes current = .ok updated
  alters : before.backend.rows.Alters after.backend.rows (before.IsEarly after.lastStamp)
    before.CanWrite source target updated
  later : before.lastStamp.rank < after.lastStamp.rank
  timely : before.clock ≤ after.lastStamp.millis
  stays : after = { before with
    backend := after.backend
    locks := after.locks
    lastStamp := after.lastStamp }

section
variable {store middle after : Store} {type : EntityType} {name : Name} {modifier : String}
  {changes first second : List Change} {source target goal : Slot}
  {current between updated final : Entity}

/-- What is found and written has been altered. -/
theorem Amends.exists_hasAltered {batch : Storage.Batch}
    (hAmends : store.Amends type name modifier changes updated after.lastStamp batch)
    (hSound : store.backend.rows.IsSound) (hBefore : store.InTime) (hAfter : after.InTime)
    (hWrite : store.backend.write batch = .ok after.backend)
    (hStays : after = { store with
      backend := after.backend
      locks := after.locks
      lastStamp := after.lastStamp }) :
    ∃ source target current, source.type = type ∧ source.name = name ∧
      store.HasAltered after source target modifier changes current updated := by
  obtain ⟨source, target, current, rfl, rfl, hGoal, hHolds, hChanged, floor, hFloor, hIssues,
    hAlters⟩ := hAmends.exists_alters hSound hBefore hAfter
  have hLater := (Stamp.rank_lt_next hIssues hBefore fun _ hSame =>
    Option.some.inj hSame ▸ hFloor).1
  rw [← (Backend.write_eq_ok hWrite).1] at hAlters
  exact ⟨source, target, current, rfl, rfl, hAmends.isOpen, hGoal, hAmends.checked, hAmends.changing,
    hHolds, hChanged, hAlters, hLater, Stamp.le_millis_of_next hIssues, hStays⟩

/-- An alteration of a run that succeeds has had something to change, unless there were no changes. -/
theorem Reachable.exists_hasAltered (hReached : Reachable InTime store)
    (hRun : (alter type name modifier changes).run store = (.ok updated, after))
    (hAfter : after.InTime) (hChanging : changes ≠ []) :
    ∃ source target current, source.type = type ∧ source.name = name ∧
      store.HasAltered after source target modifier changes current updated := by
  rcases alter_eq_ok hRun with ⟨hNone, _⟩ | ⟨batch, hAmends, hWrite, hStays⟩
  · exact absurd hNone hChanging
  · exact hAmends.exists_hasAltered hReached.isSound hReached.allowed hAfter hWrite hStays

/-- What was altered is held under its new name. -/
theorem HasAltered.holds_target
    (hAltered : store.HasAltered after source target modifier changes current updated) :
    after.backend.rows.Holds target updated := by
  obtain ⟨found, hHolds, hBecomes⟩ :=
    hAltered.alters.exists_holds (.root hAltered.alters.type) hAltered.holds
  rwa [hBecomes.root rfl] at hHolds

/-- Whether what an alteration has to write can be written. -/
def HasRoomToAlter (store : Store) (type : EntityType) (name : Name) (modifier : String)
    (changes : List Change) : Prop :=
  ∀ change after, (prepareAlter type name modifier changes).run store =
    (.ok (.pending change), after) → store.backend.HasRoom change.batch

/-- Room is told by what is prepared. -/
theorem hasRoomToAlter_iff : store.HasRoomToAlter type name modifier changes ↔
    ((prepareAlter type name modifier changes).run store).1.toOption.all (fun prepared =>
      match prepared with
      | .settled _ => true
      | .pending change => decide (store.backend.HasRoom change.batch)) = true := by
  rw [HasRoomToAlter]
  generalize (prepareAlter type name modifier changes).run store = ran
  obtain ⟨outcome, left⟩ := ran
  constructor
  · intro hRoom
    cases outcome with
    | error error => rfl
    | ok prepared =>
      cases prepared with
      | settled answer => rfl
      | pending change => exact decide_eq_true (hRoom change left rfl)
  · rintro hRoom change after hPrepared
    cases hPrepared
    exact of_decide_eq_true hRoom

instance : Decidable (store.HasRoomToAlter type name modifier changes) :=
  decidable_of_iff _ hasRoomToAlter_iff.symm

section
variable (hFirst : store.HasAltered middle source target modifier first current between)
  (hSecond : middle.HasAltered after target goal modifier second between final)
include hFirst hSecond

/-- The first of two alterations allows what both together ask for. -/
theorem HasAltered.mayAlter_trans (hSound : store.backend.rows.IsSound) :
    store.backend.rows.MayAlter (store.IsEarly after.lastStamp) store.CanWrite source goal final := by
  have hStays := hFirst.stays
  have hBefore : store.backend.rows.Alters middle.backend.rows (store.IsEarly after.lastStamp)
      store.CanWrite source target between :=
    hFirst.alters.mono (fun _ hEarly => ⟨Nat.lt_trans hEarly.before hSecond.later, hEarly.timely⟩)
      fun _ hWrite => hWrite
  have hAfter : middle.backend.rows.Alters after.backend.rows (store.IsEarly after.lastStamp)
      store.CanWrite target goal final := by
    refine hSecond.alters.mono (fun _ hEarly => ⟨hEarly.before, ?_⟩) fun _ hWrite => ?_
    · have hTimely := hEarly.timely
      rwa [hStays] at hTimely
    · rwa [hStays] at hWrite
  exact hBefore.mayAlter_trans hAfter hSound

/-- What two alterations did one after the other can be done at once. -/
theorem HasAltered.exists_joined (hReached : Reachable InTime store) (hAfter : after.InTime)
    (hRoom : store.HasRoomToAlter source.type source.name modifier (first ++ second)) :
    ∃ joined, (alter source.type source.name modifier (first ++ second)).run store =
      (.ok final, joined) ∧ joined.InTime ∧
      store.HasAltered joined source goal modifier (first ++ second) current final := by
  have hSteady := hReached.isSteady
  have hSound := hReached.isSound
  have hOpen := hFirst.isOpen
  have hMay := hFirst.mayAlter_trans hSecond hSound
  have hGoal : goal.name = targetName source.name (first ++ second) := by
    rw [targetName_append, ← hFirst.goal, hSecond.goal]
  have hChecked : Change.validateAll source.type (first ++ second) = .ok () :=
    Change.validateAll_append hFirst.checked (hFirst.alters.type ▸ hSecond.checked)
  have hClock : middle.clock = store.clock := by rw [hFirst.stays]
  have hAgain : store.changed modifier second between = .ok final := by
    rw [← hSecond.changed, Store.changed, Store.changed, hClock]
  obtain ⟨stamp, batch, hAmends, hRank⟩ := exists_amends hSound hOpen
    (Backend.permit_of_open (hSteady.isOpen hOpen) hSteady.faults) hMay hGoal hFirst.holds hChecked
    (List.append_ne_nil_of_left_ne_nil hFirst.changing second)
    (changed_append hFirst.changed hAgain) (Nat.lt_trans hFirst.later hSecond.later)
    (hClock ▸ hSecond.timely)
  have hFree := Locks.areFree_of_idle hSteady.grants
    (lockedPaths source.name (targetName source.name (first ++ second)))
  obtain ⟨ticket, locks, hPrepared⟩ := hAmends.exists_prepared hFree
  obtain ⟨backend, hWrite⟩ := Backend.exists_write_of_hasRoom
    ⟨hSteady.isOpen hOpen, hSteady.faults, hSteady.faithful⟩ (hRoom _ _ hPrepared)
  obtain ⟨left, hRun⟩ := hAmends.exists_run hFree hWrite
  have hInTime : stamp ≠ .last := by
    rintro rfl
    exact absurd (Stamp.rank_lt_last hAfter) (Nat.not_lt_of_le hRank)
  refine ⟨_, hRun, hInTime, ?_⟩
  obtain ⟨place, other, found, hType, hName, hJoined⟩ := @Amends.exists_hasAltered store
    { store with backend, locks := left, lastStamp := stamp } _ _ _ _ _ _ hAmends hSound
    hReached.allowed hInTime hWrite rfl
  cases Slot.eq_of_parts hType hName
  cases Slot.eq_of_parts (hJoined.alters.type.trans hMay.type.symm) (hJoined.goal.trans hGoal.symm)
  rwa [hJoined.holds.entity_eq hFirst.holds] at hJoined

end

/-! ### What is read -/

/-- Two stores that answer alike whatever is read by names, by namespaces and by ids. -/
structure AnswersLike (store other : Store) : Prop where
  loads : ∀ type name, store.load type name = other.load type name
  lists : ∀ scope type, store.list scope type = other.list scope type
  found : ∀ id, store.loadById id = other.loadById id

/-- Locks and stamps make no difference to the answers. -/
theorem answersLike_of_backend {other : Store} (hBackend : other.backend = store.backend)
    (hClosed : other.closed = store.closed) : other.AnswersLike store := by
  refine ⟨fun type name => ?_, fun scope type => ?_, fun id => ?_⟩
  · rw [load, load, ensureOpen_congr hClosed, hBackend]
  · rw [list, list, ensureOpen_congr hClosed, hBackend]
  · rw [loadById, loadById, ensureOpen_congr hClosed, hBackend]

/-- Where the same is held the answers are the same. -/
theorem answersLike_of_holds {other : Store} (hReached : Reachable InTime store)
    (hOther : Reachable InTime other) (hClosed : other.closed = store.closed)
    (hSame : ∀ slot entity,
      other.backend.rows.Holds slot entity ↔ store.backend.rows.Holds slot entity) :
    other.AnswersLike store := by
  have hLoads : ∀ type name, other.load type name = store.load type name := fun type name =>
    load_congr_of_holds hReached.isSteady hOther.isSteady hClosed hReached.isFormed hOther.isFormed
      fun slot _ _ => hSame slot
  exact ⟨hLoads, fun scope type => list_congr hReached.isFormed hOther.isFormed hReached.isSteady
      hOther.isSteady hClosed (hLoads type),
    fun id => loadById_congr hReached.isSteady hOther.isSteady hClosed hReached.isSound hOther.isSound
      fun slot entity _ => hSame slot entity⟩

/-- Where no call fails, altering during no faults is altering. -/
theorem runDuring_alter_iff (hSteady : store.IsSteady) :
    (alter type name modifier changes).runDuring [] store = (.ok updated, after) ↔
      (alter type name modifier changes).run store = (.ok updated, after) := by
  have hKept : ∀ left, (alter type name modifier changes).run store = (.ok updated, left) →
      left.withFaults [] = left := by
    intro left hRun
    rw [withFaults, Backend.withFaults]
    rcases alter_eq_ok hRun with ⟨_, _, hLeft⟩ | ⟨batch, _, hWrite, _⟩
    · rw [hLeft, ← hSteady.faults]
    · rw [← (Backend.write_eq_ok hWrite).2.1.trans hSteady.faults]
  rw [runDuring, withFaults_nil hSteady]
  generalize (alter type name modifier changes).run store = ran at hKept ⊢
  obtain ⟨outcome, left⟩ := ran
  constructor
  · intro hRan
    obtain ⟨rfl, rfl⟩ := Prod.mk.inj hRan
    rw [hKept left rfl]
  · rintro ⟨rfl, rfl⟩
    exact Prod.ext rfl (hKept _ rfl)

/-- What was altered has a valid name. -/
theorem Reachable.isValid_of_alter (hReached : Reachable InTime store)
    (hRun : (alter type name modifier changes).run store = (.ok updated, after)) : name.IsValid := by
  rcases alter_eq_ok hRun with ⟨_, hLoad, _⟩ | ⟨batch, hAmends, _⟩
  · obtain ⟨slot, _, rfl, _⟩ := slot_of_load hReached.isFormed hLoad
    exact slot.valid
  · obtain ⟨resident, _, rfl, _⟩ := hAmends.exists_read hReached.isFormed
    exact resident.slot.valid

/-- The answer of an alteration is what is loaded afterwards. -/
theorem Reachable.load_altered (hReached : Reachable InTime store)
    (hRun : (alter type name modifier changes).run store = (.ok updated, after))
    (hThere : Reachable InTime after) : after.load type updated.name = .ok updated := by
  by_cases hNone : changes = []
  · rcases alter_eq_ok hRun with ⟨_, hLoad, hStays⟩ | ⟨_, hAmends, _⟩
    · rw [(name_of_load hReached.isFormed hLoad).1, hStays]
      exact hLoad
    · exact absurd hNone hAmends.changing
  · obtain ⟨source, target, current, rfl, rfl, hAltered⟩ :=
      hReached.exists_hasAltered hRun hThere.allowed hNone
    have hOpen : after.closed = false := by
      rw [hAltered.stays]
      exact hAltered.isOpen
    have hHolds := hAltered.holds_target
    rw [← hAltered.alters.type, (hThere.isFormed.name_of_holds hHolds).1]
    exact load_of_holds hThere.isFormed hThere.isSteady hOpen hHolds

/-- Without a second list of changes the answers stay those after the first one. -/
theorem Reachable.alters_no_more (hReached : Reachable InTime store)
    (hRun : (alter type name modifier first).run store = (.ok between, middle))
    (hThere : Reachable InTime middle)
    (hRunOn : (alter type between.name modifier []).run middle = (.ok final, after)) :
    final = between ∧ middle.AnswersLike after := by
  rcases alter_eq_ok hRunOn with ⟨_, hLoad, hStays⟩ | ⟨_, hAmends, _⟩
  · have hSame := (hReached.load_altered hRun hThere).symm.trans hLoad
    refine ⟨(Except.ok.inj hSame).symm, answersLike_of_backend ?_ ?_⟩
    · rw [hStays]
    · rw [hStays]
  · exact absurd rfl hAmends.changing

/-- Without a first list of changes the second one finds the first state but for the locks. -/
theorem Reachable.alters_from_start (hReached : Reachable InTime store)
    (hRun : (alter type name modifier []).run store = (.ok between, middle)) (hMore : second ≠ [])
    (hRunOn : (alter type between.name modifier second).run middle = (.ok final, after)) :
    ∃ joined, (alter type name modifier second).run store = (.ok final, joined) ∧
      joined.AnswersLike after := by
  rcases alter_eq_ok hRun with ⟨_, hLoad, hStays⟩ | ⟨_, hAmends, _⟩
  · rw [(name_of_load hReached.isFormed hLoad).1] at hRunOn
    rcases alter_eq_ok hRunOn with ⟨hNone, _⟩ | ⟨batch, hAmends, hWrite, hEnds⟩
    · exact absurd hNone hMore
    · rw [hStays] at hAmends hWrite hEnds
      obtain ⟨locks, hJoined⟩ := hAmends.of_locks.exists_run
        (Locks.areFree_of_idle hReached.isSteady.grants _) hWrite
      refine ⟨_, hJoined, answersLike_of_backend rfl ?_⟩
      rw [hEnds]
  · exact absurd rfl hAmends.changing

/-- **One alteration and its parts.**  If a list of changes is made of an entity, and another one of
what has come of it while the clock stands still, then both lists can be made at once in the first
state, if there is room for what is written. The answer is the same, and from then on the same is read
by names, by namespaces and by ids. -/
theorem Reachable.alters_at_once (hReached : Reachable InTime store)
    (hFirst : (alter type name modifier first).runDuring [] store = (.ok between, middle))
    (hMiddle : middle.InTime)
    (hSecond : (alter type between.name modifier second).runDuring [] middle = (.ok final, after))
    (hAfter : after.InTime) (hRoom : store.HasRoomToAlter type name modifier (first ++ second)) :
    ∃ joined, (alter type name modifier (first ++ second)).runDuring [] store = (.ok final, joined) ∧
      joined.AnswersLike after := by
  have hRun := (runDuring_alter_iff hReached.isSteady).mp hFirst
  have hThere := hReached.altered (hReached.isValid_of_alter hRun) hFirst hMiddle
  have hRunOn := (runDuring_alter_iff hThere.isSteady).mp hSecond
  have hEnd := hThere.altered (hThere.isValid_of_alter hRunOn) hSecond hAfter
  simp only [runDuring_alter_iff hReached.isSteady]
  by_cases hNoMore : second = []
  · subst hNoMore
    obtain ⟨rfl, hSame⟩ := hReached.alters_no_more hRun hThere hRunOn
    exact ⟨middle, by rwa [List.append_nil], hSame⟩
  by_cases hNone : first = []
  · subst hNone
    exact hReached.alters_from_start hRun hNoMore hRunOn
  obtain ⟨source, target, current, rfl, rfl, hBefore⟩ :=
    hReached.exists_hasAltered hRun hMiddle hNone
  obtain ⟨found, goal, there, hType, hName, hThen⟩ :=
    hThere.exists_hasAltered hRunOn hAfter hNoMore
  have hHeld := hBefore.holds_target
  have hFound : found = target := by
    refine Slot.eq_of_parts (hType.trans hBefore.alters.type.symm) ?_
    rw [hName, (hThere.isFormed.name_of_holds hHeld).1]
  subst hFound
  cases hThen.holds.entity_eq hHeld
  obtain ⟨joined, hJoinedRun, hInTime, hJoined⟩ :=
    hBefore.exists_joined hThen hReached hAfter hRoom
  have hAll := hReached.altered source.valid
    ((runDuring_alter_iff hReached.isSteady).mpr hJoinedRun) hInTime
  refine ⟨joined, hJoinedRun, answersLike_of_holds hEnd hAll ?_ fun slot entity => ?_⟩
  · rw [hJoined.stays, hThen.stays, hBefore.stays]
  · exact hBefore.alters.holds_trans hThen.alters hReached.isSound hJoined.alters

end

end Store

/-! ### A metalake gets another name and then its old one -/

namespace Sample

def leave : List Change := [.rename "bay", .setProperty "depth" "8"]

def comeBack : List Change := [.removeProperty "depth", .updateComment "clear", .rename "lake"]

def alterMetalake (name : Name) (changes : List Change) (store : Store) :
    Except StoreError Entity × Store :=
  (Store.alter .metalake name "me" changes).runDuring [] store

/-- The metalake moves to the bay, with its catalog. -/
def departure : Except StoreError Entity × Store := alterMetalake lake leave coast

/-- The metalake comes back. -/
def homecoming : Except StoreError Entity × Store := alterMetalake bay comeBack departure.2

/-- Moving away and back is the same as staying with the other changes. -/
theorem alters_at_once_coast : ∃ between final joined,
    departure = (.ok between, departure.2) ∧ between.name = bay ∧
    homecoming = (.ok final, homecoming.2) ∧
    alterMetalake lake (leave ++ comeBack) coast = (.ok final, joined) ∧
    joined.AnswersLike homecoming.2 := by
  have hLeft : departure.1.isOk = true := by decide +kernel
  have hReturned : homecoming.1.isOk = true := by decide +kernel
  have hNames : departure.1.toOption.all (·.name = bay) = true := by decide +kernel
  obtain ⟨between, hBetween⟩ := Outcome.exists_of_isOk hLeft
  obtain ⟨final, hFinal⟩ := Outcome.exists_of_isOk hReturned
  have hName : between.name = bay := by
    rw [hBetween] at hNames
    exact of_decide_eq_true hNames
  have hAway : departure = (.ok between, departure.2) := Outcome.eq_of_fst hBetween
  have hHome : homecoming = (.ok final, homecoming.2) := Outcome.eq_of_fst hFinal
  have hInTime : departure.2.InTime ∧ homecoming.2.InTime := by decide +kernel
  have hAgain : alterMetalake between.name comeBack departure.2 = (.ok final, homecoming.2) := by
    rw [hName]
    exact hHome
  obtain ⟨joined, hJoined, hSame⟩ : ∃ joined,
      alterMetalake lake (leave ++ comeBack) coast = (.ok final, joined) ∧
        joined.AnswersLike homecoming.2 := by
    refine reachable_coast.alters_at_once hAway hInTime.1 hAgain hInTime.2 ?_
    decide +kernel
  exact ⟨between, final, joined, hAway, hName, hHome, hJoined, hSame⟩

end Sample

end VersionedCatalog
