import VersionedCatalog.Proofs.Actions
import VersionedCatalog.Proofs.Payloads
import VersionedCatalog.Proofs.Turns

/-! # Plans

Preparing a mutation leaves everything in the store as it is but the ids, the stamps and the locks,
and it ends with locks exactly when it ends with a batch (`Store.Prepares`). The batch is then that
of turns that are ready for the rows and lie behind the locked paths: it is planned
(`Pending.IsPlanned`). Committing a planned batch leaves the rows sound (`Pending.IsPlanned.isSound`).
-/

namespace VersionedCatalog

open Storage (Rows)

namespace Turn

theorem not_mem_written_nil (slot : Slot) : slot ∉ written [] := List.not_mem_nil

/-- There is nothing that no turns need. -/
theorem areReady_nil (rows : Rows) {stamp : Stamp} (hNotLast : stamp ≠ .last) :
    AreReady rows stamp [] where
  fits _ hTurn := absurd hTurn List.not_mem_nil
  apart := .nil
  ids := .nil
  notLast := hNotLast
  later slot hSlot := absurd hSlot (not_mem_written_nil slot)
  parents _ hTurn := absurd hTurn List.not_mem_nil
  children _ hTurn := absurd hTurn List.not_mem_nil

/-- A single turn that leaves no slot is ready if it fits, is later and has a live parent. -/
theorem areReady_singleton {rows : Rows} {stamp : Stamp} {turn : Turn} {slot : Slot}
    (hFits : turn.Fits rows) (hWritten : written [turn] = [slot]) (hLeft : turn.left? = none)
    (hNotLast : stamp ≠ .last)
    (hLater : ∀ version, rows.newest? slot = some version → version.stamp < stamp)
    (hParents : ∀ parent : Slot, parent.IsParentOf slot → rows.IsLive parent) :
    AreReady rows stamp [turn] := by
  refine ⟨List.forall_mem_singleton.mpr hFits, by rw [hWritten]; exact List.nodup_singleton slot,
    List.nodup_singleton _, hNotLast, ?_, ?_, ?_⟩
  · rw [hWritten]
    exact List.forall_mem_singleton.mpr hLater
  · intro other hOther place entity hTarget parent hParent
    have hPlace := AreReady.mem_written_of_target? hOther hTarget
    rw [hWritten] at hPlace ⊢
    cases List.mem_singleton.mp hPlace
    refine Or.inr ⟨fun hSelf => ?_, hParents parent hParent⟩
    have hDepth := hParent.isBelow.depth_lt
    rw [List.mem_singleton.mp hSelf] at hDepth
    exact Nat.lt_irrefl _ hDepth
  · intro other hOther place hPlace
    rw [List.mem_singleton.mp hOther, hLeft] at hPlace
    cases hPlace

theorem areBehind_singleton {turn : Turn} {slot : Slot} (hWritten : written [turn] = [slot])
    {paths : List Path} (hPath : slot.path ∈ paths) : AreBehind paths [turn] := by
  intro other hOther
  rw [hWritten] at hOther
  cases List.mem_singleton.mp hOther
  exact ⟨slot.path, hPath, List.prefix_rfl⟩

end Turn

/-- The batch is that of some turns. -/
structure IsPlan {α : Type} (rows : Rows) (paths : List Path) (change : Pending α) (stamp : Stamp)
    (turns : List Turn) (raise : Option Bytes) : Prop where
  batch : change.batch = Turn.batch stamp turns raise
  ready : Turn.AreReady rows stamp turns
  behind : Turn.AreBehind paths turns
  given : ∀ slot entity payload, .appear slot entity payload ∈ turns →
    change.assigned = some entity.id
  free : ∀ id ∈ change.assigned, rows.get? (Key.id id) = none

/-- Whether a batch writes a version with some value in a slot. -/
def Storage.Batch.Puts (batch : Storage.Batch) (slot : Slot) (value : Bytes) : Prop :=
  ∃ stamp, .put (slot.key stamp) value ∈ batch

namespace IsPlan

variable {α : Type} {rows : Rows} {paths : List Path} {change : Pending α} {stamp : Stamp}
  {turns : List Turn} {raise : Option Bytes} (hPlan : IsPlan rows paths change stamp turns raise)
include hPlan

/-- A version of a batch is what a turn writes. -/
theorem exists_write {slot : Slot} {issued : Stamp} {value : Bytes}
    (hPut : .put (slot.key issued) value ∈ change.batch) :
    issued = stamp ∧ ∃ flag payload, (slot, flag, payload) ∈ turns.flatMap Turn.writes ∧
      value = Version.encodeValue flag payload := by
  rw [hPlan.batch] at hPut
  rcases Turn.mem_batch_iff.mp hPut with ⟨turn, hTurn, write, hWrite, hOp⟩ | ⟨turn, hTurn, hIndex⟩ |
    ⟨bytes, _, hOp⟩
  · obtain ⟨hKey, hValue⟩ := Storage.Op.put.inj hOp
    obtain ⟨rfl, rfl⟩ := Slot.key_injective hKey
    exact ⟨rfl, _, _, List.mem_flatMap.mpr ⟨turn, hTurn, hWrite⟩, hValue⟩
  · have hKey := Turn.key_of_mem_index (hPlan.ready.fits turn hTurn) hIndex
    exact absurd hKey (slot.key_ne_id issued turn.id)
  · exact absurd (Storage.Op.put.inj hOp).1 (slot.key_ne_watermark issued)

theorem mem_written_iff {slot : Slot} :
    slot ∈ Turn.written turns ↔ ∃ value, change.batch.Puts slot value := by
  constructor
  · intro hSlot
    obtain ⟨turn, hTurn, flag, payload, hWrite⟩ := Turn.exists_of_mem_written hSlot
    refine ⟨Version.encodeValue flag payload, stamp, ?_⟩
    rw [hPlan.batch]
    exact Turn.mem_batch_iff.mpr (Or.inl ⟨turn, hTurn, _, hWrite, rfl⟩)
  · rintro ⟨value, issued, hPut⟩
    obtain ⟨_, flag, payload, hWrite, _⟩ := hPlan.exists_write hPut
    exact List.mem_map.mpr ⟨_, hWrite, rfl⟩

end IsPlan

namespace Pending

variable {α : Type}

def IsPlanned (rows : Rows) (paths : List Path) (change : Pending α) : Prop :=
  ∃ stamp turns raise, IsPlan rows paths change stamp turns raise

variable {rows : Rows} {paths : List Path} {change : Pending α}

theorem IsPlanned.isSound (hPlanned : change.IsPlanned rows paths) (hSound : rows.IsSound) :
    (rows.apply change.batch).IsSound := by
  obtain ⟨stamp, turns, raise, hPlan⟩ := hPlanned
  rw [hPlan.batch]
  exact hPlan.ready.isSound hSound

/-- Every version of a planned batch becomes the newest of its slot. -/
theorem IsPlanned.newest?_written (hPlanned : change.IsPlanned rows paths)
    (hShaped : rows.IsShaped) {slot : Slot} {stamp : Stamp} {value : Bytes}
    (hPut : .put (slot.key stamp) value ∈ change.batch) :
    ∃ version, (rows.apply change.batch).newest? slot = some version ∧ version.stamp = stamp ∧
      value = Version.encodeValue version.flag version.payload := by
  obtain ⟨issued, turns, raise, hPlan⟩ := hPlanned
  obtain ⟨rfl, flag, payload, hWrite, hValue⟩ := hPlan.exists_write hPut
  rw [hPlan.batch]
  exact ⟨_, hPlan.ready.newest?_written hShaped hWrite, rfl, hValue⟩

/-- What is planned writes near the paths only. -/
theorem IsPlanned.isNear (hPlanned : change.IsPlanned rows paths) {slot : Slot} {value : Bytes}
    (hPuts : change.batch.Puts slot value) : Turn.IsNear paths slot := by
  obtain ⟨issued, turns, raise, hPlan⟩ := hPlanned
  obtain ⟨path, hPath, hPrefix⟩ := hPlan.behind slot (hPlan.mem_written_iff.mpr ⟨value, hPuts⟩)
  exact ⟨path, hPath, Or.inl hPrefix⟩

/-- Writing what is planned leaves a slot alone in which it writes nothing. -/
theorem IsPlanned.newest?_of_not_puts (hPlanned : change.IsPlanned rows paths)
    (hShaped : rows.IsShaped) {slot : Slot} (hNone : ¬ ∃ value, change.batch.Puts slot value) :
    (rows.apply change.batch).newest? slot = rows.newest? slot := by
  obtain ⟨issued, turns, raise, hPlan⟩ := hPlanned
  rw [hPlan.batch]
  exact hPlan.ready.newest?_other hShaped (mt hPlan.mem_written_iff.mp hNone)

/-- What is planned stays planned as long as the newest versions around its paths stay and the id
that it gives out stays free. -/
theorem IsPlanned.of_agree {others : Rows} (hPlanned : change.IsPlanned rows paths)
    (hAgree : ∀ slot, Turn.IsNear paths slot → others.newest? slot = rows.newest? slot)
    (hFree : ∀ id ∈ change.assigned, others.get? (Key.id id) = none) :
    change.IsPlanned others paths := by
  obtain ⟨stamp, turns, raise, hPlan⟩ := hPlanned
  refine ⟨stamp, turns, raise, hPlan.batch, hPlan.ready.of_agree hPlan.behind hAgree ?_,
    hPlan.behind, hPlan.given, hFree⟩
  exact fun slot entity payload hMem => hFree entity.id (hPlan.given slot entity payload hMem)

/-- Writing what is planned changes no newest version near paths that are apart. -/
theorem IsPlanned.newest?_apart (hPlanned : change.IsPlanned rows paths) (hShaped : rows.IsShaped)
    {others : List Path} (hApart : AreApart others paths) {slot : Slot}
    (hNear : Turn.IsNear others slot) :
    (rows.apply change.batch).newest? slot = rows.newest? slot := by
  obtain ⟨stamp, turns, raise, hPlan⟩ := hPlanned
  rw [hPlan.batch]
  exact hPlan.ready.newest?_other hShaped
    (Turn.not_mem_written_of_apart hApart hPlan.behind hNear)

/-- Writing what is planned leaves an id free that is free, unless it gives it out. -/
theorem IsPlanned.get?_id_free (hPlanned : change.IsPlanned rows paths) (hSound : rows.IsSound)
    {id : EntityId} (hOther : id ∉ change.assigned) (hFree : rows.get? (Key.id id) = none) :
    (rows.apply change.batch).get? (Key.id id) = none := by
  obtain ⟨stamp, turns, raise, hPlan⟩ := hPlanned
  rw [hPlan.batch]
  refine hPlan.ready.get?_id_of_free hSound hFree fun slot entity payload hMem hSame => hOther ?_
  rw [hPlan.given slot entity payload hMem, hSame]
  rfl

end Pending

namespace Locks

/-- No grant has the number of a ticket that is still to come. -/
def AreNumbered (locks : Locks) : Prop := ∀ held ∈ locks.grants, held.ticket < locks.nextTicket

theorem areNumbered_of_idle {locks : Locks} (hIdle : locks.grants = []) : locks.AreNumbered :=
  fun held hHeld => by
    rw [hIdle] at hHeld
    cases hHeld

theorem AreNumbered.release {locks : Locks} (hNumbered : locks.AreNumbered) (ticket : Nat) :
    (locks.release ticket).AreNumbered := fun held hHeld =>
  hNumbered held (mem_grants_release.mp hHeld).1

theorem AreNumbered.acquire {locks : Locks} (hNumbered : locks.AreNumbered) {targets : List Path}
    {granted : Except LockTimeout Grant} {after : Locks}
    (hAcquire : locks.acquire targets = (granted, after)) : after.AreNumbered := by
  intro held hHeld
  cases granted with
  | error timeout =>
    obtain ⟨hGrants, hNext⟩ := acquire_eq_error hAcquire
    rw [hGrants] at hHeld
    rw [hNext]
    exact hNumbered held hHeld
  | ok grant =>
    obtain ⟨rfl, hGrants, hNext, _⟩ := acquire_eq_ok hAcquire
    rw [hGrants] at hHeld
    rw [hNext]
    rcases List.mem_cons.mp hHeld with rfl | hHeld
    · exact Nat.lt_succ_self _
    · exact Nat.lt_succ_of_lt (hNumbered held hHeld)

end Locks

namespace Store

open VersionedCatalog.Action

variable {α : Type}

/-- Two states of a store that differ in ids, stamps and locks at most. -/
structure Stays (before after : Store) : Prop where
  ids : after.ids.Follows before.ids
  backend : after.backend = before.backend
  settings : after.settings = before.settings
  clock : after.clock = before.clock
  watermark : after.watermark = before.watermark
  closed : after.closed = before.closed

theorem Stays.trans {before middle after : Store} (hFirst : Stays before middle)
    (hSecond : Stays middle after) : Stays before after :=
  ⟨hSecond.ids.trans hFirst.ids, hSecond.backend.trans hFirst.backend,
    hSecond.settings.trans hFirst.settings, hSecond.clock.trans hFirst.clock,
    hSecond.watermark.trans hFirst.watermark, hSecond.closed.trans hFirst.closed⟩

/-- The locks do not matter. -/
theorem stays_withLocks (store : Store) (locks : Locks) : Stays store { store with locks } :=
  ⟨.refl store.ids, rfl, rfl, rfl, rfl, rfl⟩

theorem Draws.stays {before after : Store} (hDraws : Draws before after) : Stays before after :=
  ⟨hDraws.ids, hDraws.backend, hDraws.settings, hDraws.clock, hDraws.watermark, hDraws.closed⟩

theorem Stays.issues {before after : Store} (hStays : Stays before after)
    (hLast : after.lastStamp = before.lastStamp) {floor : Option Stamp} {stamp : Stamp}
    (hIssues : after.Issues floor stamp) : before.Issues floor stamp := by
  rwa [Issues, hStays.settings, hStays.clock, hLast] at hIssues

/-- The locks of some paths were granted to a change, apart from all that are held. -/
structure HasLocked (before after : Store) (paths : List Path) (ticket : Nat) : Prop where
  grants : after.locks.grants = ⟨ticket, .ofTargets paths⟩ :: before.locks.grants
  fresh : ∀ held ∈ before.locks.grants, held.ticket ≠ ticket
  apart : ∀ held ∈ before.locks.grants, ∀ others, held.plan = .ofTargets others →
    AreApart paths others

/-- What the locks are like after preparing, by what came of it. -/
def LocksAfter (before after : Store) (paths : List Path) :
    Except StoreError (Prepared α) → Prop
  | .ok (.pending change) => ∃ ticket, change.ticket = some ticket ∧
      before.HasLocked after paths ticket
  | .ok (.settled _) => after.locks.grants = before.locks.grants
  | .error _ => after.locks.grants = before.locks.grants

/-- An action that takes the locks of some paths and keeps them if there is something to write. -/
def Prepares (paths : List Path) (x : Action (Prepared α)) : Prop :=
  ∀ (store after : Store) (outcome : Except StoreError (Prepared α)),
    store.locks.AreNumbered → x.run store = (outcome, after) →
      store.Stays after ∧ after.locks.AreNumbered ∧ LocksAfter store after paths outcome

theorem Prepares.inspect_bind {paths : List Path} {β : Type} {look : Store → Except StoreError β}
    {f : β → Action (Prepared α)} (hRest : ∀ b, Prepares paths (f b)) :
    Prepares paths (inspect look >>= f) := by
  intro store after outcome hNumbered hRun
  rw [run_bind, run_inspect] at hRun
  cases hLook : look store with
  | error error =>
    rw [hLook] at hRun
    cases hRun
    exact ⟨stays_withLocks store store.locks, hNumbered, rfl⟩
  | ok b =>
    rw [hLook] at hRun
    exact hRest b store after outcome hNumbered hRun

theorem prepares_underLocks {paths : List Path} {body : Nat → Action (Prepared α)}
    (hQuiet : ∀ ticket, IsQuiet (body ticket))
    (hTicket : ∀ {ticket store change after},
      (body ticket).run store = (.ok (.pending change), after) → change.ticket = some ticket) :
    Prepares paths (underLocks paths body) := by
  intro store after outcome hNumbered hRun
  rw [run_underLocks] at hRun
  generalize hAcquire : store.locks.acquire paths = acquired at hRun
  obtain ⟨granted, locks⟩ := acquired
  have hLocks := hNumbered.acquire hAcquire
  cases granted with
  | error timeout =>
    cases hRun
    exact ⟨stays_withLocks store locks, hLocks, (Locks.acquire_eq_error hAcquire).1⟩
  | ok grant =>
    obtain ⟨hGrant, hGrants, _, hApart⟩ := Locks.acquire_eq_ok hAcquire
    have hDraws := hQuiet grant.ticket { store with locks }
    have hPending := @hTicket grant.ticket { store with locks }
    simp only at hRun
    generalize (body grant.ticket).run { store with locks } = ran at hRun hDraws hPending
    obtain ⟨found, middle⟩ := ran
    have hStays : store.Stays middle := (stays_withLocks store locks).trans hDraws.stays
    have hMiddle : middle.locks = locks := hDraws.locks
    have hFresh : ∀ held ∈ store.locks.grants, held.ticket ≠ grant.ticket := fun held hHeld => by
      have hLess := hNumbered held hHeld
      rw [hGrant]
      exact Nat.ne_of_lt hLess
    -- what was granted is given back unless there is a batch to write
    have hReleased : store.Stays (middle.release grant.ticket) ∧
        (middle.release grant.ticket).locks.AreNumbered ∧
          (middle.release grant.ticket).locks.grants = store.locks.grants := by
      refine ⟨hStays.trans (stays_withLocks middle _), ?_, ?_⟩
      · rw [release, hMiddle]
        exact hLocks.release grant.ticket
      · rw [release, hMiddle]
        exact Locks.grants_release_cons hGrants hFresh
    cases found with
    | error error => cases hRun; exact hReleased
    | ok prepared =>
      cases prepared with
      | settled answer => cases hRun; exact hReleased
      | pending change =>
        cases hRun
        refine ⟨hStays, hMiddle ▸ hLocks, grant.ticket, hPending rfl, ?_, hFresh, hApart⟩
        rw [hMiddle, hGrants]
        cases hGrant
        rfl

/-- What succeeds under locks succeeds where nothing but the locks has changed, and the locks are given
back unless there is something to write. -/
theorem exists_body_of_ok {paths : List Path} {body : Nat → Action (Prepared α)}
    {store after : Store} {prepared : Prepared α}
    (hRun : (underLocks paths body).run store = (.ok prepared, after)) :
    ∃ ticket locks middle, (body ticket).run { store with locks } = (.ok prepared, middle) ∧
      (∀ change, prepared = .pending change → after = middle) ∧
      ∀ answer, prepared = .settled answer → after = middle.release ticket := by
  rw [run_underLocks] at hRun
  generalize store.locks.acquire paths = acquired at hRun
  obtain ⟨granted, locks⟩ := acquired
  cases granted with
  | error timeout => cases hRun
  | ok grant =>
    simp only at hRun
    generalize hBody : (body grant.ticket).run { store with locks } = ran at hRun
    obtain ⟨found, middle⟩ := ran
    refine ⟨grant.ticket, locks, middle, ?_⟩
    cases found with
    | error error => cases hRun
    | ok found =>
      cases found with
      | settled answer => cases hRun; exact ⟨hBody, nofun, fun _ _ => rfl⟩
      | pending change => cases hRun; exact ⟨hBody, fun _ _ => rfl, nofun⟩

/-- What is done under locks is done in a state that differs in the locks alone. -/
theorem underLocks_eq_ok {paths : List Path} {body : Nat → Action (Prepared α)}
    {store after : Store} {prepared : Prepared α}
    (hRun : (underLocks paths body).run store = (.ok prepared, after)) :
    ∃ ticket locked middle, store.Stays locked ∧
      (locked.lastStamp = store.lastStamp ∧ locked.ids = store.ids) ∧
      (body ticket).run locked = (.ok prepared, middle) ∧
      ∀ change, prepared = .pending change → after = middle := by
  obtain ⟨ticket, locks, middle, hBody, hPending, _⟩ := exists_body_of_ok hRun
  exact ⟨ticket, { store with locks }, middle, stays_withLocks store locks, ⟨rfl, rfl⟩, hBody,
    hPending⟩

theorem underLocks_eq_pending {paths : List Path} {body : Nat → Action (Prepared α)}
    {store after : Store} {change : Pending α}
    (hRun : (underLocks paths body).run store = (.ok (.pending change), after)) :
    ∃ ticket locked, store.Stays locked ∧
      (locked.lastStamp = store.lastStamp ∧ locked.ids = store.ids) ∧
      (body ticket).run locked = (.ok (.pending change), after) := by
  obtain ⟨ticket, locked, middle, hStays, hDraws, hBody, hSame⟩ := underLocks_eq_ok hRun
  rw [hSame change rfl]
  exact ⟨ticket, locked, hStays, hDraws, hBody⟩

/-- Where the locks are free, what is to be done under them is done. -/
theorem exists_locked {store : Store} {paths : List Path} (hFree : store.locks.AreFree paths) :
    ∃ ticket locks, ∀ body : Nat → Action (Prepared α),
      (underLocks paths body).run store = match (body ticket).run { store with locks } with
        | (.ok (.pending change), after) => (.ok (.pending change), after)
        | (.ok (.settled answer), after) => (.ok (.settled answer), after.release ticket)
        | (.error error, after) => (.error error, after.release ticket) := by
  obtain ⟨grant, locks, hAcquire⟩ := hFree.exists_acquire
  refine ⟨grant.ticket, locks, fun body => ?_⟩
  have hRun := run_underLocks paths body store
  rw [hAcquire] at hRun
  exact hRun

/-! ### Steps that all preparations share -/

theorem checkDepth_eq_ok {type : EntityType} {name : Name} (hOk : checkDepth type name = .ok ()) :
    name.scope.depth = type.depth := by
  unfold checkDepth at hOk
  split at hOk
  next hDepth => exact hDepth
  next => cases hOk

theorem putLive_eq_ok {store : Store} {slot : Slot} {stamp : Stamp} {entity : Entity}
    {op : Storage.Op} (hOk : store.putLive slot.stem stamp entity = .ok op) :
    ∃ payload, Entity.decode entity.type payload = .ok entity ∧
      op = .put (slot.key stamp) (Version.encodeValue .live payload) := by
  obtain ⟨payload, hEncode, hLast⟩ := Outcome.bind_eq_ok hOk
  cases hLast
  exact ⟨payload, Entity.decode_encode (Outcome.mapError_eq_ok hEncode), rfl⟩

end Store

end VersionedCatalog
