import VersionedCatalog.Proofs.Backends
import VersionedCatalog.Proofs.Commands
import VersionedCatalog.Proofs.Likeness

/-! # Commands over stores that differ in payloads

In two stores that are alike a command draws the same ids and stamps, finds the same locks and comes
to the same outcome, and it leaves stores that are alike (`Command.coincide`). The payloads that it
writes have one entity in both, whatever the formats are. Only their sizes differ, so the one thing
that may come to pass in one store alone is that something has no room (`Outcome.lacksRoom`).
-/

namespace VersionedCatalog

open Storage (Rows Backend Batch OpAlike RowAlike)
open Outcome (Agree)
open VersionedCatalog.Action

/-! ### What has no room -/

/-- Whether something was refused because of its size. -/
def StoreError.isOversized : StoreError → Bool
  | .backend (.oversized _) => true
  | .payload (.frame .encoding) => true
  | _ => false

namespace Outcome

variable {α β γ δ : Type} {R : α → β → Prop} {S : γ → δ → Prop}

def lacksRoom : Except StoreError α → Bool
  | .error error => error.isOversized
  | .ok _ => false

/-- Two outcomes that agree, unless something has no room. -/
def AgreeInRoom (R : α → β → Prop) (x : Except StoreError α) (y : Except StoreError β) : Prop :=
  lacksRoom x = true ∨ lacksRoom y = true ∨ Agree R x y

theorem lacksRoom_bind {x : Except StoreError α} (hLacks : lacksRoom x = true)
    (f : α → Except StoreError γ) : lacksRoom (x >>= f) = true := by
  cases x with
  | error error => exact hLacks
  | ok a => cases hLacks

theorem Agree.inRoom {x : Except StoreError α} {y : Except StoreError β} (hAgree : Agree R x y) :
    AgreeInRoom R x y := Or.inr (Or.inr hAgree)

/-- A chain of steps fails with the first of them that fails. -/
theorem bind_eq_error {ε : Type} {x : Except ε α} {f : α → Except ε β} {e : ε}
    (hError : x >>= f = .error e) : x = .error e ∨ ∃ a, x = .ok a ∧ f a = .error e := by
  cases x with
  | error found => cases hError; exact Or.inl rfl
  | ok a => exact Or.inr ⟨a, rfl, hError⟩

theorem AgreeInRoom.bind {x : Except StoreError α} {y : Except StoreError β}
    {f : α → Except StoreError γ} {g : β → Except StoreError δ} (hFirst : AgreeInRoom R x y)
    (hRest : ∀ a b, R a b → AgreeInRoom S (f a) (g b)) : AgreeInRoom S (x >>= f) (y >>= g) := by
  rcases hFirst with hLacks | hLacks | hAgree
  · exact Or.inl (lacksRoom_bind hLacks f)
  · exact Or.inr (Or.inl (lacksRoom_bind hLacks g))
  · cases hAgree with
    | ok related => exact hRest _ _ related
    | error error => exact Or.inr (Or.inr (.error error))

end Outcome

open Outcome (lacksRoom AgreeInRoom)

/-! ### Actions that coincide -/

namespace Action

variable {α β γ δ : Type} {R : α → β → Prop} {S : γ → δ → Prop}

/-- Two actions, each in a store of its own, that come to outcomes which agree and leave stores that
are alike, unless something has no room. -/
def Coincide (R : α → β → Prop) (x : Action α) (y : Action β) (store other : Store) : Prop :=
  lacksRoom (x.run store).1 = true ∨ lacksRoom (y.run other).1 = true ∨
    (Agree R (x.run store).1 (y.run other).1 ∧ (x.run store).2.Alike (y.run other).2)

variable {store other : Store}

theorem lacksRoom_run_bind {x : Action α} (hLacks : lacksRoom (x.run store).1 = true)
    (f : α → Action γ) : lacksRoom ((x >>= f).run store).1 = true := by
  rw [run_bind]
  generalize x.run store = ran at hLacks
  obtain ⟨outcome, after⟩ := ran
  cases outcome with
  | error error => exact hLacks
  | ok a => cases hLacks

theorem Coincide.bind {x : Action α} {y : Action β} {f : α → Action γ} {g : β → Action δ}
    (hFirst : Coincide R x y store other)
    (hRest : ∀ a b after otherAfter, R a b → after.Alike otherAfter →
      Coincide S (f a) (g b) after otherAfter) : Coincide S (x >>= f) (y >>= g) store other := by
  rcases hFirst with hLacks | hLacks | ⟨hAgree, hAlike⟩
  · exact Or.inl (lacksRoom_run_bind hLacks f)
  · exact Or.inr (Or.inl (lacksRoom_run_bind hLacks g))
  · rw [Coincide, run_bind, run_bind]
    generalize x.run store = ran, y.run other = otherRan at hAgree hAlike
    obtain ⟨outcome, after⟩ := ran
    obtain ⟨otherOutcome, otherAfter⟩ := otherRan
    cases hAgree with
    | ok related => exact hRest _ _ _ _ related hAlike
    | error error => exact Or.inr (Or.inr ⟨.error error, hAlike⟩)

section
variable (hAlike : store.Alike other)
include hAlike

theorem coincide_pure {a : α} {b : β} (hRelated : R a b) :
    Coincide R (pure a) (pure b) store other := Or.inr (Or.inr ⟨.ok hRelated, hAlike⟩)

theorem coincide_throw (error : StoreError) :
    Coincide R (throw error : Action α) (throw error : Action β) store other :=
  Or.inr (Or.inr ⟨.error error, hAlike⟩)

/-- What follows an inspection goes on in the same stores. -/
theorem coincide_inspect_bind {look : Store → Except StoreError α}
    {otherLook : Store → Except StoreError β} {f : α → Action γ} {g : β → Action δ}
    (hLook : AgreeInRoom R (look store) (otherLook other))
    (hRest : ∀ a b, R a b → Coincide S (f a) (g b) store other) :
    Coincide S (inspect look >>= f) (inspect otherLook >>= g) store other := by
  rcases hLook with hLacks | hLacks | hAgree
  · refine Or.inl (lacksRoom_run_bind ?_ f)
    rw [run_inspect]
    exact hLacks
  · refine Or.inr (Or.inl (lacksRoom_run_bind ?_ g))
    rw [run_inspect]
    exact hLacks
  · rw [Coincide, run_bind, run_bind, run_inspect, run_inspect]
    generalize look store = found, otherLook other = otherFound at hAgree
    cases hAgree with
    | ok related => exact hRest _ _ related
    | error error => exact Or.inr (Or.inr ⟨.error error, hAlike⟩)

/-- An inspection that finds the same in both stores. -/
theorem coincide_inspect_bind_eq {look otherLook : Store → Except StoreError α}
    {f : α → Action γ} {g : α → Action δ} (hSame : look store = otherLook other)
    (hRest : ∀ a, Coincide S (f a) (g a) store other) :
    Coincide S (inspect look >>= f) (inspect otherLook >>= g) store other :=
  coincide_inspect_bind hAlike (Agree.of_eq hSame).inRoom fun a _ hEq => hEq ▸ hRest a

end

theorem coincide_get_bind {f g : Store → Action γ} {S : γ → γ → Prop}
    (hRest : Coincide S (f store) (g other) store other) :
    Coincide S (get >>= f) (get >>= g) store other := by
  rw [Coincide, run_bind, run_bind]
  exact hRest

end Action

/-! ### Stamps, ids and locks -/

namespace Store

variable {store other : Store}

theorem Alike.skewMillis (hAlike : store.Alike other) :
    store.settings.skewMillis = other.settings.skewMillis := by
  rw [← hAlike.settings]
  rfl

theorem Alike.policyAt (hAlike : store.Alike other) (now : Millis) :
    store.policyAt now = other.policyAt now := by
  rw [Store.policyAt, Store.policyAt, ← hAlike.settings]
  rfl

theorem Alike.withLocks (hAlike : store.Alike other) (locks : Locks) :
    Alike { store with locks } { other with locks } :=
  ⟨hAlike.backend, hAlike.settings, hAlike.ids, hAlike.clock, hAlike.lastStamp, rfl,
    hAlike.watermark, hAlike.closed⟩

theorem Alike.release (hAlike : store.Alike other) (ticket : Nat) :
    (store.release ticket).Alike (other.release ticket) := by
  rw [Store.release, Store.release, hAlike.locks]
  exact hAlike.withLocks _

theorem coincide_issueStamp (hAlike : store.Alike other) (latest : Option Stamp) :
    Coincide Eq (issueStamp latest) (issueStamp latest) store other := by
  rw [Coincide, run_issueStamp, run_issueStamp, hAlike.skewMillis, hAlike.clock, hAlike.lastStamp]
  refine Or.inr (Or.inr ?_)
  cases Stamp.next other.settings.skewMillis other.clock other.lastStamp latest with
  | error skew => exact ⟨.error _, hAlike⟩
  | ok stamp =>
    exact ⟨.ok rfl, hAlike.backend, hAlike.settings, hAlike.ids, rfl, rfl, hAlike.locks,
      hAlike.watermark, hAlike.closed⟩

theorem coincide_drawId (hAlike : store.Alike other) :
    Coincide Eq drawId drawId store other := by
  rw [Coincide, run_drawId, run_drawId, hAlike.ids]
  refine Or.inr (Or.inr ?_)
  cases other.ids.draw? with
  | none => exact ⟨.error _, hAlike⟩
  | some drawn =>
    exact ⟨.ok rfl, hAlike.backend, hAlike.settings, rfl, hAlike.clock, hAlike.lastStamp,
      hAlike.locks, hAlike.watermark, hAlike.closed⟩

theorem coincide_freeId (attempts : Nat) {store other : Store} (hAlike : store.Alike other) :
    Coincide Eq (freeId attempts) (freeId attempts) store other := by
  induction attempts generalizing store other with
  | zero => exact coincide_throw hAlike _
  | succ attempts ih =>
    refine (coincide_drawId hAlike).bind fun id _ after otherAfter hSame hAfter => ?_
    cases hSame
    refine coincide_inspect_bind_eq hAfter (Catalog.indexed?_alike hAfter.backend id) fun found => ?_
    split
    next => exact coincide_pure hAfter rfl
    next => exact ih hAfter

theorem coincide_chooseId (hAlike : store.Alike other) (requested : Option EntityId)
    (stem : Bytes) : Coincide Eq (chooseId requested stem) (chooseId requested stem) store other := by
  cases requested with
  | none => exact coincide_freeId idAttempts hAlike
  | some id =>
    exact coincide_inspect_bind_eq hAlike (Catalog.claimId_alike hAlike.backend id stem) fun _ =>
      coincide_pure hAlike rfl

end Store

/-- Two changes that write alike batches. -/
structure Pending.Alike {α : Type} (change other : Pending α) : Prop where
  batch : List.Forall₂ OpAlike change.batch other.batch
  ticket : change.ticket = other.ticket
  assigned : change.assigned = other.assigned
  upkeep : change.upkeep = other.upkeep
  answer : change.answer = other.answer

inductive Prepared.Alike {α : Type} : Prepared α → Prepared α → Prop
  | settled (answer : α) : Prepared.Alike (.settled answer) (.settled answer)
  | pending {change other : Pending α} (alike : change.Alike other) :
      Prepared.Alike (.pending change) (.pending other)

namespace Store

variable {α : Type} {store other : Store}

theorem coincide_underLocks (hAlike : store.Alike other) (paths : List Path)
    {body otherBody : Nat → Action (Prepared α)}
    (hBody : ∀ ticket store other, Alike store other →
      Coincide Prepared.Alike (body ticket) (otherBody ticket) store other) :
    Coincide Prepared.Alike (underLocks paths body) (underLocks paths otherBody) store other := by
  rw [Coincide, run_underLocks, run_underLocks, hAlike.locks]
  generalize other.locks.acquire paths = acquired
  obtain ⟨granted, locks⟩ := acquired
  cases granted with
  | error timeout => exact Or.inr (Or.inr ⟨.error _, hAlike.withLocks locks⟩)
  | ok grant =>
    have hRan := hBody grant.ticket _ _ (hAlike.withLocks locks)
    rw [Coincide] at hRan
    simp only
    generalize (body grant.ticket).run { store with locks } = ran,
      (otherBody grant.ticket).run { other with locks } = otherRan at hRan
    obtain ⟨outcome, after⟩ := ran
    obtain ⟨otherOutcome, otherAfter⟩ := otherRan
    rcases hRan with hLacks | hLacks | ⟨hAgree, hAfter⟩
    · cases outcome with
      | error error => exact Or.inl hLacks
      | ok prepared => cases hLacks
    · cases otherOutcome with
      | error error => exact Or.inr (Or.inl hLacks)
      | ok prepared => cases hLacks
    · refine Or.inr (Or.inr ?_)
      cases hAgree with
      | error error => exact ⟨.error error, hAfter.release grant.ticket⟩
      | ok related =>
        cases related with
        | settled answer => exact ⟨.ok (.settled answer), hAfter.release grant.ticket⟩
        | pending alike => exact ⟨.ok (.pending alike), hAfter⟩

end Store

/-! ### Payloads -/

theorem Entity.encode_eq_error {format : Format} {entity : Entity} {error : PayloadError}
    (hError : entity.encode format = .error error) : error = .frame .encoding := by
  unfold encode Frame.encode at hError
  split at hError
  next => cases hError
  next => exact (Except.error.inj hError).symm

namespace Store

/-- What an entity is written as may have no room in one format only. -/
theorem encode_alike (store other : Store) (entity : Entity) :
    AgreeInRoom AreAlike (store.encode entity) (other.encode entity) := by
  unfold encode
  cases hHere : entity.encode store.format with
  | error error => exact Or.inl (by rw [Entity.encode_eq_error hHere]; rfl)
  | ok payload =>
    cases hThere : entity.encode other.format with
    | error error => exact Or.inr (Or.inl (by rw [Entity.encode_eq_error hThere]; rfl))
    | ok another => exact Or.inr (Or.inr (.ok (.of_encode hHere hThere)))

theorem putLive_alike (store other : Store) (type : EntityType) (name : Name) (stamp : Stamp)
    (entity : Entity) : AgreeInRoom OpAlike (store.putLive (Key.entity type name) stamp entity)
      (other.putLive (Key.entity type name) stamp entity) :=
  (encode_alike store other entity).bind fun _ _ hPayload =>
    Or.inr (Or.inr (.ok (.put (.live hPayload))))

theorem creationBatch_alike {store other : Store} (hAlike : store.Alike other) (type : EntityType)
    (name : Name) (stamp : Stamp) (entity : Entity) : AgreeInRoom (List.Forall₂ OpAlike)
      (store.creationBatch (Key.entity type name) stamp entity)
      (other.creationBatch (Key.entity type name) stamp entity) := by
  refine (putLive_alike store other type name stamp entity).bind fun first another hFirst => ?_
  rw [hAlike.watermark]
  refine Agree.inRoom (.ok ?_)
  split
  next => exact .cons hFirst (Storage.opAlike_refl _)
  next => exact .cons hFirst (Storage.opAlike_refl _)

theorem batch_alike (store other : Store) (stamp : Stamp) {moves : List Relocation}
    (hMoves : ∀ move ∈ moves, ∃ type name, move.target = Key.entity type name) :
    AgreeInRoom (List.Forall₂ OpAlike) (Relocation.batch store stamp moves)
      (Relocation.batch other stamp moves) := by
  induction moves with
  | nil => exact Agree.inRoom (.ok .nil)
  | cons move rest ih =>
    obtain ⟨⟨type, name, hTarget⟩, hRest⟩ := List.forall_mem_cons.mp hMoves
    have hOps : AgreeInRoom (List.Forall₂ OpAlike) (move.ops store stamp)
        (move.ops other stamp) := by
      rw [Relocation.ops, Relocation.ops, hTarget]
      exact (putLive_alike store other type name stamp move.entity).bind fun _ _ hFirst =>
        Agree.inRoom (.ok (.cons hFirst (Storage.opAlike_refl _)))
    exact hOps.bind fun _ _ hFirst => (ih hRest).bind fun _ _ hOthers =>
      Agree.inRoom (.ok (List.rel_append hFirst hOthers))

end Store

namespace Catalog

variable {backend : Backend} {source target : Name}

theorem target_of_relocateAll {type : EntityType} {versions : List Version}
    {moves : List Relocation} (hOk : relocateAll backend source target type versions = .ok moves) :
    ∀ move ∈ moves, ∃ type name, move.target = Key.entity type name := by
  induction versions generalizing moves with
  | nil => cases hOk; exact nofun
  | cons version rest ih =>
    obtain ⟨first, hFirst, hRest⟩ := Outcome.bind_eq_ok hOk
    obtain ⟨others, hOthers, hLast⟩ := Outcome.bind_eq_ok hRest
    cases hLast
    refine List.forall_mem_cons.mpr ⟨?_, ih hOthers⟩
    obtain ⟨entity, _, hFound⟩ := Outcome.bind_eq_ok hFirst
    split at hFound
    next => cases hFound
    next name _ =>
      obtain ⟨floor, _, hMove⟩ := Outcome.bind_eq_ok hFound
      cases hMove
      exact ⟨type, name, rfl⟩

theorem target_of_relocateRanges {ranges : List (EntityType × Bytes)} {moves : List Relocation}
    (hOk : relocateRanges backend source target ranges = .ok moves) :
    ∀ move ∈ moves, ∃ type name, move.target = Key.entity type name := by
  induction ranges generalizing moves with
  | nil => cases hOk; exact nofun
  | cons range rest ih =>
    obtain ⟨versions, _, hRest⟩ := Outcome.bind_eq_ok hOk
    obtain ⟨moved, hMoved, hRest⟩ := Outcome.bind_eq_ok hRest
    obtain ⟨others, hOthers, hLast⟩ := Outcome.bind_eq_ok hRest
    cases hLast
    exact List.forall_mem_append.mpr ⟨target_of_relocateAll hMoved, ih hOthers⟩

/-- Whatever is moved, is moved to the key of an entity. -/
theorem target_of_relocateTree {stamp : Stamp} {entity : Entity} {moves : List Relocation}
    (hOk : relocateTree backend source stamp entity target = .ok moves) :
    ∀ move ∈ moves, ∃ type name, move.target = Key.entity type name := by
  obtain ⟨found, floor, others, _, _, _, hOthers, rfl⟩ := relocateTree_parts hOk
  exact List.forall_mem_cons.mpr ⟨⟨_, _, rfl⟩, target_of_relocateRanges hOthers⟩

end Catalog

/-! ### Preparing -/

namespace Store

variable {store other : Store}

theorem Alike.parentOf (hAlike : store.Alike other) (type : EntityType) (name : Name) :
    store.parentOf type name = other.parentOf type name := by
  simp only [Store.parentOf, hAlike.load]

theorem replay_alike (type : EntityType) (name : Name) (requested : Option EntityId)
    {current another : Version} (hCurrent : current.Alike another) :
    replay type name requested current = replay type name requested another := by
  rw [replay, replay, Catalog.decode_alike hCurrent]

theorem coincide_prepareCreate (hAlike : store.Alike other) (name : Name) (draft : Draft) :
    Coincide Prepared.Alike (prepareCreate name draft) (prepareCreate name draft) store other := by
  refine coincide_inspect_bind_eq hAlike (by rw [hAlike.ensureOpen]) fun requested => ?_
  refine coincide_underLocks hAlike _ fun ticket store other hAlike => ?_
  refine coincide_inspect_bind_eq hAlike (hAlike.parentOf _ name) fun parent => ?_
  refine coincide_inspect_bind hAlike (Catalog.latest?_alike hAlike.backend _).inRoom
    fun latest another hLatest => ?_
  have hStamps : latest.map (·.stamp) = another.map (·.stamp) := by
    cases hLatest with
    | none => rfl
    | some hSame => exact congrArg some hSame.stamp
  have hLive := optionRel_filter (fun _ _ hSame => Version.Alike.isLive hSame) hLatest
  rw [hStamps]
  generalize latest.filter Version.isLive = live, another.filter Version.isLive = otherLive at hLive
  cases hLive with
  | some hCurrent =>
    exact coincide_inspect_bind_eq hAlike (replay_alike _ name requested hCurrent) fun existing =>
      coincide_pure hAlike (.settled existing)
  | none =>
    refine coincide_inspect_bind_eq hAlike
      (Catalog.resolveKind_alike hAlike.backend name parent draft.kind) fun kind => ?_
    refine (coincide_chooseId hAlike requested _).bind fun id _ store other hSame hAlike => ?_
    cases hSame
    refine coincide_get_bind ?_
    rw [hAlike.clock]
    refine (coincide_issueStamp hAlike _).bind fun stamp _ store other hSame hAlike => ?_
    cases hSame
    refine coincide_inspect_bind hAlike (creationBatch_alike hAlike _ name stamp _)
      fun batch another hBatch => coincide_pure hAlike (.pending ⟨hBatch, rfl, rfl, rfl, rfl⟩)

theorem coincide_prepareAlter (hAlike : store.Alike other) (type : EntityType) (name : Name)
    (modifier : String) (changes : List Change) : Coincide Prepared.Alike
      (prepareAlter type name modifier changes) (prepareAlter type name modifier changes)
      store other := by
  refine coincide_inspect_bind_eq hAlike (by rw [hAlike.ensureOpen]) fun _ => ?_
  refine coincide_underLocks hAlike _ fun ticket store other hAlike => ?_
  have hLoad : store.loadForChange type name = other.loadForChange type name := by
    rw [loadForChange, loadForChange, Catalog.entity?_alike hAlike.backend]
  refine coincide_inspect_bind_eq hAlike hLoad fun found => ?_
  obtain ⟨stamp, current⟩ := found
  dsimp only
  split
  next => exact coincide_pure hAlike (.settled current)
  next =>
    have hChanged : store.changed modifier changes current =
        other.changed modifier changes current := by
      rw [changed, changed, hAlike.clock]
    refine coincide_inspect_bind_eq hAlike hChanged fun updated => ?_
    split
    next =>
      refine (coincide_issueStamp hAlike _).bind fun issued _ store other hSame hAlike => ?_
      cases hSame
      refine coincide_inspect_bind hAlike (putLive_alike store other type name issued updated)
        fun version another hVersion => ?_
      exact coincide_pure hAlike (.pending ⟨.cons hVersion .nil, rfl, rfl, rfl, rfl⟩)
    next =>
      have hTree := Catalog.relocateTree_alike hAlike.backend name stamp updated
        (targetName name changes)
      refine coincide_inspect_bind hAlike (R := fun moves others => moves = others ∧
        ∀ move ∈ moves, ∃ type name, move.target = Key.entity type name) ?_ ?_
      · rw [← hTree]
        cases hMoves : Catalog.relocateTree store.backend name stamp updated
            (targetName name changes) with
        | error error => exact Agree.inRoom (.error error)
        | ok moves => exact Agree.inRoom (.ok ⟨rfl, Catalog.target_of_relocateTree hMoves⟩)
      rintro moves _ ⟨rfl, hTargets⟩
      refine (coincide_issueStamp hAlike _).bind fun issued _ store other hSame hAlike => ?_
      cases hSame
      refine coincide_inspect_bind hAlike (batch_alike store other issued hTargets)
        fun batch another hBatch => coincide_pure hAlike (.pending ⟨hBatch, rfl, rfl, rfl, rfl⟩)

theorem coincide_prepareDrop (hAlike : store.Alike other) (type : EntityType) (name : Name)
    (cascade : Bool) : Coincide Prepared.Alike (prepareDrop type name cascade)
      (prepareDrop type name cascade) store other := by
  refine coincide_inspect_bind_eq hAlike (by rw [hAlike.ensureOpen]) fun _ => ?_
  refine coincide_underLocks hAlike _ fun ticket store other hAlike => ?_
  refine coincide_inspect_bind hAlike (Catalog.live?_alike hAlike.backend type name).inRoom
    fun live another hLive => ?_
  cases hLive with
  | none => exact coincide_pure hAlike (.settled false)
  | some hCurrent =>
    refine coincide_inspect_bind hAlike
      (Catalog.doomed_alike hAlike.backend type name cascade hCurrent).inRoom
      fun doomed others hDoomed => ?_
    rw [Catalog.latestStamp_alike hDoomed]
    refine (coincide_issueStamp hAlike _).bind fun stamp _ store other hSame hAlike => ?_
    cases hSame
    refine coincide_inspect_bind_eq hAlike (Catalog.tombstones_alike stamp hDoomed) fun batch => ?_
    exact coincide_pure hAlike (.pending ⟨Storage.opAlike_refl batch, rfl, rfl, rfl, rfl⟩)

/-! ### Writing -/

/-- Upkeep keeps rows that are alike alike, wherever it goes through. -/
theorem Alike.tidy (hAlike : store.Alike other) : store.tidy.Alike other.tidy := by
  obtain ⟨hKeeps, hClosed⟩ := keepsRows_tidy store
  obtain ⟨hOtherKeeps, hOtherClosed⟩ := keepsRows_tidy other
  have hRows : store.tidy.backend.rows.Alike other.tidy.backend.rows := by
    rw [hKeeps.rows, hOtherKeeps.rows]
    exact hAlike.backend.rows
  refine ⟨⟨hRows, ?_, ?_⟩, hAlike.settings, hAlike.ids, hAlike.clock, hAlike.lastStamp, ?_,
    hAlike.watermark, hAlike.closed⟩
  · rw [hClosed, hOtherClosed, hAlike.backend.isClosed]
  · rw [hKeeps.faults, hOtherKeeps.faults, hAlike.backend.faults]
  · exact congrArg Locks.prune hAlike.locks

theorem coincide_prepareSweep (hAlike : store.Alike other) (now : Millis) :
    Coincide Prepared.Alike (prepareSweep now) (prepareSweep now) store other := by
  rw [Coincide, run_prepareSweep, run_prepareSweep, hAlike.policyAt,
    Sweep.ofBackend_alike _ hAlike.backend]
  refine Or.inr (Or.inr ?_)
  cases Sweep.ofBackend (other.policyAt now) other.backend with
  | error error => exact ⟨.error error, hAlike⟩
  | ok sweep =>
    simp only
    split
    next => exact ⟨.ok (.settled sweep), hAlike.tidy⟩
    next => exact ⟨.ok (.pending ⟨Storage.opAlike_refl _, rfl, rfl, rfl, rfl⟩), hAlike⟩

theorem coincide_prepareCollect (hAlike : store.Alike other) :
    Coincide Prepared.Alike prepareCollect prepareCollect store other := by
  refine coincide_inspect_bind_eq hAlike hAlike.ensureOpen fun _ => coincide_get_bind ?_
  rw [hAlike.clock]
  exact coincide_prepareSweep hAlike other.clock

end Store

namespace Storage

namespace Record

/-- The only reason for which something is not written to a log is its size. -/
def OnlyOversized (fault : Fault) : Prop := ∃ n, fault = .oversized n

theorem lengthWord_eq_error {n : Nat} {fault : Fault} (hError : lengthWord n = .error fault) :
    OnlyOversized fault := by
  unfold lengthWord at hError
  split at hError
  next => cases hError
  next => cases hError; exact ⟨n, rfl⟩

theorem sized_eq_error {bytes : Bytes} {fault : Fault} (hError : sized bytes = .error fault) :
    OnlyOversized fault := by
  rcases Outcome.bind_eq_error hError with hLength | ⟨_, _, hLast⟩
  · exact lengthWord_eq_error hLength
  · cases hLast

theorem encodeOp_eq_error {op : Op} {fault : Fault} (hError : encodeOp op = .error fault) :
    OnlyOversized fault := by
  cases op with
  | put key value =>
    rcases Outcome.bind_eq_error hError with hKey | ⟨_, _, hRest⟩
    · exact sized_eq_error hKey
    · rcases Outcome.bind_eq_error hRest with hValue | ⟨_, _, hLast⟩
      · exact sized_eq_error hValue
      · cases hLast
  | delete key =>
    rcases Outcome.bind_eq_error hError with hKey | ⟨_, _, hLast⟩
    · exact sized_eq_error hKey
    · cases hLast

theorem encodeOps_eq_error {batch : Batch} {fault : Fault}
    (hError : encodeOps batch = .error fault) : OnlyOversized fault := by
  induction batch with
  | nil => cases hError
  | cons op rest ih =>
    rcases Outcome.bind_eq_error hError with hFirst | ⟨_, _, hRest⟩
    · exact encodeOp_eq_error hFirst
    · rcases Outcome.bind_eq_error hRest with hOthers | ⟨_, _, hLast⟩
      · exact ih hOthers
      · cases hLast

theorem encode_eq_error {batch : Batch} {fault : Fault} (hError : encode batch = .error fault) :
    OnlyOversized fault := by
  rcases Outcome.bind_eq_error hError with hCount | ⟨_, _, hRest⟩
  · exact lengthWord_eq_error hCount
  rcases Outcome.bind_eq_error hRest with hOps | ⟨_, _, hRest⟩
  · exact encodeOps_eq_error hOps
  rcases Outcome.bind_eq_error hRest with hBody | ⟨_, _, hLast⟩
  · exact sized_eq_error hBody
  · cases hLast

end Record

open Record (OnlyOversized)

theorem Journal.write_eq_error {journal : Journal} {batch : Batch} {fault : Fault}
    (hError : journal.write batch = .error fault) : OnlyOversized fault := by
  unfold Journal.write at hError
  split at hError
  next => cases hError
  next =>
    rcases Outcome.bind_eq_error hError with hRecord | ⟨record, _, hRest⟩
    · exact Record.encode_eq_error hRecord
    · simp only at hRest
      split at hRest <;> cases hRest

namespace Backend

/-- A backend that permits writing takes a batch unless it is too large. -/
theorem write_cases {backend : Backend} (hPermit : backend.permit .write = .ok ())
    (batch : Batch) : (∃ fault, backend.write batch = .error fault ∧ OnlyOversized fault) ∨
      ∃ written, backend.write batch = .ok written := by
  cases hWrite : backend.write batch with
  | ok written => exact Or.inr ⟨written, rfl⟩
  | error fault =>
    refine Or.inl ⟨fault, rfl, ?_⟩
    rw [write, hPermit] at hWrite
    rcases Outcome.bind_eq_error hWrite with hPermit | ⟨_, _, hRest⟩
    · cases hPermit
    rcases Outcome.bind_eq_error hRest with hEngine | ⟨_, _, hLast⟩
    · cases hState : backend.engine with
      | memory rows closed => rw [hState] at hEngine; cases hEngine
      | journal state =>
        rw [hState] at hEngine
        rcases Outcome.bind_eq_error hEngine with hJournal | ⟨_, _, hLast⟩
        · exact Journal.write_eq_error hJournal
        · cases hLast
    · cases hLast

/-- Alike batches are written alike, unless one of them is too large. -/
theorem Alike.write {backend other : Backend} (hAlike : backend.Alike other)
    {batch otherBatch : Batch} (hBatch : List.Forall₂ OpAlike batch otherBatch) :
    AgreeInRoom Alike ((backend.write batch).mapError StoreError.backend)
      ((other.write otherBatch).mapError StoreError.backend) := by
  cases hPermit : backend.permit .write with
  | error fault =>
    have hOther := (hAlike.permit_eq .write).symm.trans hPermit
    refine Or.inr (Or.inr ?_)
    rw [Backend.write, Backend.write, hPermit, hOther]
    exact .error _
  | ok _ =>
    have hOther := (hAlike.permit_eq .write).symm.trans hPermit
    rcases write_cases hPermit batch with ⟨_, hWrite, n, rfl⟩ | ⟨written, hWrite⟩
    · exact Or.inl (by rw [hWrite]; rfl)
    rcases write_cases hOther otherBatch with ⟨_, hOtherWrite, n, rfl⟩ | ⟨another, hOtherWrite⟩
    · exact Or.inr (Or.inl (by rw [hOtherWrite]; rfl))
    obtain ⟨hRows, hFaults, hOpen, _⟩ := write_eq_ok hWrite
    obtain ⟨hOtherRows, hOtherFaults, hOtherOpen, _⟩ := write_eq_ok hOtherWrite
    rw [hWrite, hOtherWrite]
    refine Or.inr (Or.inr (.ok ⟨?_, hOpen.trans hOtherOpen.symm, ?_⟩))
    · rw [hRows, hOtherRows]
      exact Rows.Alike.apply hBatch hAlike.rows
    · rw [hFaults, hOtherFaults, hAlike.faults]

end Backend

end Storage

namespace Store

variable {α : Type} {store other : Store}

theorem Alike.releaseTicket (hAlike : store.Alike other) (ticket : Option Nat) :
    (store.releaseTicket ticket).Alike (other.releaseTicket ticket) := by
  cases ticket with
  | none => exact hAlike
  | some ticket => exact hAlike.release ticket

theorem Alike.raiseWatermark (hAlike : store.Alike other) (assigned : Option EntityId) :
    (store.raiseWatermark assigned).Alike (other.raiseWatermark assigned) := by
  cases assigned with
  | none => exact hAlike
  | some id =>
    exact ⟨hAlike.backend, hAlike.settings, hAlike.ids, hAlike.clock, hAlike.lastStamp,
      hAlike.locks, congrArg (max · id.word) hAlike.watermark, hAlike.closed⟩

theorem Alike.over (hAlike : store.Alike other) {backend another : Backend}
    (hBackend : backend.Alike another) :
    Alike { store with backend := backend } { other with backend := another } :=
  ⟨hBackend, hAlike.settings, hAlike.ids, hAlike.clock, hAlike.lastStamp, hAlike.locks,
    hAlike.watermark, hAlike.closed⟩

theorem coincide_commit (hAlike : store.Alike other) {change another : Pending α}
    (hChange : change.Alike another) : Coincide Eq (commit change) (commit another) store other := by
  have hWrite := hAlike.backend.write hChange.batch
  rw [Coincide, run_commit, run_commit, ← hChange.ticket, ← hChange.assigned, ← hChange.upkeep,
    ← hChange.answer]
  generalize store.backend.write change.batch = written,
    other.backend.write another.batch = otherWritten at hWrite
  rcases hWrite with hLacks | hLacks | hAgree
  · cases written with
    | error fault => exact Or.inl hLacks
    | ok backend => cases hLacks
  · cases otherWritten with
    | error fault => exact Or.inr (Or.inl hLacks)
    | ok backend => cases hLacks
  refine Or.inr (Or.inr ?_)
  cases written with
  | error fault =>
    cases otherWritten with
    | ok backend => cases hAgree
    | error fault =>
      cases hAgree
      exact ⟨.error _, hAlike.releaseTicket _⟩
  | ok backend =>
    cases otherWritten with
    | error fault => cases hAgree
    | ok another =>
      cases hAgree with
      | ok hBackend =>
        have hWritten := ((hAlike.over hBackend).raiseWatermark change.assigned).releaseTicket
          change.ticket
        refine ⟨.ok rfl, ?_⟩
        simp only
        split
        next => exact hWritten.tidy
        next => exact hWritten

theorem coincide_complete {x y : Action (Prepared α)}
    (hPrepare : Coincide Prepared.Alike x y store other) :
    Coincide Eq (complete x) (complete y) store other := by
  refine hPrepare.bind fun prepared another after otherAfter hPrepared hAfter => ?_
  cases hPrepared with
  | settled answer => exact coincide_pure hAfter rfl
  | pending hChange => exact coincide_commit hAfter hChange

end Store

/-- A command comes to the same outcome in stores that are alike and leaves stores that are alike,
unless something has no room. -/
theorem Command.coincide (command : Command) {store other : Store} (hAlike : store.Alike other) :
    Coincide Eq command.perform command.perform store other := by
  have hMap : ∀ {α : Type} (f : α → Reply) {x : Action (Prepared α)},
      Coincide Prepared.Alike x x store other →
      Coincide Eq (do return f (← Store.complete x)) (do return f (← Store.complete x)) store other :=
    fun f _ hPrepare => (Store.coincide_complete hPrepare).bind fun answer _ _ _ hSame hAfter =>
      coincide_pure hAfter (congrArg f hSame)
  cases command with
  | mutate mutation =>
    cases mutation with
    | create name draft => exact hMap _ (Store.coincide_prepareCreate hAlike name draft)
    | alter type name modifier changes =>
      exact hMap _ (Store.coincide_prepareAlter hAlike type name modifier changes)
    | drop type name cascade => exact hMap _ (Store.coincide_prepareDrop hAlike type name cascade)
  | collect => exact hMap _ (Store.coincide_prepareCollect hAlike)
  | sweep now => exact hMap _ (Store.coincide_prepareSweep hAlike now)

end VersionedCatalog
