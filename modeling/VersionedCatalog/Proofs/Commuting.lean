import VersionedCatalog.Proofs.Atomicity
import VersionedCatalog.Proofs.Echoes
import VersionedCatalog.Proofs.Footprints
import VersionedCatalog.Proofs.Joining

/-! # Independent mutations

Two mutations whose paths are apart, and which ask for different ids that nobody has, do not see each
other. After one of them the store looks to the other one as before (`Store.Reachable.looksAs`):
nothing was written near its paths, and nobody has taken its id. What has changed are stamps and the
greatest id, and those matter for nothing but stamps and the greatest id
(`Mutation.CannotTell.agree_prepare`). So each of them answers the same in either order and writes
the same values in the same slots (`Mutation.CannotTell.echoes`), and what is written in a slot stays
there when the other one writes. Hence the same is held in the end (`Pending.Cross.holds_iff`), and
the same is read (`Store.Reachable.commutes`).
-/

namespace VersionedCatalog

open Storage (Rows Backend Batch)
open Outcome (Agree)
open VersionedCatalog.Action

/-! ### What a mutation leaves -/

/-- A change that writes nothing. -/
def Pending.nothing : Pending Reply := ⟨[], none, none, false, .dropped false⟩

namespace Store

/-- What a mutation answers. -/
def answer (store : Store) (mutation : Mutation) : Except StoreError Reply :=
  (mutation.perform.run store).1

/-- The state that a mutation leaves. -/
def after (store : Store) (mutation : Mutation) : Store := (mutation.perform.run store).2

/-- What comes of what was prepared: the answer, and the change that is written. -/
def settle (backend : Backend) :
    Except StoreError (Prepared Reply) → Except StoreError Reply × Pending Reply
  | .error error => (.error error, .nothing)
  | .ok (.settled answer) => (.ok answer, .nothing)
  | .ok (.pending change) =>
    match backend.write change.batch with
    | .error fault => (.error (.backend fault), .nothing)
    | .ok _ => (.ok change.answer, change)

/-- The change that a mutation writes. -/
def written (store : Store) (mutation : Mutation) : Pending Reply :=
  (settle store.backend (mutation.prepare.run store).1).2

/-- Two states between which a change was written; in the later one stamps, ids and locks may be
others. -/
structure Becomes (before after : Store) (change : Pending Reply) : Prop where
  rows : after.backend.rows = before.backend.rows.apply change.batch
  faults : after.backend.faults = before.backend.faults
  isClosed : after.backend.isClosed = before.backend.isClosed
  isLogged : after.backend.isLogged = before.backend.isLogged
  settings : after.settings = before.settings
  clock : after.clock = before.clock
  watermark : after.watermark = (before.raiseWatermark change.assigned).watermark
  closed : after.closed = before.closed

section
variable {before middle after : Store} {change : Pending Reply}

theorem Stays.becomes (hStays : before.Stays after) : before.Becomes after .nothing :=
  ⟨by rw [hStays.backend]; rfl, by rw [hStays.backend], by rw [hStays.backend],
    by rw [hStays.backend], hStays.settings, hStays.clock, hStays.watermark, hStays.closed⟩

theorem Stays.trans_becomes (hStays : before.Stays middle)
    (hBecomes : middle.Becomes after change) : before.Becomes after change := by
  have hWatermark : (middle.raiseWatermark change.assigned).watermark =
      (before.raiseWatermark change.assigned).watermark := by
    cases change.assigned with
    | none => exact hStays.watermark
    | some id => exact congrArg (max · id.word) hStays.watermark
  have hBackend := hStays.backend
  exact ⟨hBackend ▸ hBecomes.rows, hBackend ▸ hBecomes.faults, hBackend ▸ hBecomes.isClosed,
    hBackend ▸ hBecomes.isLogged, hBecomes.settings.trans hStays.settings,
    hBecomes.clock.trans hStays.clock, hBecomes.watermark.trans hWatermark,
    hBecomes.closed.trans hStays.closed⟩

theorem Becomes.tidy (hBecomes : before.Becomes after change) :
    before.Becomes after.tidy change := by
  unfold Store.tidy
  cases hMaintain : after.backend.maintain with
  | error fault =>
    exact ⟨hBecomes.rows, hBecomes.faults, hBecomes.isClosed, hBecomes.isLogged, hBecomes.settings,
      hBecomes.clock, hBecomes.watermark, hBecomes.closed⟩
  | ok backend =>
    obtain ⟨hKeeps, hClosed⟩ := Backend.maintain_eq_ok hMaintain
    exact ⟨hKeeps.rows.trans hBecomes.rows, hKeeps.faults.trans hBecomes.faults,
      hClosed.trans hBecomes.isClosed,
      (Backend.isLogged_maintain hMaintain).trans hBecomes.isLogged, hBecomes.settings,
      hBecomes.clock, hBecomes.watermark, hBecomes.closed⟩

theorem becomes_written {backend : Backend}
    (hWrite : before.backend.write change.batch = .ok backend) :
    before.Becomes (({ before with backend := backend } : Store).raiseWatermark
      change.assigned |>.releaseTicket change.ticket) change := by
  obtain ⟨hRows, hFaults, hOpen, _⟩ := Backend.write_eq_ok hWrite
  obtain ⟨_, hPermit, _⟩ := Outcome.bind_eq_ok hWrite
  have hClosed := hOpen.trans (Backend.permit_eq_ok hPermit).symm
  have hLogged := Backend.isLogged_write hWrite
  obtain ⟨batch, ticket, assigned, upkeep, reply⟩ := change
  cases assigned <;> cases ticket <;>
    exact ⟨hRows, hFaults, hClosed, hLogged, rfl, rfl, rfl, rfl⟩

theorem becomes_releaseTicket (store : Store) (ticket : Option Nat) :
    store.Becomes (store.releaseTicket ticket) .nothing := by
  cases ticket <;> exact ⟨rfl, rfl, rfl, rfl, rfl, rfl, rfl, rfl⟩

/-- Committing settles what was prepared. -/
theorem commit_settles (change : Pending Reply) (store : Store) :
    ((commit change).run store).1 = (settle store.backend (.ok (.pending change))).1 ∧
      store.Becomes ((commit change).run store).2
        (settle store.backend (.ok (.pending change))).2 := by
  rw [run_commit, settle]
  cases hWrite : store.backend.write change.batch with
  | error fault => exact ⟨rfl, becomes_releaseTicket store change.ticket⟩
  | ok backend =>
    refine ⟨rfl, ?_⟩
    have hWritten := becomes_written hWrite
    dsimp only
    split
    · exact hWritten.tidy
    · exact hWritten

/-- A mutation settles what it has prepared. -/
theorem mutation_settles {store : Store} (hIdle : store.locks.grants = []) (mutation : Mutation) :
    store.answer mutation = (settle store.backend (mutation.prepare.run store).1).1 ∧
      store.Becomes (store.after mutation) (store.written mutation) := by
  rw [answer, Store.after, written, mutation.run_perform, run_complete]
  generalize hRan : mutation.prepare.run store = ran
  obtain ⟨outcome, middle⟩ := ran
  obtain ⟨hStays, _, _⟩ :=
    mutation.prepares store middle outcome (Locks.areNumbered_of_idle hIdle) hRan
  cases outcome with
  | error error => exact ⟨rfl, hStays.becomes⟩
  | ok prepared =>
    cases prepared with
    | settled answer => exact ⟨rfl, hStays.becomes⟩
    | pending change =>
      obtain ⟨hAnswer, hBecomes⟩ := commit_settles change middle
      rw [hStays.backend] at hAnswer hBecomes
      exact ⟨hAnswer, hStays.trans_becomes hBecomes⟩

/-- What a mutation writes it has prepared. -/
theorem written_cases (store : Store) (mutation : Mutation) : store.written mutation = .nothing ∨
    ∃ middle, mutation.prepare.run store = (.ok (.pending (store.written mutation)), middle) ∧
      (store.after mutation).lastStamp = middle.lastStamp := by
  rw [Store.after, written, mutation.run_perform, run_complete]
  generalize mutation.prepare.run store = ran
  obtain ⟨outcome, middle⟩ := ran
  cases outcome with
  | error error => exact Or.inl rfl
  | ok prepared =>
    cases prepared with
    | settled answer => exact Or.inl rfl
    | pending change =>
      have hStamp := (commit_cases (Prod.eta ((commit change).run middle)).symm).1.lastStamp
      rw [settle]
      split
      next => exact Or.inl rfl
      next => exact Or.inr ⟨middle, rfl, hStamp⟩

end

end Store

/-! ### Changes written one after the other -/

namespace Storage.Rows

/-- What a slot holds does not depend on the stamp of its newest version. -/
theorem holds_congr_of_value {rows others : Rows} {slot : Slot} {a b : Version}
    (hNewest : rows.newest? slot = some a) (hOther : others.newest? slot = some b)
    (hValue : Version.encodeValue a.flag a.payload = Version.encodeValue b.flag b.payload)
    {entity : Entity} : rows.Holds slot entity ↔ others.Holds slot entity := by
  obtain ⟨hFlag, hPayload⟩ := Version.encodeValue_injective hValue
  simp only [Holds, hNewest, hOther, Option.some.injEq, exists_eq_left', Version.isLive, hFlag,
    hPayload]

end Storage.Rows

namespace Pending

theorem isPlanned_nothing (rows : Rows) (paths : List Path) : nothing.IsPlanned rows paths := by
  refine ⟨.zero, [], none, rfl, Turn.areReady_nil rows (by decide), fun slot hSlot => ?_, ?_, nofun⟩
  · exact absurd hSlot (Turn.not_mem_written_nil slot)
  · exact fun _ _ _ hTurn => absurd hTurn List.not_mem_nil

/-- Two changes of the rows, each planned at once and after the other one, where each writes the same
values in the same slots. -/
structure Cross (rows : Rows) (paths others : List Path)
    (change changeAfter other otherAfter : Pending Reply) : Prop where
  sound : rows.IsSound
  apart : AreApart paths others
  first : change.IsPlanned rows paths
  firstAfter : changeAfter.IsPlanned (rows.apply other.batch) paths
  second : other.IsPlanned rows others
  secondAfter : otherAfter.IsPlanned (rows.apply change.batch) others
  puts : ∀ slot value, changeAfter.batch.Puts slot value ↔ change.batch.Puts slot value
  otherPuts : ∀ slot value, otherAfter.batch.Puts slot value ↔ other.batch.Puts slot value

namespace Cross

variable {rows : Rows} {paths others : List Path}
  {change changeAfter other otherAfter : Pending Reply}
  (hCross : Cross rows paths others change changeAfter other otherAfter)
include hCross

theorem symm : Cross rows others paths other otherAfter change changeAfter :=
  ⟨hCross.sound, hCross.apart.symm, hCross.second, hCross.secondAfter, hCross.first,
    hCross.firstAfter, hCross.otherPuts, hCross.puts⟩

/-- What one change writes in a slot is held there in the end, whether it comes first or last. -/
theorem holds_iff_of_puts {slot : Slot} {value : Bytes} (hPuts : change.batch.Puts slot value)
    {entity : Entity} : ((rows.apply change.batch).apply otherAfter.batch).Holds slot entity ↔
      ((rows.apply other.batch).apply changeAfter.batch).Holds slot entity := by
  have hShaped := (hCross.first.isSound hCross.sound).shaped
  have hOtherShaped := (hCross.second.isSound hCross.sound).shaped
  obtain ⟨stamp, hPut⟩ := hPuts
  obtain ⟨otherStamp, hOtherPut⟩ := (hCross.puts slot value).mpr ⟨stamp, hPut⟩
  obtain ⟨version, hNewest, _, hValue⟩ := hCross.first.newest?_written hCross.sound.shaped hPut
  obtain ⟨found, hFound, _, hSame⟩ := hCross.firstAfter.newest?_written hOtherShaped hOtherPut
  have hStays := hCross.secondAfter.newest?_apart hShaped hCross.apart
    (hCross.first.isNear ⟨stamp, hPut⟩)
  exact Rows.holds_congr_of_value (hStays.trans hNewest) hFound (hValue.symm.trans hSame)

/-- In the end the same is held in either order. -/
theorem holds_iff {slot : Slot} {entity : Entity} :
    ((rows.apply change.batch).apply otherAfter.batch).Holds slot entity ↔
      ((rows.apply other.batch).apply changeAfter.batch).Holds slot entity := by
  by_cases hFirst : ∃ value, change.batch.Puts slot value
  · obtain ⟨value, hPuts⟩ := hFirst
    exact hCross.holds_iff_of_puts hPuts
  by_cases hSecond : ∃ value, other.batch.Puts slot value
  · obtain ⟨value, hPuts⟩ := hSecond
    exact (hCross.symm.holds_iff_of_puts hPuts).symm
  have hShaped := (hCross.first.isSound hCross.sound).shaped
  have hOtherShaped := (hCross.second.isSound hCross.sound).shaped
  have hFirstAfter : ¬ ∃ value, changeAfter.batch.Puts slot value := by
    simpa only [hCross.puts] using hFirst
  have hSecondAfter : ¬ ∃ value, otherAfter.batch.Puts slot value := by
    simpa only [hCross.otherPuts] using hSecond
  refine Rows.holds_congr ?_
  rw [hCross.secondAfter.newest?_of_not_puts hShaped hSecondAfter,
    hCross.first.newest?_of_not_puts hCross.sound.shaped hFirst,
    hCross.firstAfter.newest?_of_not_puts hOtherShaped hFirstAfter,
    hCross.second.newest?_of_not_puts hCross.sound.shaped hSecond]

end Cross

end Pending

/-! ### What one mutation is to another one -/

namespace Mutation

/-- The id that a mutation asks for. -/
def Requests : Mutation → EntityId → Prop
  | create _ draft, id => Store.requestedId draft = .ok (some id)
  | alter _ _ _ _, _ => False
  | drop _ _ _, _ => False

theorem creates_of_requests {mutation : Mutation} {id : EntityId}
    (hRequests : mutation.Requests id) : mutation.Creates := by
  cases mutation with
  | create => trivial
  | alter | drop => exact hRequests

theorem requests_of_looksUp {mutation : Mutation} (hCarries : mutation.CarriesId) {id : EntityId}
    (hLooksUp : mutation.LooksUp id) : mutation.Requests id := by
  cases mutation with
  | create name draft =>
    obtain ⟨requested, hRequested, hOnly⟩ := hLooksUp
    obtain ⟨wanted, rfl⟩ :=
      Option.ne_none_iff_exists'.mp fun hNone => hCarries (hNone ▸ hRequested)
    rw [hOnly wanted rfl]
    exact hRequested
  | alter | drop => exact hLooksUp

/-- A mutation that draws no id gives out none but the one that it asks for. -/
theorem requests_of_assigned {mutation : Mutation} (hValid : mutation.name.IsValid)
    (hCarries : mutation.CarriesId) {store middle : Store} {change : Pending Reply}
    (hSound : store.backend.rows.IsSound)
    (hRun : mutation.prepare.run store = (.ok (.pending change), middle)) :
    ∀ id ∈ change.assigned, mutation.Requests id := by
  obtain ⟨deed, hDoes, hDeed⟩ := mutation.prepare_does hValid hSound.shaped hRun
  rw [hDeed.assigned]
  intro id hId
  cases hDoes with
  | create appears =>
    obtain ⟨found, hFound, hChange⟩ := pending_of_map hRun
    obtain ⟨hFinds, hAssigned, _⟩ := Store.prepareCreate_eq_pending hFound
    obtain ⟨requested, hRequested, hChooses⟩ := hFinds.chosen
    have hAnswer : change.assigned = some found.answer.id := hChange ▸ hAssigned
    rw [← hDeed.assigned, hAnswer] at hId
    cases hId
    cases hChooses with
    | claimed => exact hRequested
    | drawn => exact absurd hRequested hCarries
  | _ => cases hId

/-- A store that a mutation cannot tell from another one: what is near its paths and whose id it asks
for are the same. Unless both are marked alike, a greater id may be remembered. -/
structure CannotTell (mutation : Mutation) (marked : Prop) (store other : Store) : Prop where
  backend : store.backend.LooksAs mutation.paths mutation.LooksUp other.backend
  isLogged : other.backend.isLogged = store.backend.isLogged
  settings : other.settings = store.settings
  clock : other.clock = store.clock
  closed : other.closed = store.closed
  watermark : other.watermark = store.watermark ∨ ¬ marked ∧ store.watermark ≤ other.watermark

namespace CannotTell

variable {mutation : Mutation} {marked : Prop} {store other : Store}
  (hSame : mutation.CannotTell marked store other) (hValid : mutation.name.IsValid)
  (hCarries : mutation.CarriesId) (hSteady : store.IsSteady) (hOther : other.IsSteady)
include hSame hValid hCarries hSteady hOther

/-- In both stores the same is prepared, but for the stamps. -/
theorem agree_prepare : Agree (Prepared.Echoes (mutation.Creates → marked))
    (mutation.prepare.run store).1 (mutation.prepare.run other).1 := by
  have hMirrors := Mutation.prepare_mirrors_lookups hValid hSame.backend
  have hPeers : Store.Peers marked (store.over other.backend) other := by
    refine ⟨other.ids, other.lastStamp, other.locks, other.watermark, ?_, hSame.watermark⟩
    rw [Store.anew, Store.over, ← hSame.settings, ← hSame.clock, ← hSame.closed]
  have hAccord := (Mutation.accord hCarries hPeers hSteady.grants hOther.grants).1
  rwa [hMirrors] at hAccord

/-- In both stores the mutation answers the same and writes the same values in the same slots, unless
it gives out an id and is too large. -/
theorem echoes (hRoom : mutation.Creates → ¬ marked →
      ∀ size, store.answer mutation ≠ .error (.backend (.oversized size))) :
    other.answer mutation = store.answer mutation ∧
      ∀ slot value, (other.written mutation).batch.Puts slot value ↔
        (store.written mutation).batch.Puts slot value := by
  have hAgree := hSame.agree_prepare hValid hCarries hSteady hOther
  obtain ⟨hAnswer, _⟩ := Store.mutation_settles hSteady.grants mutation
  obtain ⟨hOtherAnswer, _⟩ := Store.mutation_settles hOther.grants mutation
  rw [hAnswer] at hRoom ⊢
  rw [hOtherAnswer, Store.written, Store.written]
  generalize (mutation.prepare.run store).1 = prepared, (mutation.prepare.run other).1 = another
    at hAgree hRoom
  cases hAgree with
  | error error => exact ⟨rfl, fun _ _ => .rfl⟩
  | ok related =>
    cases related with
    | settled answer => exact ⟨rfl, fun _ _ => .rfl⟩
    | @pending change otherChange echoes =>
      have hFits : ¬ (mutation.Creates → marked) →
          ∀ size, store.backend.write change.batch ≠ .error (.oversized size) := by
        intro hNot size hWrite
        obtain ⟨hCreates, hApart⟩ := Classical.not_imp.mp hNot
        exact hRoom hCreates hApart size (by rw [Store.settle, hWrite])
      have hWrites := Backend.agree_write (hSame.backend.permit .write) hSame.isLogged echoes.batch
        hFits
      rw [Store.settle, Store.settle]
      generalize store.backend.write change.batch = written,
        other.backend.write otherChange.batch = otherWritten at hWrites
      cases hWrites with
      | error fault => exact ⟨rfl, fun _ _ => .rfl⟩
      | ok =>
        exact ⟨congrArg Except.ok echoes.answer.symm, fun slot value => echoes.batch.puts_iff⟩

end CannotTell

end Mutation

namespace Store

theorem le_raiseWatermark (store : Store) (assigned : Option EntityId) :
    store.watermark ≤ (store.raiseWatermark assigned).watermark := by
  cases assigned with
  | none => exact UInt64.le_refl _
  | some id =>
    show store.watermark ≤ if store.watermark ≤ id.word then id.word else store.watermark
    split
    next hLe => exact hLe
    next => exact UInt64.le_refl _

/-- Two mutations that have nothing to do with each other: their paths are apart, and the ids that they
ask for are different ones and of nobody alive. -/
structure AreIndependent (store : Store) (first second : Mutation) : Prop where
  apart : AreApart first.paths second.paths
  carries : first.CarriesId
  otherCarries : second.CarriesId
  distinct : ∀ id, first.Requests id → ¬ second.Requests id
  free : ∀ id, first.Requests id ∨ second.Requests id →
    ∀ slot entity, store.backend.rows.Holds slot entity → entity.id ≠ id

theorem AreIndependent.symm {store : Store} {first second : Mutation}
    (hIndependent : store.AreIndependent first second) : store.AreIndependent second first :=
  ⟨hIndependent.apart.symm, hIndependent.otherCarries, hIndependent.carries,
    fun id hSecond hFirst => hIndependent.distinct id hFirst hSecond,
    fun id hRequests => hIndependent.free id hRequests.symm⟩

section
variable {store : Store} {mutation : Mutation} (hReached : Reachable InTime store)
  (hValid : mutation.name.IsValid)
include hReached

theorem Reachable.becomes (mutation : Mutation) :
    store.Becomes (store.after mutation) (store.written mutation) :=
  (mutation_settles hReached.isSteady.grants mutation).2

include hValid

theorem Reachable.mutated (hAfter : (store.after mutation).InTime) :
    Reachable InTime (store.after mutation) := by
  have hRan : mutation.perform.runDuring [] store =
      (store.answer mutation, store.after mutation) := by
    have hFaults := (hReached.becomes mutation).faults.trans hReached.isSteady.faults
    have hKept : (store.after mutation).withFaults [] = store.after mutation := by
      rw [withFaults, Backend.withFaults, ← hFaults]
    rw [runDuring, withFaults_nil hReached.isSteady]
    exact Prod.ext rfl hKept
  exact hReached.call (.mutate mutation) [] hValid hRan hAfter

theorem Reachable.isPlanned_written (hAfter : (store.after mutation).InTime) :
    (store.written mutation).IsPlanned store.backend.rows mutation.paths := by
  rcases written_cases store mutation with hNone | ⟨middle, hRun, hStamp⟩
  · rw [hNone]
    exact Pending.isPlanned_nothing _ _
  · refine Mutation.prepare_eq_pending hValid hReached.isSound hReached.allowed hRun ?_
    rw [← hStamp]
    exact hAfter

theorem Reachable.requests_of_written (hCarries : mutation.CarriesId) :
    ∀ id ∈ (store.written mutation).assigned, mutation.Requests id := by
  rcases written_cases store mutation with hNone | ⟨middle, hRun, _⟩
  · rw [hNone]
    exact nofun
  · exact Mutation.requests_of_assigned hValid hCarries hReached.isSound hRun

end

section
variable {store : Store} {first second : Mutation} (hReached : Reachable InTime store)
  (hValid : first.name.IsValid) (hIndependent : store.AreIndependent first second)
include hReached hValid hIndependent

/-- What is near the paths of the second mutation stays as it is when the first one writes. -/
theorem Reachable.looksAs (hAfter : (store.after first).InTime) :
    store.backend.LooksAs second.paths second.Requests (store.after first).backend := by
  have hBecomes := hReached.becomes first
  have hPlanned := hReached.isPlanned_written hValid hAfter
  have hSound := hReached.isSound
  refine ⟨hBecomes.faults, hBecomes.isClosed, hSound, (hReached.mutated hValid hAfter).isSound,
    fun slot hNear => ?_, fun id hRequests => ?_⟩
  · rw [hBecomes.rows]
    exact hPlanned.newest?_apart hSound.shaped hIndependent.apart.symm hNear
  · have hFree := hSound.get?_id_eq_none_iff.mpr (hIndependent.free id (.inr hRequests))
    have hOther : id ∉ (store.written first).assigned := fun hAssigned =>
      hIndependent.distinct id
        (hReached.requests_of_written hValid hIndependent.carries id hAssigned) hRequests
    rw [hBecomes.rows, hFree]
    exact hPlanned.get?_id_free hSound hOther hFree

/-- The second mutation cannot tell whether the first one was there. -/
theorem Reachable.cannotTell (hAfter : (store.after first).InTime) :
    second.CannotTell (¬ first.Creates) store (store.after first) := by
  have hBecomes := hReached.becomes first
  have hLooks := (hReached.looksAs hValid hIndependent hAfter).mono fun _ hLooksUp =>
    Mutation.requests_of_looksUp hIndependent.otherCarries hLooksUp
  refine ⟨hLooks, hBecomes.isLogged, hBecomes.settings, hBecomes.clock, hBecomes.closed, ?_⟩
  rw [hBecomes.watermark]
  cases hAssigned : (store.written first).assigned with
  | none => exact .inl rfl
  | some id =>
    have hRequests := hReached.requests_of_written hValid hIndependent.carries id hAssigned
    exact .inr ⟨not_not_intro (Mutation.creates_of_requests hRequests),
      le_raiseWatermark store (some id)⟩

end

/-- **Independent mutations commute.**  Two mutations whose paths are apart and that ask for different
ids of nobody alive answer the same in either order, and the same is read afterwards. If both create
entities in a log, neither may be too large for it: only the first one of them may have to write the
greatest id. -/
theorem Reachable.commutes {store : Store} {first second : Mutation}
    (hReached : Reachable InTime store) (hFirst : first.name.IsValid) (hSecond : second.name.IsValid)
    (hIndependent : store.AreIndependent first second)
    (hInTime : (store.after first).InTime ∧ (store.after second).InTime)
    (hInTimeAfter : ((store.after first).after second).InTime ∧
      ((store.after second).after first).InTime)
    (hRoom : first.Creates → second.Creates → ∀ size,
      store.answer first ≠ .error (.backend (.oversized size)) ∧
      store.answer second ≠ .error (.backend (.oversized size))) :
    (store.after second).answer first = store.answer first ∧
    (store.after first).answer second = store.answer second ∧
    ((store.after first).after second).ReadsAs ((store.after second).after first) ∧
    ∀ scope, ((store.after second).after first).listChildren scope =
      ((store.after first).after second).listChildren scope := by
  have hThere := hReached.mutated hFirst hInTime.1
  have hElsewhere := hReached.mutated hSecond hInTime.2
  have hSteady := hReached.isSteady
  obtain ⟨hFirstAnswer, hFirstPuts⟩ :=
    (hReached.cannotTell hSecond hIndependent.symm hInTime.2).echoes hFirst hIndependent.carries
      hSteady hElsewhere.isSteady fun hCreates hBoth size =>
        (hRoom hCreates (not_not.mp hBoth) size).1
  obtain ⟨hSecondAnswer, hSecondPuts⟩ :=
    (hReached.cannotTell hFirst hIndependent hInTime.1).echoes hSecond hIndependent.otherCarries
      hSteady hThere.isSteady fun hCreates hBoth size =>
        (hRoom (not_not.mp hBoth) hCreates size).2
  have hCross : Pending.Cross store.backend.rows first.paths second.paths (store.written first)
      ((store.after second).written first) (store.written second)
      ((store.after first).written second) := by
    refine ⟨hReached.isSound, hIndependent.apart, hReached.isPlanned_written hFirst hInTime.1, ?_,
      hReached.isPlanned_written hSecond hInTime.2, ?_, hFirstPuts, hSecondPuts⟩
    · rw [← (hReached.becomes second).rows]
      exact hElsewhere.isPlanned_written hFirst hInTimeAfter.2
    · rw [← (hReached.becomes first).rows]
      exact hThere.isPlanned_written hSecond hInTimeAfter.1
  have hReads : ((store.after first).after second).ReadsAs ((store.after second).after first) := by
    have hClosed : ((store.after second).after first).closed =
        ((store.after first).after second).closed := by
      rw [(hElsewhere.becomes first).closed, (hReached.becomes second).closed,
        (hThere.becomes second).closed, (hReached.becomes first).closed]
    have hSame := answersLike_of_holds (hThere.mutated hSecond hInTimeAfter.1)
      (hElsewhere.mutated hFirst hInTimeAfter.2) hClosed fun slot entity => by
        rw [(hElsewhere.becomes first).rows, (hReached.becomes second).rows,
          (hThere.becomes second).rows, (hReached.becomes first).rows]
        exact hCross.holds_iff.symm
    exact ⟨hSame.loads, hSame.lists, hSame.found⟩
  exact ⟨hFirstAnswer, hSecondAnswer, hReads, hReads.listChildren⟩

end Store

/-! ### One catalog is renamed and another one made -/

namespace Sample

def pier : Name := ⟨⟨["lake"]⟩, "pier"⟩

/-- A catalog that brings its id along. -/
def makePier : Mutation :=
  .create pier ((Draft.of (.catalog .relational "pier")).withId (.ofNat 77))

/-- The catalog with the vault gets another name. -/
def moveHive : Mutation := .alter .catalog hive "me" [.rename "bee"]

theorem requests_makePier {id : EntityId} (hRequests : makePier.Requests id) : id = .ofNat 77 := by
  have hAsked : Store.requestedId ((Draft.of (.catalog .relational "pier")).withId (.ofNat 77)) =
      .ok (some (.ofNat 77)) := by decide +kernel
  exact Option.some.inj (Except.ok.inj (hRequests.symm.trans hAsked))

theorem areIndependent_vaulted : vaulted.AreIndependent moveHive makePier where
  apart := by
    unfold AreApart
    decide +kernel
  carries := trivial
  otherCarries := by decide +kernel
  distinct _ hFirst := hFirst.elim
  free id hRequests := by
    rw [requests_makePier (hRequests.resolve_left fun hMoves => hMoves)]
    exact reachable_vaulted.isSound.get?_id_eq_none_iff.mp (by decide +kernel)

/-- Both catalogs are there in the end, in either order. -/
theorem commutes_vaulted :
    (vaulted.answer moveHive).isOk = true ∧ (vaulted.answer makePier).isOk = true ∧
    (vaulted.after makePier).answer moveHive = vaulted.answer moveHive ∧
    (vaulted.after moveHive).answer makePier = vaulted.answer makePier ∧
    ((vaulted.after moveHive).after makePier).ReadsAs ((vaulted.after makePier).after moveHive) := by
  obtain ⟨hMoved, hMade, hReads, _⟩ := reachable_vaulted.commutes (by decide +kernel)
    (by decide +kernel) areIndependent_vaulted (by decide +kernel) (by decide +kernel) nofun
  exact ⟨by decide +kernel, by decide +kernel, hMoved, hMade, hReads⟩

end Sample

end VersionedCatalog
