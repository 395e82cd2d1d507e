import VersionedCatalog.Proofs.Altering
import VersionedCatalog.Proofs.Backends
import VersionedCatalog.Proofs.Creating
import VersionedCatalog.Proofs.Dropping
import VersionedCatalog.Proofs.Sweeping

/-! # Commands

The calls that write, each of which is prepared and then committed. Whatever comes of a command, the
rows of the backend stay as they are or one batch is written, and no locks are held afterwards
(`Command.completes`). The batch is what a mutation does or a pass removes
(`Command.Completes.changes`), and sound rows stay sound in either case
(`Command.Changes.isSound`).
-/

namespace VersionedCatalog

open Storage (Rows Backend)
open VersionedCatalog.Action

/-- A call that changes entities. -/
inductive Mutation
  | create (name : Name) (draft : Draft)
  | alter (type : EntityType) (name : Name) (modifier : String) (changes : List Change)
  | drop (type : EntityType) (name : Name) (cascade : Bool)
  deriving DecidableEq

inductive Command
  | mutate (mutation : Mutation)
  | collect
  | sweep (now : Millis)
  deriving DecidableEq

/-- What a command answers. -/
inductive Reply
  | entity (entity : Entity)
  | dropped (found : Bool)
  | swept (sweep : Sweep)
  deriving DecidableEq

def Pending.map {α β : Type} (f : α → β) (change : Pending α) : Pending β :=
  ⟨change.batch, change.ticket, change.assigned, change.upkeep, f change.answer⟩

def Prepared.map {α β : Type} (f : α → β) : Prepared α → Prepared β
  | .settled answer => .settled (f answer)
  | .pending change => .pending (change.map f)

namespace Mutation

/-- The name that a mutation is about. -/
def name : Mutation → Name
  | create name _ => name
  | alter _ name _ _ => name
  | drop _ name _ => name

/-- The paths that a mutation locks. -/
def paths : Mutation → List Path
  | create name _ => [name.path]
  | alter _ name _ changes => Store.lockedPaths name (Store.targetName name changes)
  | drop _ name _ => [name.path]

def prepare : Mutation → Action (Prepared Reply)
  | create name draft => do return (← Store.prepareCreate name draft).map .entity
  | alter type name modifier changes => do
    return (← Store.prepareAlter type name modifier changes).map .entity
  | drop type name cascade => do return (← Store.prepareDrop type name cascade).map .dropped

def perform : Mutation → Action Reply
  | create name draft => do return .entity (← Store.create name draft)
  | alter type name modifier changes => do
    return .entity (← Store.alter type name modifier changes)
  | drop type name cascade => do return .dropped (← Store.drop type name cascade)

end Mutation

namespace Command

/-- Names in calls are such as their constructors make: every part was checked. A name that was
decoded from outside without these checks is none of them. -/
def IsValid : Command → Prop
  | mutate mutation => mutation.name.IsValid
  | collect => True
  | sweep _ => True

instance (command : Command) : Decidable command.IsValid :=
  match command with
  | mutate mutation => inferInstanceAs (Decidable mutation.name.IsValid)
  | collect => .isTrue trivial
  | sweep _ => .isTrue trivial

def prepare : Command → Action (Prepared Reply)
  | mutate mutation => mutation.prepare
  | collect => do return (← Store.prepareCollect).map .swept
  | sweep now => do return (← Store.prepareSweep now).map .swept

def perform : Command → Action Reply
  | mutate mutation => mutation.perform
  | collect => do return .swept (← Store.collect)
  | sweep now => do return .swept (← Store.sweepAt now)

end Command

/-! ### Preparing and committing, with other answers -/

section
variable {α β : Type}

theorem Action.run_bind_pure (x : Action α) (f : α → β) (store : Store) :
    (do return f (← x) : Action β).run store =
      ((x.run store).1.map f, (x.run store).2) := by
  rw [run_bind]
  generalize x.run store = outcome
  obtain ⟨found, after⟩ := outcome
  cases found <;> rfl

theorem Store.run_commit_map (change : Pending α) (f : α → β) (store : Store) :
    (commit (change.map f)).run store =
      (((commit change).run store).1.map f, ((commit change).run store).2) := by
  rw [run_commit, run_commit]
  simp only [Pending.map]
  split <;> rfl

/-- It makes no difference whether the answer is changed before or after committing. -/
theorem Store.run_complete_map (prepare : Action (Prepared α)) (f : α → β) (store : Store) :
    (complete (do return (← prepare).map f)).run store =
      (do return f (← complete prepare) : Action β).run store := by
  rw [run_complete, run_bind_pure, run_bind_pure, run_complete]
  generalize prepare.run store = outcome
  obtain ⟨found, after⟩ := outcome
  cases found with
  | error error => rfl
  | ok prepared =>
    cases prepared with
    | settled answer => rfl
    | pending change => exact run_commit_map change f after

theorem Store.Prepares.map {paths : List Path} {x : Action (Prepared α)} (hPrepares : Prepares paths x)
    (f : α → β) : Prepares paths (do return (← x).map f) := by
  intro store after outcome hNumbered hRun
  rw [run_bind_pure] at hRun
  generalize hRan : x.run store = ran at hRun
  obtain ⟨found, middle⟩ := ran
  obtain ⟨hStays, hStill, hLocks⟩ := hPrepares store middle found hNumbered hRan
  cases hRun
  refine ⟨hStays, hStill, ?_⟩
  cases found with
  | error error => exact hLocks
  | ok prepared => cases prepared <;> exact hLocks

end

namespace Mutation

theorem run_perform (mutation : Mutation) (store : Store) :
    mutation.perform.run store = (Store.complete mutation.prepare).run store := by
  cases mutation <;> exact (Store.run_complete_map _ _ _).symm

/-- Every mutation takes the locks of its paths. -/
theorem prepares (mutation : Mutation) : Store.Prepares mutation.paths mutation.prepare := by
  cases mutation with
  | create name draft => exact (Store.prepares_create name draft).map _
  | alter type name modifier changes =>
    exact (Store.prepares_alter type name modifier changes).map _
  | drop type name cascade => exact (Store.prepares_drop type name cascade).map _

theorem pending_of_map {α : Type} {x : Action (Prepared α)} {f : α → Reply} {store after : Store}
    {change : Pending Reply}
    (hRun : (do return (← x).map f : Action (Prepared Reply)).run store =
      (.ok (.pending change), after)) :
    ∃ found, x.run store = (.ok (.pending found), after) ∧ change = found.map f := by
  obtain ⟨prepared, middle, hX, hLast⟩ := bind_run_eq_ok hRun
  cases prepared with
  | settled answer => cases hLast
  | pending found => cases hLast; exact ⟨found, hX, rfl⟩

theorem settled_of_map {α : Type} {x : Action (Prepared α)} {f : α → Reply} {store after : Store}
    {answer : Reply}
    (hRun : (do return (← x).map f : Action (Prepared Reply)).run store =
      (.ok (.settled answer), after)) :
    ∃ found, x.run store = (.ok (.settled found), after) ∧ answer = f found := by
  obtain ⟨prepared, middle, hX, hLast⟩ := bind_run_eq_ok hRun
  cases prepared with
  | settled found => cases hLast; exact ⟨found, hX, rfl⟩
  | pending change => cases hLast

end Mutation

/-! ### What mutations do -/

/-- What a mutation does: its turns, the stamp that theirs has to follow, and an id that is given
out. -/
structure Deed where
  turns : List Turn
  floor : Option Stamp
  assigned : Option EntityId

namespace Mutation

/-- What a mutation may do to what some rows hold. -/
inductive Does (rows : Rows) : Mutation → Deed → Prop
  | create {draft : Draft} {slot : Slot} {entity : Entity} {payload : Bytes}
      (appears : Appears rows draft slot entity payload) :
      Does rows (.create slot.name draft)
        ⟨[.appear slot entity payload], (rows.newest? slot).map (·.stamp), some entity.id⟩
  | rewrite {resident : Resident} {entity : Entity} {payload : Bytes} {modifier : String}
      {changes : List Change} (rewrites : Rewrites rows resident entity payload)
      (same : Store.targetName resident.slot.name changes = resident.slot.name) :
      Does rows (.alter resident.slot.type resident.slot.name modifier changes)
        ⟨[.stay resident.slot resident.entity entity payload], some resident.version.stamp, none⟩
  | relocate {source target : Slot} {payload : Entity → Bytes} {moves : List Move}
      {modifier : String} {changes : List Change}
      (relocation : IsRelocation rows source target payload moves)
      (goal : target.name = Store.targetName source.name changes) :
      Does rows (.alter source.type source.name modifier changes)
        ⟨Turn.moveAll payload moves, some (Stamp.latestOf (moves.map (·.floor))), none⟩
  | drop {root : Slot} {residents : List Resident} {cascade : Bool}
      (subtree : IsSubtree rows root residents) :
      Does rows (.drop root.type root.name cascade)
        ⟨Turn.vanishAll residents, some (Stamp.latestOf (residents.map (·.version.stamp))), none⟩

/-- A batch that a store prepares is that of a deed. -/
structure Carries (store : Store) (deed : Deed) (change : Pending Reply) (after : Store) : Prop where
  batch : change.batch =
    Turn.batch after.lastStamp deed.turns (store.raise? change.assigned)
  assigned : change.assigned = deed.assigned
  issues : store.Issues deed.floor after.lastStamp

/-- Every mutation that ends with a batch does something. -/
theorem prepare_does {allowed : Stamp → Prop} {known : EntityId → Prop} {mutation : Mutation}
    (hValid : mutation.name.IsValid) {store after : Store}
    (hFormed : store.backend.rows.IsFormed allowed known) {change : Pending Reply}
    (hRun : mutation.prepare.run store = (.ok (.pending change), after)) :
    ∃ deed, mutation.Does store.backend.rows deed ∧ Carries store deed change after := by
  cases mutation with
  | create name draft =>
    obtain ⟨found, hFound, rfl⟩ := pending_of_map hRun
    obtain ⟨slot, entity, payload, rfl, hAppears, _, hAssigned, hBatch, hIssues⟩ :=
      Store.prepareCreate_appears hValid hFound
    exact ⟨_, .create hAppears, hBatch, hAssigned, hIssues⟩
  | alter type name modifier changes =>
    obtain ⟨found, hFound, rfl⟩ := pending_of_map hRun
    by_cases hSame : Store.targetName name changes = name
    · obtain ⟨resident, entity, payload, rfl, rfl, hRewrites, hAssigned, hBatch, hIssues⟩ :=
        Store.prepareAlter_stays hFormed hFound hSame
      exact ⟨_, .rewrite hRewrites hSame, by rw [Pending.map, hAssigned]; exact hBatch, hAssigned,
        hIssues⟩
    · obtain ⟨source, target, payload, moves, rfl, rfl, hGoal, hRelocation, hAssigned, hBatch,
        hIssues, _⟩ := Store.prepareAlter_moves hFormed hFound hSame
      exact ⟨_, .relocate hRelocation hGoal, by rw [Pending.map, hAssigned]; exact hBatch, hAssigned,
        hIssues⟩
  | drop type name cascade =>
    obtain ⟨found, hFound, rfl⟩ := pending_of_map hRun
    obtain ⟨root, residents, rfl, rfl, hSubtree, hAssigned, hBatch, hIssues⟩ :=
      Store.prepareDrop_vanishes hValid hFormed hFound
    exact ⟨_, .drop hSubtree, by rw [Pending.map, hAssigned]; exact hBatch, hAssigned, hIssues⟩

section
variable {rows : Rows} {mutation : Mutation} {deed : Deed} (hDoes : mutation.Does rows deed)
include hDoes

/-- What a mutation does is ready in sound rows, unless the stamps have come to an end. -/
theorem Does.areReady (hSound : rows.IsSound) {limit now : Millis} {lastStamp stamp : Stamp}
    (hNext : Stamp.next limit now lastStamp deed.floor = .ok stamp) (hLast : lastStamp ≠ .last)
    (hNotLast : stamp ≠ .last) : Turn.AreReady rows stamp deed.turns := by
  have hShaped := hSound.shaped
  cases hDoes with
  | @create draft slot entity payload appears =>
    refine appears.areReady hSound hNotLast fun version hNewest => ?_
    rw [hNewest] at hNext
    refine Stamp.lt_iff_rank.mpr ((Stamp.rank_lt_next hNext hLast ?_).2 _ rfl)
    rintro _ ⟨rfl⟩
    exact Rows.allowed_of_newest? hShaped hNewest
  | @rewrite resident entity payload modifier changes rewrites same =>
    refine rewrites.areReady hSound hNotLast ?_
    refine Stamp.lt_iff_rank.mpr ((Stamp.rank_lt_next hNext hLast ?_).2 _ rfl)
    rintro _ ⟨rfl⟩
    exact Rows.allowed_of_newest? hShaped rewrites.lives.newest
  | @relocate source target payload moves modifier changes relocation goal =>
    have hFloors : ∀ floor ∈ moves.map (·.floor), floor ≠ .last :=
      List.forall_mem_map.mpr (relocation.floor_ne_last hShaped)
    refine Turn.areReady_moveAll hSound relocation hNotLast fun move hMove => ?_
    exact Stamp.lt_of_next_latestOf hNext hLast hFloors _ (List.mem_map.mpr ⟨move, hMove, rfl⟩)
  | @drop root residents cascade subtree =>
    have hStamps : ∀ found ∈ residents.map (·.version.stamp), found ≠ .last := by
      intro found hFound
      obtain ⟨resident, hMem, rfl⟩ := List.mem_map.mp hFound
      exact Rows.allowed_of_newest? hShaped (subtree.lives resident hMem).newest
    refine Turn.areReady_vanishAll hSound subtree hNotLast fun resident hMem => ?_
    exact Stamp.lt_of_next_latestOf hNext hLast hStamps _ (List.mem_map.mpr ⟨resident, hMem, rfl⟩)

/-- What a mutation writes over formed rows can be read. -/
theorem Does.isReadable {allowed : Stamp → Prop} {known : EntityId → Prop}
    (hFormed : rows.IsFormed allowed known) (hIds : ∀ id ∈ deed.assigned, known id) :
    ∀ turn ∈ deed.turns, turn.IsReadable known := by
  have hKnown : ∀ {resident : Resident}, resident.Lives rows → known resident.entity.id :=
    fun hLives => (hFormed.name_of_holds hLives.holds).2.2
  intro turn hTurn
  cases hDoes with
  | create appears =>
    cases List.mem_singleton.mp hTurn
    exact ⟨appears.writing, hIds _ rfl⟩
  | rewrite rewrites same =>
    cases List.mem_singleton.mp hTurn
    exact ⟨rewrites.writing, rewrites.id ▸ hKnown rewrites.lives⟩
  | relocate relocation goal =>
    obtain ⟨move, hMove, rfl⟩ := List.mem_map.mp hTurn
    have hLeads := relocation.leads move hMove
    have hDecode := relocation.decoded move hMove
    rw [hLeads.kind] at hDecode
    exact ⟨⟨hDecode, hLeads.name, hLeads.tagged⟩,
      hLeads.id ▸ hKnown (relocation.subtree.lives _ (List.mem_map.mpr ⟨move, hMove, rfl⟩))⟩
  | drop subtree =>
    obtain ⟨resident, _, rfl⟩ := List.mem_map.mp hTurn
    trivial

theorem Does.isFormed {allowed : Stamp → Prop} {known : EntityId → Prop}
    (hFormed : rows.IsFormed allowed known) (hIds : ∀ id ∈ deed.assigned, known id)
    {stamp : Stamp} (hStamp : allowed stamp) (raise : Option Bytes) :
    (rows.apply (Turn.batch stamp deed.turns raise)).IsFormed allowed known :=
  Turn.isFormed_apply hFormed hStamp (hDoes.isReadable hFormed hIds) raise

/-- What a mutation does lies behind the paths that it locks. -/
theorem Does.areBehind : Turn.AreBehind mutation.paths deed.turns := by
  cases hDoes with
  | create appears => exact Turn.areBehind_singleton rfl (List.mem_singleton.mpr rfl)
  | rewrite rewrites same =>
    refine Turn.areBehind_singleton rfl ?_
    rw [paths, Store.lockedPaths, if_pos same]
    exact List.mem_singleton.mpr rfl
  | @relocate source target payload moves modifier changes relocation goal =>
    have hMoved : Store.targetName source.name changes ≠ source.name := fun hSame =>
      relocation.apart (Slot.eq_of_parts relocation.type (goal.trans hSame))
    rw [paths, Store.lockedPaths, if_neg hMoved, ← goal]
    exact Turn.areBehind_moveAll relocation.leads payload
  | drop subtree => exact Turn.areBehind_vanishAll subtree

/-- An entity that appears has the id that is given out. -/
theorem Does.given {slot : Slot} {entity : Entity} {payload : Bytes}
    (hMem : .appear slot entity payload ∈ deed.turns) : deed.assigned = some entity.id := by
  cases hDoes with
  | create appears => cases List.mem_singleton.mp hMem; rfl
  | rewrite rewrites same => cases List.mem_singleton.mp hMem
  | relocate relocation goal =>
    obtain ⟨move, _, hEq⟩ := List.mem_map.mp hMem
    cases hEq
  | drop subtree =>
    obtain ⟨resident, _, hEq⟩ := List.mem_map.mp hMem
    cases hEq

theorem Does.free (hSound : rows.IsSound) : ∀ id ∈ deed.assigned, rows.get? (Key.id id) = none := by
  intro id hId
  cases hDoes with
  | create appears => cases hId; exact appears.get?_id hSound
  | _ => cases hId

end

/-- Every mutation that ends with a batch has planned it. -/
theorem prepare_eq_pending {mutation : Mutation} (hValid : mutation.name.IsValid)
    {store after : Store} (hSound : store.backend.rows.IsSound) (hBefore : store.lastStamp ≠ .last)
    {change : Pending Reply} (hRun : mutation.prepare.run store = (.ok (.pending change), after))
    (hAfter : after.lastStamp ≠ .last) :
    change.IsPlanned store.backend.rows mutation.paths := by
  obtain ⟨deed, hDoes, hCarries⟩ := prepare_does hValid hSound.shaped hRun
  refine ⟨_, deed.turns, _, hCarries.batch, hDoes.areReady hSound hCarries.issues hBefore hAfter,
    hDoes.areBehind, fun slot entity payload hMem => ?_, ?_⟩
  · exact hCarries.assigned.trans (hDoes.given hMem)
  · rw [hCarries.assigned]
    exact hDoes.free hSound

end Mutation

namespace Store

/-- Two states between which no batch was written; in the later one no locks are held. -/
structure Leaves (before after : Store) : Prop where
  ids : after.ids.Follows before.ids
  watermark : after.watermark = before.watermark
  backend : Backend.KeepsRows before.backend after.backend
  isClosed : after.backend.isClosed = before.backend.isClosed
  closed : after.closed = before.closed
  grants : after.locks.grants = []

theorem Stays.leaves {before after : Store} (hStays : Stays before after)
    (hGrants : after.locks.grants = []) : Leaves before after :=
  ⟨hStays.ids, hStays.watermark, hStays.backend ▸ .refl _, by rw [hStays.backend], hStays.closed,
    hGrants⟩

theorem Leaves.refl {store : Store} (hGrants : store.locks.grants = []) : Leaves store store :=
  ⟨.refl store.ids, rfl, .refl _, rfl, rfl, hGrants⟩

theorem keepsRows_tidy (store : Store) :
    Backend.KeepsRows store.backend store.tidy.backend ∧
      store.tidy.backend.isClosed = store.backend.isClosed := by
  unfold tidy
  cases hMaintain : store.backend.maintain with
  | error fault => exact ⟨.refl _, rfl⟩
  | ok backend => exact Backend.maintain_eq_ok hMaintain

theorem leaves_tidy {store : Store} (hGrants : store.locks.grants = []) :
    Leaves store store.tidy :=
  ⟨.refl store.ids, rfl, (keepsRows_tidy store).1, (keepsRows_tidy store).2, rfl, hGrants⟩

/-- Whatever comes of committing, the locks are given back. -/
structure Returns (before after : Store) (ticket : Option Nat) : Prop where
  ids : after.ids = before.ids
  grants : after.locks.grants = (before.releaseTicket ticket).locks.grants
  nextTicket : after.locks.nextTicket = before.locks.nextTicket
  lastStamp : after.lastStamp = before.lastStamp
  closed : after.closed = before.closed

/-- What comes of committing: the write fails or goes through as a whole. -/
inductive Commits {α : Type} (change : Pending α) (before after : Store) :
    Except StoreError α → Prop
  | refused (fault : Storage.Fault) (backend : after.backend = before.backend)
      (watermark : after.watermark = before.watermark) :
      Commits change before after (.error (.backend fault))
  | written (backend : Backend) (write : before.backend.write change.batch = .ok backend)
      (keeps : backend.KeepsRows after.backend) (isOpen : after.backend.isClosed = false)
      (watermark : after.watermark = (before.raiseWatermark change.assigned).watermark) :
      Commits change before after (.ok change.answer)

theorem returns_releaseTicket (store : Store) (ticket : Option Nat) :
    Returns store (store.releaseTicket ticket) ticket := by
  cases ticket <;> exact ⟨rfl, rfl, rfl, rfl, rfl⟩

theorem commit_cases {α : Type} {change : Pending α} {before after : Store}
    {outcome : Except StoreError α} (hRun : (commit change).run before = (outcome, after)) :
    Returns before after change.ticket ∧ Commits change before after outcome := by
  rw [run_commit] at hRun
  cases hWrite : before.backend.write change.batch with
  | error fault =>
    rw [hWrite] at hRun
    cases hRun
    refine ⟨returns_releaseTicket _ _, .refused fault ?_ ?_⟩ <;> cases change.ticket <;> rfl
  | ok backend =>
    rw [hWrite] at hRun
    obtain ⟨_, _, hOpen, _⟩ := Backend.write_eq_ok hWrite
    simp only at hRun
    generalize hWritten : (({ before with backend := backend } : Store).raiseWatermark
      change.assigned).releaseTicket change.ticket = written at hRun
    have hBackend : written.backend = backend := by
      rw [← hWritten]
      cases change.assigned <;> cases change.ticket <;> rfl
    have hReturns : Returns before written change.ticket := by
      rw [← hWritten]
      cases change.assigned <;> cases change.ticket <;> exact ⟨rfl, rfl, rfl, rfl, rfl⟩
    have hWatermark : written.watermark = (before.raiseWatermark change.assigned).watermark := by
      rw [← hWritten]
      cases change.assigned <;> cases change.ticket <;> rfl
    split at hRun
    next =>
      cases hRun
      obtain ⟨hKeeps, hSame⟩ := keepsRows_tidy written
      rw [hBackend] at hKeeps hSame
      exact ⟨⟨hReturns.ids, hReturns.grants, hReturns.nextTicket, hReturns.lastStamp,
        hReturns.closed⟩, .written backend hWrite hKeeps (hSame.trans hOpen) hWatermark⟩
    next =>
      cases hRun
      exact ⟨hReturns, .written backend hWrite (hBackend ▸ .refl _) (hBackend ▸ hOpen) hWatermark⟩

/-- What is pending gives back all locks that are held. -/
structure HasPrepared (before after : Store) (ticket : Option Nat) : Prop where
  ids : after.ids.Follows before.ids
  watermark : after.watermark = before.watermark
  backend : after.backend = before.backend
  closed : after.closed = before.closed
  grants : (after.releaseTicket ticket).locks.grants = []

theorem run_prepareSweep (now : Millis) (store : Store) : (prepareSweep now).run store =
    match Sweep.ofBackend (store.policyAt now) store.backend with
    | .error error => (.error error, store)
    | .ok sweep =>
      if sweep.expired.isEmpty then (.ok (.settled sweep), store.tidy)
      else (.ok (.pending ⟨sweep.batch, none, none, true, sweep⟩), store) := by
  rw [prepareSweep, run_bind, run_inspect]
  cases Sweep.ofBackend (store.policyAt now) store.backend with
  | error error => rfl
  | ok sweep =>
    simp only
    split <;> rfl

theorem run_prepareCollect (store : Store) : prepareCollect.run store =
    match store.ensureOpen with
    | .error error => (.error error, store)
    | .ok () => (prepareSweep store.clock).run store := by
  rw [prepareCollect, run_bind, run_inspect]
  cases store.ensureOpen with
  | error error => rfl
  | ok _ => simp only [run_bind, run_get]

end Store

namespace Command

open Store (Leaves HasPrepared)

theorem run_perform (command : Command) (store : Store) :
    command.perform.run store = (Store.complete command.prepare).run store := by
  cases command with
  | mutate mutation => exact mutation.run_perform store
  | collect => exact (Store.run_complete_map _ _ _).symm
  | sweep now => exact (Store.run_complete_map _ _ _).symm

/-- What preparing leaves, by what came of it. -/
def Prepares (store : Store) : Except StoreError (Prepared Reply) → Store → Prop
  | .ok (.pending change), after => HasPrepared store after change.ticket
  | .ok (.settled _), after => Leaves store after
  | .error _, after => Leaves store after

theorem prepares_sweep (now : Millis) {store : Store} (hGrants : store.locks.grants = []) :
    Prepares store (((Store.prepareSweep now).run store).1.map (Prepared.map .swept))
      ((Store.prepareSweep now).run store).2 := by
  have hSame : Leaves store store := .refl hGrants
  rw [Store.run_prepareSweep]
  cases Sweep.ofBackend (store.policyAt now) store.backend with
  | error error => exact hSame
  | ok sweep =>
    simp only
    split
    next => exact Store.leaves_tidy hGrants
    next => exact ⟨.refl store.ids, rfl, rfl, rfl, hGrants⟩

theorem prepares (command : Command) {store : Store} (hGrants : store.locks.grants = []) :
    Prepares store (command.prepare.run store).1 (command.prepare.run store).2 := by
  have hSame : Leaves store store := .refl hGrants
  cases command with
  | mutate mutation =>
    have hNumbered := Locks.areNumbered_of_idle hGrants
    generalize hRan : (mutate mutation).prepare.run store = ran
    obtain ⟨outcome, after⟩ := ran
    obtain ⟨hStays, _, hLocks⟩ := mutation.prepares store after outcome hNumbered hRan
    cases outcome with
    | error error => exact hStays.leaves (hLocks.trans hGrants)
    | ok prepared =>
      cases prepared with
      | settled answer => exact hStays.leaves (hLocks.trans hGrants)
      | pending change =>
        obtain ⟨ticket, hTicket, hLocked⟩ := hLocks
        refine ⟨hStays.ids, hStays.watermark, hStays.backend, hStays.closed, ?_⟩
        rw [hTicket]
        exact (Locks.grants_release_cons hLocked.grants hLocked.fresh).trans hGrants
  | collect =>
    rw [prepare, run_bind_pure, Store.run_prepareCollect]
    cases store.ensureOpen with
    | error error => exact hSame
    | ok _ => exact prepares_sweep store.clock hGrants
  | sweep now =>
    rw [prepare, run_bind_pure]
    exact prepares_sweep now hGrants

/-- What a command comes to: a failure, an answer without a batch, or one batch. -/
inductive Completes (command : Command) (store : Store) : Except StoreError Reply → Store → Prop
  | failed {error : StoreError} {after : Store} (leaves : Leaves store after) :
      Completes command store (.error error) after
  | settled {answer : Reply} {after : Store}
      (prepared : command.prepare.run store = (.ok (.settled answer), after))
      (leaves : Leaves store after) : Completes command store (.ok answer) after
  | written {change : Pending Reply} {middle after : Store} {backend : Backend}
      (prepared : command.prepare.run store = (.ok (.pending change), middle))
      (write : store.backend.write change.batch = .ok backend)
      (keeps : Backend.KeepsRows backend after.backend) (isOpen : after.backend.isClosed = false)
      (closed : after.closed = store.closed) (grants : after.locks.grants = [])
      (stamp : after.lastStamp = middle.lastStamp) (ids : after.ids.Follows store.ids)
      (watermark : after.watermark = (store.raiseWatermark change.assigned).watermark) :
      Completes command store (.ok change.answer) after

theorem completes (command : Command) {store after : Store} {outcome : Except StoreError Reply}
    (hGrants : store.locks.grants = []) (hRun : command.perform.run store = (outcome, after)) :
    Completes command store outcome after := by
  have hPrepares := command.prepares hGrants
  rw [run_perform, Store.run_complete] at hRun
  generalize hPrepare : command.prepare.run store = prepared at hRun hPrepares
  obtain ⟨found, middle⟩ := prepared
  cases found with
  | error error => cases hRun; exact .failed hPrepares
  | ok found =>
    cases found with
    | settled answer => cases hRun; exact .settled hPrepare hPrepares
    | pending change =>
      obtain ⟨hIds, hWatermark, hBackend, hClosed, hReleased⟩ := hPrepares
      obtain ⟨hReturns, hCommits⟩ := Store.commit_cases hRun
      have hStillClosed := hReturns.closed.trans hClosed
      have hGrantsAfter := hReturns.grants.trans hReleased
      have hIdsAfter : after.ids.Follows store.ids := hReturns.ids.symm ▸ hIds
      cases hCommits with
      | refused fault backend watermark =>
        have hSame := backend.trans hBackend
        exact .failed ⟨hIdsAfter, watermark.trans hWatermark, hSame ▸ .refl _, by rw [hSame],
          hStillClosed, hGrantsAfter⟩
      | written backend write keeps isOpen watermark =>
        rw [hBackend] at write
        refine .written hPrepare write keeps isOpen hStillClosed hGrantsAfter hReturns.lastStamp
          hIdsAfter (watermark.trans ?_)
        cases change.assigned with
        | none => exact hWatermark
        | some id => exact congrArg (max · id.word) hWatermark

/-- A pass that ends with a batch removes what it found. -/
theorem sweep_of_pending {now : Millis} {store after : Store} {change : Pending Sweep}
    (hRun : (Store.prepareSweep now).run store = (.ok (.pending change), after)) :
    Sweep.ofBackend (store.policyAt now) store.backend = .ok change.answer ∧
      change.batch = change.answer.batch ∧ change.assigned = none ∧ change.answer.expired ≠ [] := by
  rw [Store.run_prepareSweep] at hRun
  cases hSweep : Sweep.ofBackend (store.policyAt now) store.backend with
  | error error => rw [hSweep] at hRun; cases hRun
  | ok sweep =>
    rw [hSweep] at hRun
    simp only at hRun
    split at hRun
    next => cases hRun
    next hSome =>
      cases hRun
      exact ⟨rfl, rfl, rfl, fun hNil => hSome (List.isEmpty_iff.mpr hNil)⟩

/-- A pass that ends without a batch found nothing to remove. -/
theorem sweep_of_settled {now : Millis} {store after : Store} {answer : Sweep}
    (hRun : (Store.prepareSweep now).run store = (.ok (.settled answer), after)) :
    answer.expired = [] := by
  rw [Store.run_prepareSweep] at hRun
  cases hSweep : Sweep.ofBackend (store.policyAt now) store.backend with
  | error error => rw [hSweep] at hRun; cases hRun
  | ok sweep =>
    rw [hSweep] at hRun
    simp only at hRun
    split at hRun
    next hNone => cases hRun; exact List.isEmpty_iff.mp hNone
    next => cases hRun

theorem run_prepareCollect_eq_ok {store after : Store} {prepared : Prepared Sweep}
    (hRun : Store.prepareCollect.run store = (.ok prepared, after)) :
    store.ensureOpen = .ok () ∧
      (Store.prepareSweep store.clock).run store = (.ok prepared, after) := by
  rw [Store.run_prepareCollect] at hRun
  cases hOpen : store.ensureOpen with
  | error error => rw [hOpen] at hRun; cases hRun
  | ok _ => rw [hOpen] at hRun; exact ⟨rfl, hRun⟩

/-- What becomes of the rows in a command: nothing, what a mutation does, or what a pass removes. -/
inductive Changes (command : Command) (store after : Store) : Prop
  | kept (rows : after.backend.rows = store.backend.rows)
      (watermark : after.watermark = store.watermark)
  | mutated {mutation : Mutation} {deed : Deed} {change : Pending Reply} {middle : Store}
      (named : command = .mutate mutation)
      (prepared : mutation.prepare.run store = (.ok (.pending change), middle))
      (does : mutation.Does store.backend.rows deed) (carries : Mutation.Carries store deed change middle)
      (stamp : after.lastStamp = middle.lastStamp)
      (rows : after.backend.rows = store.backend.rows.apply change.batch)
      (watermark : after.watermark = (store.raiseWatermark change.assigned).watermark)
  | swept {now : Millis} {sweep : Sweep}
      (named : command = .sweep now ∨ command = .collect ∧ now = store.clock)
      (found : Sweep.ofBackend (store.policyAt now) store.backend = .ok sweep)
      (rows : after.backend.rows = store.backend.rows.apply sweep.batch)
      (watermark : after.watermark = store.watermark)

/-- A command does nothing to the source of ids but draw from it. -/
theorem Completes.ids {command : Command} {store after : Store} {outcome : Except StoreError Reply}
    (hCompletes : Completes command store outcome after) : after.ids.Follows store.ids := by
  cases hCompletes with
  | failed leaves => exact leaves.ids
  | settled _ leaves => exact leaves.ids
  | written _ _ _ _ _ _ _ ids => exact ids

theorem Completes.changes {allowed : Stamp → Prop} {known : EntityId → Prop} {command : Command}
    (hValid : command.IsValid) {store after : Store} {outcome : Except StoreError Reply}
    (hCompletes : Completes command store outcome after)
    (hFormed : store.backend.rows.IsFormed allowed known) : command.Changes store after := by
  cases hCompletes with
  | failed leaves => exact .kept leaves.backend.rows leaves.watermark
  | settled prepared leaves => exact .kept leaves.backend.rows leaves.watermark
  | @written change middle _ backend prepared write keeps isOpen closed grants stamp _ watermark =>
    have hRows := keeps.rows.trans (Backend.write_eq_ok write).1
    have hSwept : ∀ {now : Millis} {found : Pending Sweep}, change = found.map .swept →
        (Store.prepareSweep now).run store = (.ok (.pending found), middle) →
        (command = .sweep now ∨ command = .collect ∧ now = store.clock) →
        command.Changes store after := by
      rintro now found rfl hFound hNamed
      obtain ⟨hSweep, hBatch, hAssigned, _⟩ := sweep_of_pending hFound
      rw [Pending.map, hAssigned] at watermark
      exact .swept hNamed hSweep (by rw [hRows, Pending.map, hBatch]) watermark
    cases command with
    | mutate mutation =>
      obtain ⟨deed, hDoes, hCarries⟩ := mutation.prepare_does hValid hFormed prepared
      exact .mutated rfl prepared hDoes hCarries stamp hRows watermark
    | collect =>
      obtain ⟨found, hFound, hChange⟩ := Mutation.pending_of_map prepared
      exact hSwept hChange (run_prepareCollect_eq_ok hFound).2 (Or.inr ⟨rfl, rfl⟩)
    | sweep now =>
      obtain ⟨found, hFound, hChange⟩ := Mutation.pending_of_map prepared
      exact hSwept hChange hFound (Or.inl rfl)

/-- The rows stay sound in a command, unless the stamps come to an end. -/
theorem Changes.isSound {command : Command} {store after : Store}
    (hChanges : command.Changes store after) (hSound : store.backend.rows.IsSound)
    (hBefore : store.lastStamp ≠ .last) (hAfter : after.lastStamp ≠ .last) :
    after.backend.rows.IsSound := by
  cases hChanges with
  | kept rows => rw [rows]; exact hSound
  | mutated _ _ does carries stamp rows =>
    rw [rows, carries.batch]
    exact (does.areReady hSound carries.issues hBefore (stamp ▸ hAfter)).isSound hSound
  | swept _ found rows =>
    rw [rows]
    exact (Sweep.isThinned_swept hSound.shaped found hSound.shaped (.refl _)).isSound hSound

/-- A mutation takes nothing away. -/
theorem Changes.grows {mutation : Mutation} {store after : Store}
    (hChanges : (Command.mutate mutation).Changes store after) (hSound : store.backend.rows.IsSound)
    (hBefore : store.lastStamp ≠ .last) (hAfter : after.lastStamp ≠ .last) :
    store.backend.rows.Grows after.backend.rows := by
  cases hChanges with
  | kept rows => exact rows ▸ .refl _
  | mutated _ _ does carries stamp rows =>
    rw [rows, carries.batch]
    exact (does.areReady hSound carries.issues hBefore (stamp ▸ hAfter)).grows _ hSound.shaped
  | swept named => rcases named with hSame | ⟨hSame, _⟩ <;> cases hSame

/-- The rows stay formed in a command, if the id that raises the watermark is known. -/
theorem Changes.isFormed {allowed : Stamp → Prop} {known : EntityId → Prop} {command : Command}
    {store after : Store} (hChanges : command.Changes store after)
    (hFormed : store.backend.rows.IsFormed allowed known) (hStamp : allowed after.lastStamp)
    (hIds : ∀ assigned, after.watermark = (store.raiseWatermark assigned).watermark →
      ∀ id ∈ assigned, known id) : after.backend.rows.IsFormed allowed known := by
  cases hChanges with
  | kept rows => rw [rows]; exact hFormed
  | mutated _ _ does carries stamp rows watermark =>
    rw [rows, carries.batch]
    refine does.isFormed hFormed (fun id hId => ?_) (stamp ▸ hStamp) _
    exact hIds _ watermark id (carries.assigned ▸ hId)
  | @swept now sweep _ _ rows =>
    rw [rows]
    exact hFormed.apply fun key value hPut => absurd hPut (sweep.not_mem_batch key value)

end Command

end VersionedCatalog
