import VersionedCatalog.Proofs.Footprints
import VersionedCatalog.Proofs.Runs

/-! # Mutations in flight

Between its two steps a mutation is in flight: it holds the locks of its paths, has read what it is
going to rely on and knows what it will write. Any number of mutations are in flight at a time and
commit in any order; of those that give out an id there is one at most, for the watermark is held
from the first step to the second (`Traffic.Step`).

The locks of mutations in flight keep their paths apart, all that a mutation writes is at its paths
or below them, and all that it reads is near them (`Flight.ReadsNear`). So what a mutation relies on
stays as it was when it was read, until it commits (`Traffic.IsOrderly`).
-/

namespace VersionedCatalog

open Storage (Rows Backend Call)
open VersionedCatalog.Action

/-- A mutation that is prepared and not committed, with the store that it was prepared in. -/
structure Flight where
  mutation : Mutation
  origin : Store
  change : Pending Reply

/-- A store and the mutations in flight over it. -/
structure Traffic where
  store : Store
  flights : List Flight

namespace Flight

def seen (flight : Flight) : Rows := flight.origin.backend.rows

/-- A flight has read the newest versions of the slots above, at and below the names that it has
locked and rows of the index for the ids that it asks for, and nothing else: whatever the other rows
were, the same would have been prepared. -/
def ReadsNear (flight : Flight) : Prop :=
  ∀ other : Backend,
    flight.origin.backend.LooksAs flight.mutation.paths flight.mutation.AsksFor other →
    (flight.mutation.prepare.run (flight.origin.over other)).1 = .ok (.pending flight.change)

/-- What a flight relies on is still what it has read: the newest versions of all slots above, at
and below the names that it has locked, and the row of the index for the id that it gives out. -/
structure Stands (flight : Flight) (rows : Rows) : Prop where
  newest : ∀ slot, Turn.IsNear flight.mutation.paths slot →
    rows.newest? slot = flight.seen.newest? slot
  index : ∀ id ∈ flight.change.assigned, rows.get? (Key.id id) = flight.seen.get? (Key.id id)

/-- A flight holds its locks, and writing what it has prepared is in order. -/
structure IsBound (flight : Flight) (store : Store) : Prop where
  held : ∃ ticket, flight.change.ticket = some ticket ∧
    ⟨ticket, .ofTargets flight.mutation.paths⟩ ∈ store.locks.grants
  planned : flight.change.IsPlanned store.backend.rows flight.mutation.paths
  reads : flight.ReadsNear
  stands : flight.Stands store.backend.rows

/-- Two flights that do not get in each other's way. -/
structure AreApart (a b : Flight) : Prop where
  tickets : a.change.ticket ≠ b.change.ticket
  paths : VersionedCatalog.AreApart a.mutation.paths b.mutation.paths
  ids : a.change.assigned = none ∨ b.change.assigned = none

theorem AreApart.symm {a b : Flight} (hApart : AreApart a b) : AreApart b a :=
  ⟨hApart.tickets.symm, hApart.paths.symm, hApart.ids.symm⟩

/-- A flight stays bound while the rows stay and the locks that are held go on being held. -/
theorem IsBound.of_same {flight : Flight} {before after : Store} (hBound : flight.IsBound before)
    (hRows : after.backend.rows = before.backend.rows)
    (hGrants : ∀ grant ∈ before.locks.grants, grant ∈ after.locks.grants) :
    flight.IsBound after := by
  obtain ⟨ticket, hTicket, hHeld⟩ := hBound.held
  exact ⟨⟨ticket, hTicket, hGrants _ hHeld⟩, hRows ▸ hBound.planned, hBound.reads,
    hRows ▸ hBound.stands⟩

section
variable {flight other : Flight} {before after : Store} (hBound : flight.IsBound before)
  (hOther : other.IsBound before) (hApart : AreApart flight other)
  (hGrants : after.locks.grants = (before.releaseTicket other.change.ticket).locks.grants)
include hBound hOther hApart hGrants

/-- A flight keeps its locks when another one gives back its own. -/
theorem IsBound.held_of_released :
    ∃ ticket, flight.change.ticket = some ticket ∧
      ⟨ticket, .ofTargets flight.mutation.paths⟩ ∈ after.locks.grants := by
  obtain ⟨ticket, hTicket, hHeld⟩ := hBound.held
  obtain ⟨released, hReleased, _⟩ := hOther.held
  refine ⟨ticket, hTicket, ?_⟩
  rw [hGrants, hReleased]
  refine Locks.mem_grants_release.mpr ⟨hHeld, fun hEq => hApart.tickets ?_⟩
  rw [hTicket, hReleased, show ticket = released from hEq]

/-- A flight stays bound when the write of another one fails. -/
theorem IsBound.of_refused (hRows : after.backend.rows = before.backend.rows) :
    flight.IsBound after :=
  ⟨hBound.held_of_released hOther hApart hGrants, hRows ▸ hBound.planned, hBound.reads,
    hRows ▸ hBound.stands⟩

/-- A flight stays bound when another one writes what it has prepared. -/
theorem IsBound.of_written (hSound : before.backend.rows.IsSound)
    (hRows : after.backend.rows = before.backend.rows.apply other.change.batch) :
    flight.IsBound after := by
  have hNewest : ∀ slot, Turn.IsNear flight.mutation.paths slot →
      after.backend.rows.newest? slot = before.backend.rows.newest? slot := by
    intro slot hNear
    rw [hRows]
    exact hOther.planned.newest?_apart hSound.shaped hApart.paths hNear
  have hFree : ∀ id ∈ flight.change.assigned, before.backend.rows.get? (Key.id id) = none := by
    obtain ⟨_, _, _, hPlan⟩ := hBound.planned
    exact hPlan.free
  -- if this flight gives out an id, the other one does not
  have hStillFree : ∀ id ∈ flight.change.assigned,
      after.backend.rows.get? (Key.id id) = none := by
    intro id hId
    have hNone : other.change.assigned = none := hApart.ids.resolve_left fun hNone => by
      rw [hNone] at hId
      cases hId
    rw [hRows]
    exact hOther.planned.get?_id_free hSound (by rw [hNone]; nofun) (hFree id hId)
  refine ⟨hBound.held_of_released hOther hApart hGrants, hBound.planned.of_agree hNewest hStillFree,
    hBound.reads, fun slot hNear => (hNewest slot hNear).trans (hBound.stands.newest slot hNear),
    fun id hId => ?_⟩
  rw [hStillFree id hId, ← hFree id hId]
  exact hBound.stands.index id hId

end

end Flight

namespace Traffic

/-- One step of one client, or of time. -/
inductive Step : Traffic → Traffic → Prop
  | prepare {store after : Store} {flights : List Flight} {change : Pending Reply}
      (mutation : Mutation) (faults : List Call) (valid : mutation.name.IsValid)
      (alone : change.assigned ≠ none → ∀ flight ∈ flights, flight.change.assigned = none)
      (ran : mutation.prepare.runDuring faults store = (.ok (.pending change), after)) :
      Step ⟨store, flights⟩ ⟨after, ⟨mutation, store.withFaults faults, change⟩ :: flights⟩
  | refuse {store after : Store} {flights : List Flight}
      {outcome : Except StoreError (Prepared Reply)} (mutation : Mutation) (faults : List Call)
      (ended : ∀ change, outcome ≠ .ok (.pending change))
      (ran : mutation.prepare.runDuring faults store = (outcome, after)) :
      Step ⟨store, flights⟩ ⟨after, flights⟩
  | commit {store after : Store} {flights rest : List Flight} {flight : Flight}
      {outcome : Except StoreError Reply} (faults : List Call)
      (picked : flights.Perm (flight :: rest))
      (ran : (Store.commit flight.change).runDuring faults store = (outcome, after)) :
      Step ⟨store, flights⟩ ⟨after, rest⟩
  | tick {store : Store} {flights : List Flight} (time : Millis) :
      Step ⟨store, flights⟩ ⟨store.setClock time, flights⟩

/-- The states that traffic leads to as long as the last stamp is not given out. -/
inductive Reachable : Traffic → Prop
  | start {store : Store} (reached : Store.Reachable Store.InTime store) : Reachable ⟨store, []⟩
  | step {before after : Traffic} (reached : Reachable before) (step : Step before after)
      (inTime : after.store.InTime) : Reachable after

structure IsOrderly (traffic : Traffic) : Prop where
  sound : traffic.store.backend.rows.IsSound
  inTime : traffic.store.InTime
  numbered : traffic.store.locks.AreNumbered
  bound : ∀ flight ∈ traffic.flights, flight.IsBound traffic.store
  apart : traffic.flights.Pairwise Flight.AreApart

variable {store after : Store} {flights : List Flight}

theorem isOrderly_prepare (hOrderly : IsOrderly ⟨store, flights⟩) {mutation : Mutation}
    {change : Pending Reply} {faults : List Call} (hValid : mutation.name.IsValid)
    (hAlone : change.assigned ≠ none → ∀ flight ∈ flights, flight.change.assigned = none)
    (hRan : mutation.prepare.runDuring faults store = (.ok (.pending change), after))
    (hAfter : after.InTime) :
    IsOrderly ⟨after, ⟨mutation, store.withFaults faults, change⟩ :: flights⟩ := by
  obtain ⟨left, hRun, rfl⟩ := Store.runDuring_eq hRan
  have hNumbered : (store.withFaults faults).locks.AreNumbered := hOrderly.numbered
  have hSound : (store.withFaults faults).backend.rows.IsSound := hOrderly.sound
  have hPlanned := Mutation.prepare_eq_pending hValid hSound hOrderly.inTime hRun hAfter
  obtain ⟨hStays, hStill, ticket, hTicket, hLocked⟩ :=
    mutation.prepares (store.withFaults faults) left _ hNumbered hRun
  have hRows : (left.withFaults []).backend.rows = store.backend.rows :=
    Store.rows_of_runDuring hStays.backend
  have hGrants : (left.withFaults []).locks.grants =
      ⟨ticket, .ofTargets mutation.paths⟩ :: store.locks.grants := hLocked.grants
  refine ⟨hRows ▸ hOrderly.sound, hAfter, hStill, List.forall_mem_cons.mpr ⟨?_, ?_⟩,
    List.pairwise_cons.mpr ⟨?_, hOrderly.apart⟩⟩
  · refine ⟨⟨ticket, hTicket, ?_⟩, hRows ▸ hPlanned, fun other hLooks => ?_, ?_⟩
    · rw [hGrants]
      exact List.mem_cons_self
    · have hMirrors := Mutation.prepare_mirrors hValid hLooks
      rw [Mirrors, hRun] at hMirrors
      exact congrArg Prod.fst hMirrors
    · rw [hRows]
      exact ⟨fun _ _ => rfl, fun _ _ => rfl⟩
  · refine fun flight hFlight => (hOrderly.bound flight hFlight).of_same hRows fun grant hHeld => ?_
    rw [hGrants]
    exact List.mem_cons_of_mem _ hHeld
  · intro flight hFlight
    obtain ⟨held, hTaken, hHeld⟩ := (hOrderly.bound flight hFlight).held
    refine ⟨fun hEq => ?_, hLocked.apart _ hHeld _ rfl, ?_⟩
    · rw [hTicket, hTaken] at hEq
      exact hLocked.fresh _ hHeld (Option.some.inj hEq).symm
    · by_cases hNone : change.assigned = none
      · exact Or.inl hNone
      · exact Or.inr (hAlone hNone flight hFlight)

theorem isOrderly_refuse (hOrderly : IsOrderly ⟨store, flights⟩) {mutation : Mutation}
    {outcome : Except StoreError (Prepared Reply)} {faults : List Call}
    (hEnded : ∀ change, outcome ≠ .ok (.pending change))
    (hRan : mutation.prepare.runDuring faults store = (outcome, after)) (hAfter : after.InTime) :
    IsOrderly ⟨after, flights⟩ := by
  obtain ⟨left, hRun, rfl⟩ := Store.runDuring_eq hRan
  have hNumbered : (store.withFaults faults).locks.AreNumbered := hOrderly.numbered
  obtain ⟨hStays, hStill, hLocks⟩ :=
    mutation.prepares (store.withFaults faults) left _ hNumbered hRun
  have hRows : (left.withFaults []).backend.rows = store.backend.rows :=
    Store.rows_of_runDuring hStays.backend
  have hGrants : (left.withFaults []).locks.grants = store.locks.grants := by
    cases outcome with
    | error error => exact hLocks
    | ok prepared =>
      cases prepared with
      | settled answer => exact hLocks
      | pending change => exact absurd rfl (hEnded change)
  refine ⟨hRows ▸ hOrderly.sound, hAfter, hStill, fun flight hFlight => ?_, hOrderly.apart⟩
  refine (hOrderly.bound flight hFlight).of_same hRows fun grant hHeld => ?_
  rw [hGrants]
  exact hHeld

theorem isOrderly_commit (hOrderly : IsOrderly ⟨store, flights⟩) {rest : List Flight}
    {flight : Flight} {outcome : Except StoreError Reply} {faults : List Call}
    (hPicked : flights.Perm (flight :: rest))
    (hRan : (Store.commit flight.change).runDuring faults store = (outcome, after))
    (hAfter : after.InTime) : IsOrderly ⟨after, rest⟩ := by
  obtain ⟨left, hRun, rfl⟩ := Store.runDuring_eq hRan
  obtain ⟨hReturns, hCommits⟩ := Store.commit_cases hRun
  have hGrants : (left.withFaults []).locks.grants =
      (store.releaseTicket flight.change.ticket).locks.grants := by
    refine hReturns.grants.trans ?_
    cases flight.change.ticket <;> rfl
  have hApart := (hPicked.pairwise_iff fun hApart => hApart.symm).mp hOrderly.apart
  obtain ⟨hFirst, hRest⟩ := List.pairwise_cons.mp hApart
  have hBound := hOrderly.bound flight (hPicked.mem_iff.mpr List.mem_cons_self)
  have hOthers : ∀ other ∈ rest, other.IsBound store := fun other hOther =>
    hOrderly.bound other (hPicked.mem_iff.mpr (List.mem_cons_of_mem _ hOther))
  have hNumbered : (left.withFaults []).locks.AreNumbered := by
    intro held hHeld
    rw [hGrants] at hHeld
    have hBefore : held ∈ store.locks.grants := by
      cases hTicket : flight.change.ticket with
      | none => rw [hTicket] at hHeld; exact hHeld
      | some ticket => rw [hTicket] at hHeld; exact (Locks.mem_grants_release.mp hHeld).1
    exact Nat.lt_of_lt_of_eq (hOrderly.numbered held hBefore) hReturns.nextTicket.symm
  cases hCommits with
  | refused fault backend =>
    have hRows : (left.withFaults []).backend.rows = store.backend.rows :=
      Store.rows_of_runDuring backend
    exact ⟨hRows ▸ hOrderly.sound, hAfter, hNumbered, fun other hOther =>
      (hOthers other hOther).of_refused hBound (hFirst other hOther).symm hGrants hRows, hRest⟩
  | written backend write keeps isOpen =>
    have hRows : (left.withFaults []).backend.rows =
        store.backend.rows.apply flight.change.batch :=
      keeps.rows.trans (Backend.write_eq_ok write).1
    exact ⟨hRows ▸ hBound.planned.isSound hOrderly.sound, hAfter, hNumbered, fun other hOther =>
      (hOthers other hOther).of_written hBound (hFirst other hOther).symm hGrants hOrderly.sound
        hRows, hRest⟩

/-- Traffic stays orderly. -/
theorem IsOrderly.step {before after : Traffic} (hOrderly : before.IsOrderly)
    (hStep : Step before after) (hAfter : after.store.InTime) : after.IsOrderly := by
  cases hStep with
  | prepare mutation faults valid alone ran =>
    exact isOrderly_prepare hOrderly valid alone ran hAfter
  | refuse mutation faults ended ran => exact isOrderly_refuse hOrderly ended ran hAfter
  | commit faults picked ran => exact isOrderly_commit hOrderly picked ran hAfter
  | tick time =>
    exact ⟨hOrderly.sound, hAfter, hOrderly.numbered, fun flight hFlight =>
      (hOrderly.bound flight hFlight).of_same rfl fun _ hHeld => hHeld, hOrderly.apart⟩

theorem Reachable.isOrderly {traffic : Traffic} (hReached : Reachable traffic) :
    traffic.IsOrderly := by
  induction hReached with
  | start reached =>
    exact ⟨reached.isSound, reached.allowed, Locks.areNumbered_of_idle reached.isSteady.grants,
      fun _ hFlight => (List.not_mem_nil hFlight).elim, .nil⟩
  | step _ step inTime ih => exact ih.step step inTime

/-- When a mutation commits, what it relies on is still what it has read: the newest versions at its
own name and at the one it leads to, above them and below them, and the place of its id in the
index; and it has read nothing else. Every version that it writes becomes the newest, and live
entities have live parents and their ids in the index afterwards. A commit that fails changes no
row. -/
theorem Reachable.no_update_lost {traffic : Traffic} (hReached : Reachable traffic)
    {flight : Flight} (hFlight : flight ∈ traffic.flights) :
    flight.ReadsNear ∧ flight.Stands traffic.store.backend.rows ∧
    ∀ (faults : List Call) (outcome : Except StoreError Reply) (after : Store),
      (Store.commit flight.change).runDuring faults traffic.store = (outcome, after) →
      after.backend.rows.IsRooted ∧ after.backend.rows.IsIndexed ∧
      match outcome with
      | .error _ => after.backend.rows = traffic.store.backend.rows
      | .ok _ => ∀ (slot : Slot) (stamp : Stamp) (value : Bytes),
          .put (slot.key stamp) value ∈ flight.change.batch →
          ∃ version, after.backend.rows.newest? slot = some version ∧ version.stamp = stamp ∧
            value = Version.encodeValue version.flag version.payload := by
  have hOrderly := hReached.isOrderly
  have hBound := hOrderly.bound flight hFlight
  refine ⟨hBound.reads, hBound.stands, fun faults outcome after hRan => ?_⟩
  obtain ⟨left, hRun, rfl⟩ := Store.runDuring_eq hRan
  cases (Store.commit_cases hRun).2 with
  | refused fault backend =>
    have hRows : (left.withFaults []).backend.rows = traffic.store.backend.rows :=
      Store.rows_of_runDuring backend
    have hSound := hRows ▸ hOrderly.sound
    exact ⟨hSound.isRooted, hSound.isIndexed, hRows⟩
  | written backend write keeps isOpen =>
    have hRows : (left.withFaults []).backend.rows =
        traffic.store.backend.rows.apply flight.change.batch :=
      keeps.rows.trans (Backend.write_eq_ok write).1
    have hSound := hBound.planned.isSound hOrderly.sound
    rw [hRows]
    exact ⟨hSound.isRooted, hSound.isIndexed, fun slot stamp value hPut =>
      hBound.planned.newest?_written hOrderly.sound.shaped hPut⟩

end Traffic

namespace Sample

def renameHive : Mutation := .alter .catalog hive "me" [.rename "bee"]

def makePond : Mutation := .create ⟨⟨["lake"]⟩, "pond"⟩ (.of (.catalog .relational "pond"))

/-- What an outcome leaves to be written. -/
def pendingOf (outcome : Except StoreError (Prepared Reply)) : Pending Reply :=
  match outcome with
  | .ok (.pending change) => change
  | _ => ⟨[], none, none, false, .dropped false⟩

def altering : Except StoreError (Prepared Reply) × Store := renameHive.prepare.runDuring [] store

def making : Except StoreError (Prepared Reply) × Store := makePond.prepare.runDuring [] altering.2

/-- The catalog of the sample on its way to another name. -/
def flight : Flight := ⟨renameHive, store.withFaults [], pendingOf altering.1⟩

/-- A second catalog on its way into the metalake. -/
def other : Flight := ⟨makePond, altering.2.withFaults [], pendingOf making.1⟩

def made : Except StoreError Reply × Store := (Store.commit other.change).runDuring [] making.2

theorem altering_eq : renameHive.prepare.runDuring [] store =
    (.ok (.pending (pendingOf altering.1)), altering.2) := by
  have hOk : altering.1 = .ok (.pending (pendingOf altering.1)) := by decide +kernel
  show altering = _
  rw [← hOk]

theorem making_eq : makePond.prepare.runDuring [] altering.2 =
    (.ok (.pending (pendingOf making.1)), making.2) := by
  have hOk : making.1 = .ok (.pending (pendingOf making.1)) := by decide +kernel
  show making = _
  rw [← hOk]

/-- The second catalog is made while the first one is in flight. -/
theorem reachable_made : Traffic.Reachable ⟨made.2, [flight]⟩ := by
  have hAltering : Traffic.Reachable ⟨altering.2, [flight]⟩ :=
    .step (.start reachable_store) (.prepare renameHive [] (by decide +kernel)
      (fun _ _ hMem => (List.not_mem_nil hMem).elim) altering_eq) (by decide +kernel)
  have hMaking : Traffic.Reachable ⟨making.2, [other, flight]⟩ :=
    .step hAltering (.prepare makePond [] (by decide +kernel)
      (fun _ => List.forall_mem_singleton.mpr (by decide +kernel)) making_eq) (by decide +kernel)
  have hMade : (Store.commit other.change).runDuring [] making.2 = (made.1, made.2) :=
    (Prod.eta made).symm
  exact .step hMaking (.commit [] (.refl _) hMade) (by decide +kernel)

/-- The change of name stands although the rows have changed. -/
theorem no_update_lost_made :
    flight.Stands made.2.backend.rows ∧ made.2.backend.rows ≠ flight.seen ∧
      ((Store.commit flight.change).runDuring [] made.2).2.backend.rows.IsIndexed := by
  obtain ⟨_, hStands, hCommit⟩ := reachable_made.no_update_lost List.mem_cons_self
  dsimp only at hStands hCommit
  exact ⟨hStands, by decide +kernel, (hCommit [] _ _ (Prod.eta _).symm).2.1⟩

end Sample

end VersionedCatalog
