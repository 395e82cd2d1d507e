import VersionedCatalog.Proofs.Engines
import VersionedCatalog.Proofs.Runs
import VersionedCatalog.Proofs.Twins

/-! # Payload formats coexist

A store is opened, used, closed and opened again, and every session may draw its ids from another
source and write its payloads in another format. A script of such sessions says where ids come from
and nothing of formats (`StoreEvent`). Run twice, with a choice of formats for each run, it gives the
same answers (`World.formats_coexist`), as what one run does leaves stores that are alike to those of
the other one (`World.Alike.answer`). A payload may be longer in one format than in the other, so
this ends where something is too large to be written.
-/

namespace VersionedCatalog

open Storage (Backend Call Medium Provider)
open Outcome (Agree lacksRoom)
open VersionedCatalog.Action

/-! ### Scripts -/

/-- What may be asked of a store without changing it. -/
inductive Question
  | load (type : EntityType) (name : Name)
  | contains (type : EntityType) (name : Name)
  | loadById (id : EntityId)
  | list (scope : Namespace) (type : EntityType)
  | listChildren (scope : Namespace)
  | versions (type : EntityType) (name : Name)
  deriving DecidableEq

inductive Finding
  | entity (entity : Entity)
  | flag (found : Bool)
  | entities (entities : List Entity)
  | names (names : List (EntityType × Name))
  | versions (versions : List (Stamp × VersionState))
  deriving DecidableEq

def Question.answer (store : Store) : Question → Except StoreError Finding
  | load type name => do return .entity (← store.load type name)
  | contains type name => do return .flag (← store.contains type name)
  | loadById id => do return .entity (← store.loadById id)
  | list scope type => do return .entities (← store.list scope type)
  | listChildren scope => do return .names (← store.listChildren scope)
  | versions type name => do return .versions (← store.versions type name)

/-- Where the ids of a session come from: from a source that it is given, or from the one that its
settings name. -/
inductive IdSupply
  | given (ids : IdSource)
  | byStrategy (seed : UInt64)
  deriving DecidableEq

def IdSupply.source (supply : IdSupply) (strategy : IdStrategy) (backend : Backend) :
    Except StoreError IdSource :=
  match supply with
  | given ids => .ok ids
  | byStrategy seed => Store.idSource strategy seed backend

/-- How a store is opened, but for the format of its payloads. -/
structure Session where
  settings : Settings
  supply : IdSupply
  clock : Millis
  threshold : Nat
  deriving DecidableEq

def Session.start (session : Session) (format : Format) (backend : Backend) :
    Except StoreError Store := do
  let ids ← session.supply.source session.settings.idStrategy backend
  Store.ofBackend backend { session.settings with format } ids session.clock

/-- What happens to a store. Some calls of the backend may fail while it is used. -/
inductive StoreEvent
  | call (command : Command) (faults : List Call)
  | ask (question : Question) (faults : List Call)
  | tick (time : Millis)
  | close (faults : List Call)
  | reopen (session : Session)
  deriving DecidableEq

inductive StoreAnswer
  | replied (outcome : Except StoreError Reply)
  | found (outcome : Except StoreError Finding)
  | ticked
  | closed (outcome : Except StoreError Unit)
  | opened (outcome : Except StoreError Unit)
  | nobody
  deriving DecidableEq

/-- Whether something was refused because of its size. -/
def StoreAnswer.lacksRoom : StoreAnswer → Bool
  | replied outcome => Outcome.lacksRoom outcome
  | closed outcome => Outcome.lacksRoom outcome
  | _ => false

/-- A store that is in use, or what was left by one that could not be opened. -/
inductive World
  | running (store : Store)
  | down (backend : Backend)
  deriving DecidableEq

namespace World

def backend : World → Backend
  | running store => store.backend
  | down backend => backend

/-- Opens a store where the last one ended, closed or lost. -/
def reopen (world : World) (format : Format) (session : Session) : StoreAnswer × World :=
  match world.backend.reopened session.threshold with
  | .error fault => (.opened (.error (.backend fault)), down world.backend)
  | .ok backend =>
    match session.start format backend with
    | .error error => (.opened (.error error), down backend)
    | .ok store => (.opened (.ok ()), running store)

/-- The answer to an event; a store that is opened by it writes in a given format. -/
def answer (format : Format) (world : World) (event : StoreEvent) : StoreAnswer × World :=
  match world, event with
  | world, .reopen session => world.reopen format session
  | down backend, _ => (.nobody, down backend)
  | running store, .call command faults =>
    let (outcome, after) := command.perform.runDuring faults store
    (.replied outcome, running after)
  | running store, .ask question faults =>
    (.found (question.answer (store.withFaults faults)), running store)
  | running store, .tick time => (.ticked, running (store.setClock time))
  | running store, .close faults =>
    let (outcome, after) := Store.close.runDuring faults store
    (.closed outcome, running after)

/-- The answers to a script, where a store that is opened by an event writes in the format that is
chosen for the place of this event. -/
def follow : (Nat → Format) → List StoreEvent → World → List StoreAnswer
  | _, [], _ => []
  | formats, event :: rest, world =>
    let (first, after) := world.answer (formats 0) event
    first :: follow (fun n => formats (n + 1)) rest after

/-- The world that a script leads to. -/
def reached : (Nat → Format) → List StoreEvent → World → World
  | _, [], world => world
  | formats, event :: rest, world =>
    reached (fun n => formats (n + 1)) rest (world.answer (formats 0) event).2

/-- The formats of the entities that are stored, in the order of their keys. -/
def storedFormats (world : World) : List Format :=
  world.backend.rows.entries.filterMap fun row =>
    ((Version.ofRow row).toOption.filter Version.isLive).bind fun version =>
      (Frame.peek version.payload).toOption

end World

/-! ### Sessions over alike backends -/

namespace Store

variable {store other : Store}

theorem Alike.withFaults (hAlike : store.Alike other) (faults : List Call) :
    (store.withFaults faults).Alike (other.withFaults faults) :=
  hAlike.over (hAlike.backend.withFaults faults)

theorem Alike.setClosed (hAlike : store.Alike other) :
    Alike { store with closed := true } { other with closed := true } :=
  ⟨hAlike.backend, hAlike.settings, hAlike.ids, hAlike.clock, hAlike.lastStamp, hAlike.locks,
    hAlike.watermark, rfl⟩

end Store

theorem Storage.Backend.Alike.close {backend other : Backend} (hAlike : backend.Alike other) :
    Agree Backend.Alike backend.close other.close := by
  have hEnded : ∀ backend : Backend, { backend with engine := backend.engine.close }.rows =
      backend.rows ∧ { backend with engine := backend.engine.close }.isClosed = true := by
    rintro ⟨engine, faults⟩
    cases engine <;> exact ⟨rfl, rfl⟩
  have hSound : backend.ensureSound .close = other.ensureSound .close := by
    rw [ensureSound, ensureSound, hAlike.faults]
  rw [Backend.close, Backend.close, hSound]
  refine Agree.refl.bind fun _ _ _ => .ok ⟨?_, ?_, hAlike.faults⟩
  · rw [(hEnded backend).1, (hEnded other).1]
    exact hAlike.rows
  · rw [(hEnded backend).2, (hEnded other).2]

namespace Store

variable {store other : Store}

theorem coincide_close (hAlike : store.Alike other) : Coincide Eq close close store other := by
  refine coincide_get_bind ?_
  have hFlush : store.backend.flush = other.backend.flush := hAlike.backend.permit_eq .flush
  have hClose := hAlike.backend.close
  rw [hAlike.closed, hFlush]
  split
  next => exact coincide_pure hAlike rfl
  next =>
    have hSet : Coincide Eq (set { store with closed := true } : Action Unit)
        (set { other with closed := true }) store other := Or.inr (Or.inr ⟨.ok rfl, hAlike.setClosed⟩)
    refine hSet.bind fun _ _ after otherAfter _ hAfter => ?_
    split
    next fault _ => exact coincide_throw hAfter _
    next =>
      generalize store.backend.close = closed, other.backend.close = otherClosed at hClose
      cases hClose with
      | error fault => exact coincide_throw hAfter _
      | ok hBackend => exact Or.inr (Or.inr ⟨.ok rfl, hAlike.setClosed.over hBackend⟩)

/-- Coinciding in spite of calls that fail. -/
theorem coincide_runDuring {α : Type} {x : Action α} (faults : List Call)
    (hCoincide : Coincide Eq x x (store.withFaults faults) (other.withFaults faults)) :
    lacksRoom (x.runDuring faults store).1 = true ∨ lacksRoom (x.runDuring faults other).1 = true ∨
      ((x.runDuring faults store).1 = (x.runDuring faults other).1 ∧
        (x.runDuring faults store).2.Alike (x.runDuring faults other).2) :=
  hCoincide.imp_right fun hOther => hOther.imp_right fun hBoth =>
    ⟨hBoth.1.eq, hBoth.2.withFaults []⟩

/-- Questions are answered from what is alike. -/
theorem Alike.answer (hAlike : store.Alike other) (question : Question) :
    question.answer store = question.answer other := by
  cases question with
  | load type name => rw [Question.answer, Question.answer, hAlike.load]
  | contains type name => rw [Question.answer, Question.answer, hAlike.contains]
  | loadById id => rw [Question.answer, Question.answer, hAlike.loadById]
  | list scope type => rw [Question.answer, Question.answer, hAlike.list]
  | listChildren scope => rw [Question.answer, Question.answer, hAlike.listChildren]
  | versions type name => rw [Question.answer, Question.answer, hAlike.versions]

/-- What a store is like between commands, it is like after every action that commands take. -/
theorem IsSteady.perform {store : Store} (hSteady : store.IsSteady) (command : Command)
    (faults : List Call) : (command.perform.runDuring faults store).2.IsSteady := by
  obtain ⟨hGrants, hFaithful, hOpen⟩ := hSteady.withFaults faults
  exact isSteady_completes (command.completes hGrants (Prod.eta _).symm) hFaithful hOpen

theorem IsSteady.close {store : Store} (hSteady : store.IsSteady) (faults : List Call) :
    (Store.close.runDuring faults store).2.IsSteady := by
  obtain ⟨hGrants, hFaithful, _⟩ := hSteady.withFaults faults
  obtain ⟨hKeeps, hClosed, hLocks, _⟩ := @close_eq (store.withFaults faults) _ _ (Prod.eta _).symm
  refine ⟨hLocks ▸ hGrants, Backend.isFaithful_withFaults (hKeeps.faithful hFaithful) [], rfl,
    fun hOpen => ?_⟩
  exact absurd (hClosed.symm.trans hOpen) Bool.noConfusion

end Store

/-- A source of ids that is given does not depend on the backend, and that of a strategy only on the
index. -/
theorem IdSupply.source_alike {backend other : Backend} (hAlike : backend.Alike other)
    (supply : IdSupply) (strategy : IdStrategy) :
    supply.source strategy backend = supply.source strategy other := by
  cases supply with
  | given ids => rfl
  | byStrategy seed =>
    cases strategy with
    | random => rfl
    | sequential =>
      rw [source, source, Store.idSource, Store.idSource, Store.highestId_alike hAlike]

/-- Whatever formats are chosen, a session over alike backends begins alike. -/
theorem Session.start_alike {backend other : Backend} (hAlike : backend.Alike other)
    (session : Session) (format otherFormat : Format) :
    Agree Store.Alike (session.start format backend) (session.start otherFormat other) := by
  rw [start, start, IdSupply.source_alike hAlike]
  refine Agree.refl.bind fun ids _ hSame => ?_
  cases hSame
  rw [Store.ofBackend, Store.ofBackend, Store.highestId_alike hAlike]
  refine Agree.bind Agree.refl fun _ _ _ => Agree.refl.bind fun watermark _ hSame => ?_
  cases hSame
  exact .ok ⟨hAlike, rfl, rfl, rfl, rfl, rfl, rfl, rfl⟩

theorem Session.isSteady_of_start {backend : Backend} (hFresh : backend.IsFresh)
    {session : Session} {format : Format} {store : Store}
    (hStart : session.start format backend = .ok store) : store.IsSteady := by
  obtain ⟨ids, _, hMade⟩ := Outcome.bind_eq_ok hStart
  exact Store.isSteady_ofBackend hFresh hMade

/-! ### Two runs -/

namespace World

/-- What two runs of one script are like that chose other formats. -/
inductive Alike : World → World → Prop
  | running {store other : Store} (alike : store.Alike other) (steady : store.IsSteady)
      (otherSteady : other.IsSteady) : Alike (running store) (running other)
  | down {backend other : Backend} (alike : backend.Alike other) (faithful : backend.IsFaithful)
      (otherFaithful : other.IsFaithful) : Alike (down backend) (down other)

variable {world other : World}

theorem Alike.reopen (hAlike : world.Alike other) (format otherFormat : Format)
    (session : Session) :
    (world.reopen format session).1 = (other.reopen otherFormat session).1 ∧
      (world.reopen format session).2.Alike (other.reopen otherFormat session).2 := by
  obtain ⟨hRows, hFaithful, hOtherFaithful⟩ : world.backend.rows.Alike other.backend.rows ∧
      world.backend.IsFaithful ∧ other.backend.IsFaithful := by
    cases hAlike with
    | running alike steady otherSteady =>
      exact ⟨alike.backend.rows, steady.faithful, otherSteady.faithful⟩
    | down alike faithful otherFaithful => exact ⟨alike.rows, faithful, otherFaithful⟩
  obtain ⟨backend, hOpened, hFresh, hSame⟩ := Backend.exists_reopened hFaithful session.threshold
  obtain ⟨another, hOtherOpened, hOtherFresh, hOtherSame⟩ :=
    Backend.exists_reopened hOtherFaithful session.threshold
  have hBackends : backend.Alike another :=
    ⟨hSame.symm ▸ hOtherSame.symm ▸ hRows, hFresh.isOpen.trans hOtherFresh.isOpen.symm,
      hFresh.faults.trans hOtherFresh.faults.symm⟩
  rw [World.reopen, World.reopen, hOpened, hOtherOpened]
  simp only
  have hStart := session.start_alike hBackends format otherFormat
  generalize hHere : session.start format backend = started,
    hThere : session.start otherFormat another = otherStarted at hStart
  cases hStart with
  | error error => exact ⟨rfl, .down hBackends hFresh.faithful hOtherFresh.faithful⟩
  | ok alike =>
    exact ⟨rfl, .running alike (Session.isSteady_of_start hFresh hHere)
      (Session.isSteady_of_start hOtherFresh hThere)⟩

/-- Two runs give the same answer to an event and go on alike, unless something has no room. -/
theorem Alike.answer (hAlike : world.Alike other) (format otherFormat : Format)
    (event : StoreEvent) :
    (world.answer format event).1.lacksRoom = true ∨
      (other.answer otherFormat event).1.lacksRoom = true ∨
      ((world.answer format event).1 = (other.answer otherFormat event).1 ∧
        (world.answer format event).2.Alike (other.answer otherFormat event).2) := by
  cases event with
  | reopen session =>
    have hReopen := hAlike.reopen format otherFormat session
    cases hAlike <;> exact Or.inr (Or.inr hReopen)
  | call command faults =>
    cases hAlike with
    | down alike faithful otherFaithful =>
      exact Or.inr (Or.inr ⟨rfl, .down alike faithful otherFaithful⟩)
    | running alike steady otherSteady =>
      have hRan := Store.coincide_runDuring faults (command.coincide (alike.withFaults faults))
      refine hRan.imp_right fun hOther => hOther.imp_right fun ⟨hSame, hAfter⟩ => ?_
      exact ⟨congrArg StoreAnswer.replied hSame,
        .running hAfter (steady.perform command faults) (otherSteady.perform command faults)⟩
  | ask question faults =>
    cases hAlike with
    | down alike faithful otherFaithful =>
      exact Or.inr (Or.inr ⟨rfl, .down alike faithful otherFaithful⟩)
    | running alike steady otherSteady =>
      have hSame := (alike.withFaults faults).answer question
      exact Or.inr (Or.inr ⟨congrArg StoreAnswer.found hSame, .running alike steady otherSteady⟩)
  | tick time =>
    cases hAlike with
    | down alike faithful otherFaithful =>
      exact Or.inr (Or.inr ⟨rfl, .down alike faithful otherFaithful⟩)
    | running alike steady otherSteady =>
      refine Or.inr (Or.inr ⟨rfl, .running ?_ ?_ ?_⟩)
      · exact ⟨alike.backend, alike.settings, alike.ids, rfl, alike.lastStamp, alike.locks,
          alike.watermark, alike.closed⟩
      · exact ⟨steady.grants, steady.faithful, steady.faults, steady.isOpen⟩
      · exact ⟨otherSteady.grants, otherSteady.faithful, otherSteady.faults, otherSteady.isOpen⟩
  | close faults =>
    cases hAlike with
    | down alike faithful otherFaithful =>
      exact Or.inr (Or.inr ⟨rfl, .down alike faithful otherFaithful⟩)
    | running alike steady otherSteady =>
      have hRan := Store.coincide_runDuring faults (Store.coincide_close (alike.withFaults faults))
      refine hRan.imp_right fun hOther => hOther.imp_right fun ⟨hSame, hAfter⟩ => ?_
      exact ⟨congrArg StoreAnswer.closed hSame,
        .running hAfter (steady.close faults) (otherSteady.close faults)⟩

/-- As far as nothing is too large to be written in either run, two runs of a script give the same
answers. -/
theorem Alike.follow {events : List StoreEvent} {formats others : Nat → Format} {n : Nat}
    {world other : World} (hAlike : world.Alike other)
    (hRoom : ∀ answer ∈ (world.follow formats events).take n, answer.lacksRoom = false)
    (hOtherRoom : ∀ answer ∈ (other.follow others events).take n, answer.lacksRoom = false) :
    (world.follow formats events).take n = (other.follow others events).take n := by
  induction events generalizing formats others n world other with
  | nil => rfl
  | cons event rest ih =>
    cases n with
    | zero => rfl
    | succ n =>
      rw [World.follow, World.follow, List.take_succ_cons, List.take_succ_cons] at *
      obtain ⟨hFirst, hRest⟩ := List.forall_mem_cons.mp hRoom
      obtain ⟨hOtherFirst, hOtherRest⟩ := List.forall_mem_cons.mp hOtherRoom
      rcases hAlike.answer (formats 0) (others 0) event with hLacks | hLacks | ⟨hSame, hAfter⟩
      · rw [hFirst] at hLacks
        cases hLacks
      · rw [hOtherFirst] at hLacks
        cases hLacks
      · rw [hSame, ih hAfter hRest hOtherRest]

/-- A script that begins with an empty backend is answered alike in two runs, whichever ids are drawn
in its sessions and whichever format each run chooses for each of them, as far as neither of them
comes upon something that is too large to be written. -/
theorem formats_coexist {provider : Provider} {path : String} {threshold : Nat} {backend : Backend}
    {left : Medium}
    (hOpened : (Medium.ofRows ∅).openBackend provider path threshold = (.ok backend, left))
    {formats others : Nat → Format} {events : List StoreEvent} {n : Nat}
    (hRoom : ∀ answer ∈ ((down backend).follow formats events).take n ++
      ((down backend).follow others events).take n, answer.lacksRoom = false) :
    ((down backend).follow formats events).take n =
      ((down backend).follow others events).take n := by
  obtain ⟨_, hFresh⟩ := Backend.openBackend_empty hOpened
  have hAlike : (down backend).Alike (down backend) :=
    .down ⟨.refl _, rfl, rfl⟩ hFresh.faithful hFresh.faithful
  obtain ⟨hHere, hThere⟩ := List.forall_mem_append.mp hRoom
  exact hAlike.follow hHere hThere

end World

namespace Sample

def visit (clock : Millis) (ids : List EntityId) : Session :=
  ⟨Settings.inMemory, .given (.listed ids), clock, 0⟩

def noteLake : Command := .mutate (.alter .metalake lake "me" [.updateComment "deep"])

/-- Two sessions, of which the second one writes over and renames what the first one made. -/
def visits : List StoreEvent :=
  [.reopen (visit 0 [⟨9⟩, ⟨9⟩, ⟨4⟩]), .call makeLake [], .call makeHive [],
    .reopen (visit 5 [⟨4⟩]), .call noteLake [], .ask (.versions .metalake lake) [],
    .call renameLake [], .call (.sweep Millis.last) [], .ask (.listChildren ⟨["sea"]⟩) []]

/-- The first session writes JSON, the second one CBOR. -/
def mixed (n : Nat) : Format := if n = 0 then .json else .cbor

/-- The catalog of the first session. The second id that is drawn there is taken. -/
def visitedHive : Entity where
  id := ⟨4⟩
  name := ⟨⟨["lake"]⟩, "hive"⟩
  comment := none
  properties := .ofList [("lakemeta.identifier", "lakemeta.v1.uid4")]
  audit := ⟨"anonymous", 0, none, none⟩
  kind := .catalog .relational "hive"

/-- In one run there are entities of both formats, of the metalake even under one key. -/
theorem formats_coexist_visits :
    (∀ answer ∈ ((World.down (.inMemory ∅)).follow (fun _ => .cbor) visits).take 9 ++
      ((World.down (.inMemory ∅)).follow mixed visits).take 9, answer.lacksRoom = false) ∧
    ((World.down (.inMemory ∅)).follow (fun _ => .cbor) visits).take 9 =
      ((World.down (.inMemory ∅)).follow mixed visits).take 9 ∧
    ((World.down (.inMemory ∅)).follow mixed visits)[2]? =
      some (.replied (.ok (.entity visitedHive))) ∧
    (World.reached (fun _ => .cbor) (visits.take 5) (.down (.inMemory ∅))).storedFormats =
      [.cbor, .cbor, .cbor] ∧
    (World.reached mixed (visits.take 5) (.down (.inMemory ∅))).storedFormats =
      [.json, .cbor, .json] := by
  have hRoom : ∀ answer ∈ ((World.down (.inMemory ∅)).follow (fun _ => .cbor) visits).take 9 ++
      ((World.down (.inMemory ∅)).follow mixed visits).take 9, answer.lacksRoom = false := by
    decide +kernel
  exact ⟨hRoom, @World.formats_coexist .memory "" 0 (.inMemory ∅) _ rfl (fun _ => .cbor) mixed
    visits 9 hRoom, by decide +kernel, by decide +kernel, by decide +kernel⟩

end Sample

end VersionedCatalog
