import VersionedCatalog.Proofs.Runs

/-! # Sessions

A session begins when a store is opened. The greatest id that was ever given is written down with
the entity that gets it, and it stays written down when the entity is dropped and its versions are
removed (`Store.IsMarked`). A counter that starts behind it draws every id once, none that was given
in a session before, and none behind the last one (`IdSource.Yields.of_counter`). Once it has come
to its end a request that needs an id fails (`Action.Starves`).

What a run has given and drawn is written to a ledger as the run goes on (`Store.Recorded`).
-/

namespace VersionedCatalog

open Storage (Rows Backend Call Medium Provider)
open VersionedCatalog.Action

/-! ### Counters -/

theorem EntityId.toNat_word_ofNat {n : Nat} (hSmall : n ≤ last) : (ofNat n).word.toNat = n :=
  UInt64.toNat_ofNat_of_lt' (Nat.lt_of_le_of_lt hSmall (by decide))

/-- What a counter draws is not before its start, goes up and ends with the last id. -/
theorem IdSource.Yields.of_counter {start : Nat} {drawn : List EntityId} {rest : IdSource}
    (hYields : (counter start).Yields drawn rest) :
    (∀ id ∈ drawn, start ≤ id.word.toNat ∧ id.word.toNat ≤ EntityId.last) ∧
      drawn.Pairwise fun a b => a.word < b.word := by
  generalize hStart : counter start = source at hYields
  induction hYields generalizing start with
  | nothing => exact ⟨nofun, .nil⟩
  | @next source rest last id drawn draw others ih =>
    subst hStart
    rw [draw?] at draw
    split at draw
    next hSmall =>
      cases draw
      obtain ⟨hLater, hAsc⟩ := ih rfl
      have hFirst := EntityId.toNat_word_ofNat hSmall
      refine ⟨List.forall_mem_cons.mpr ⟨⟨Nat.le_of_eq hFirst.symm, hFirst.symm ▸ hSmall⟩,
        fun other hOther => ⟨Nat.le_of_succ_le (hLater other hOther).1, (hLater other hOther).2⟩⟩,
        List.pairwise_cons.mpr ⟨fun other hOther => ?_, hAsc⟩⟩
      rw [UInt64.lt_iff_toNat_lt, hFirst]
      exact (hLater other hOther).1
    next => cases draw

/-- A counter that starts behind an id draws greater ones only. -/
theorem IdSource.Yields.lt_of_startingAfter {before : UInt64} {drawn : List EntityId}
    {rest : IdSource} (hYields : (startingAfter before).Yields drawn rest) {id : EntityId}
    (hDrawn : id ∈ drawn) : before < id.word := by
  obtain ⟨hStart, hLast⟩ := hYields.of_counter.1 id hDrawn
  have hEnd : EntityId.last < UInt64.size - 1 := by decide
  rw [UInt64.lt_iff_toNat_lt]
  omega

/-! ### The watermark -/

theorem max_eq_of_le {a b : UInt64} (hLe : b ≤ a) : max a b = a := by
  show (if a ≤ b then b else a) = a
  split
  next hGe => exact UInt64.le_antisymm hLe hGe
  next => rfl

theorem max_eq_of_lt {a b : UInt64} (hLt : a < b) : max a b = b := if_pos (UInt64.le_of_lt hLt)

/-- The greatest id that is written down. -/
def Storage.Rows.mark (rows : Rows) : UInt64 :=
  ((rows.get? Key.watermark).map Store.idOfBytes).getD 0

namespace Store

theorem idOfBytes_bytes (id : EntityId) : idOfBytes id.bytes = id.word := by
  rw [idOfBytes, EntityId.ofBytes?_bytes]
  rfl

/-- Where no id is above the mark, neither is one in the index. -/
theorem highestId_eq_ok {backend : Backend} {allowed : Stamp → Prop}
    (hFormed : backend.rows.IsFormed allowed fun id => id.word ≤ backend.rows.mark)
    {highest : UInt64} (hOk : highestId backend = .ok highest) : highest = backend.rows.mark := by
  obtain ⟨written, hWritten, hRest⟩ := Outcome.bind_eq_ok hOk
  obtain ⟨indexed, hIndexed, hLast⟩ := Outcome.bind_eq_ok hRest
  have hMark := Backend.get_eq_ok (Outcome.mapError_eq_ok hWritten)
  have hGreatest := Backend.last_eq_ok (Outcome.mapError_eq_ok hIndexed)
  have hBelow : (indexed.map fun row => idOfBytes (row.1.drop 1)).getD 0 ≤ backend.rows.mark := by
    cases indexed with
    | none => exact UInt64.zero_le
    | some row =>
      obtain ⟨⟨hFound, hStem⟩, _⟩ := (Rows.lastBelow?_eq_some_iff _ _ row).mp hGreatest.symm
      obtain ⟨key, value⟩ := row
      obtain ⟨rest, rfl⟩ := hStem
      generalize hRow : ([Key.idStem] ++ rest, value) = row
      have hShape := hFormed _ _ hFound
      rw [hRow] at hShape
      cases hShape with
      | @version slot stamp flag payload _ _ =>
        have hHead := (List.cons.inj (Prod.mk.inj hRow).1).1
        exact absurd hHead.symm (Key.code_ne_idStem slot.type)
      | @index id slot owned =>
        show idOfBytes id.bytes ≤ _
        rw [idOfBytes_bytes]
        exact owned
      | watermark bytes =>
        have hHead := (List.cons.inj (Prod.mk.inj hRow).1).1
        exact absurd hHead (by decide)
  rw [hMark] at hLast
  cases hLast
  exact max_eq_of_le hBelow

/-- A store that knows the greatest id that was ever given, and has it written down. -/
structure IsMarked (store : Store) : Prop where
  marked : store.watermark = store.backend.rows.mark
  formed : store.backend.rows.IsFormed (fun _ => True) fun id => id.word ≤ store.watermark

end Store

/-- Every operation on the index is about an id. -/
theorem Turn.exists_key_of_mem_index {turn : Turn} {op : Storage.Op} (hOp : op ∈ turn.index) :
    ∃ id, op.key = Key.id id := by
  cases turn with
  | appear slot entity payload => exact ⟨entity.id, by rw [List.mem_singleton.mp hOp]; rfl⟩
  | stay slot before entity payload => cases hOp
  | move source target before entity payload =>
    exact ⟨entity.id, by rw [List.mem_singleton.mp hOp]; rfl⟩
  | vanish slot before => exact ⟨before.id, by rw [List.mem_singleton.mp hOp]; rfl⟩

/-- Turns leave the watermark as it is, but for what raises it. -/
theorem Turn.get?_watermark (rows : Rows) (stamp : Stamp) (turns : List Turn)
    (raise : Option Bytes) : (rows.apply (batch stamp turns raise)).get? Key.watermark =
      raise.or (rows.get? Key.watermark) := by
  have hOthers : ∀ op ∈ batch stamp turns raise, op.key = Key.watermark →
      ∃ bytes ∈ raise, op = .put Key.watermark bytes := by
    intro op hOp hKey
    rcases mem_batch_iff.mp hOp with ⟨turn, _, write, _, rfl⟩ | ⟨turn, _, hIndex⟩ | hRaise
    · exact absurd hKey (write.1.key_ne_watermark stamp)
    · obtain ⟨id, hId⟩ := exists_key_of_mem_index hIndex
      exact absurd (hId.symm.trans hKey) (Key.id_ne_watermark id)
    · exact hRaise
  cases raise with
  | none =>
    refine Rows.get?_apply_of_not_mem rows _ _ fun op hOp hKey => ?_
    obtain ⟨_, hNone, _⟩ := hOthers op hOp hKey.symm
    cases hNone
  | some bytes =>
    refine Rows.get?_apply_of_mem rows (mem_batch_iff.mpr (Or.inr (Or.inr ⟨bytes, rfl, rfl⟩)))
      fun op hOp hKey => ?_
    obtain ⟨_, ⟨rfl⟩, hOp⟩ := hOthers op hOp hKey
    exact hOp

/-- The watermark after a batch that gives out an id. -/
theorem Store.IsMarked.mark_apply {store : Store} (hMarked : store.IsMarked)
    (assigned : Option EntityId) (stamp : Stamp) (turns : List Turn) :
    (store.raiseWatermark assigned).watermark =
        (store.backend.rows.apply (Turn.batch stamp turns (store.raise? assigned))).mark ∧
      store.watermark ≤ (store.raiseWatermark assigned).watermark ∧
      ∀ id ∈ assigned, id.word ≤ (store.raiseWatermark assigned).watermark := by
  rw [Rows.mark, Turn.get?_watermark]
  cases assigned with
  | none => exact ⟨hMarked.marked, UInt64.le_refl _, nofun⟩
  | some id =>
    have hRaised : (store.raiseWatermark (some id)).watermark = max store.watermark id.word := rfl
    rw [hRaised, raise?, Option.filter_some]
    by_cases hAbove : store.watermark < id.word
    · rw [if_pos (decide_eq_true hAbove), max_eq_of_lt hAbove]
      refine ⟨(idOfBytes_bytes id).symm, UInt64.le_of_lt hAbove, ?_⟩
      rintro other ⟨rfl⟩
      exact UInt64.le_refl _
    · rw [if_neg (by simpa using hAbove), max_eq_of_le (UInt64.not_lt.mp hAbove)]
      refine ⟨hMarked.marked, UInt64.le_refl _, ?_⟩
      rintro other ⟨rfl⟩
      exact UInt64.not_lt.mp hAbove

/-- A pass leaves the watermark. -/
theorem Sweep.get?_watermark {policy : Policy} {backend : Backend} {sweep : Sweep}
    {allowed : Stamp → Prop} {known : EntityId → Prop}
    (hFormed : backend.rows.IsFormed allowed known) (hOk : ofBackend policy backend = .ok sweep) :
    (backend.rows.apply sweep.batch).get? Key.watermark = backend.rows.get? Key.watermark := by
  rw [batch, Rows.get?_apply_deletes, if_neg fun hExpired => ?_]
  obtain ⟨slot, version, _, hKey⟩ := (mem_expired_iff hFormed.areVersions hOk).mp hExpired
  exact slot.key_ne_watermark version.stamp hKey.symm

/-- A command keeps the store marked and lowers no watermark. -/
theorem Command.Changes.isMarked {command : Command} {store after : Store}
    (hChanges : command.Changes store after) (hMarked : store.IsMarked) :
    after.IsMarked ∧ store.watermark ≤ after.watermark := by
  have hMarks : after.watermark = after.backend.rows.mark ∧ store.watermark ≤ after.watermark := by
    cases hChanges with
    | kept rows watermark =>
      rw [rows, watermark]
      exact ⟨hMarked.marked, UInt64.le_refl _⟩
    | @mutated _ deed change middle _ _ does carries stamp rows watermark =>
      obtain ⟨hMark, hRaised, _⟩ :=
        hMarked.mark_apply change.assigned middle.lastStamp deed.turns
      rw [rows, carries.batch, watermark]
      exact ⟨hMark, hRaised⟩
    | swept _ found rows watermark =>
      rw [rows, watermark, Rows.mark, Sweep.get?_watermark hMarked.formed found]
      exact ⟨hMarked.marked, UInt64.le_refl _⟩
  obtain ⟨hMark, hRaised⟩ := hMarks
  have hFormed := hMarked.formed.mono (fun _ => id) fun other hLe => UInt64.le_trans hLe hRaised
  refine ⟨⟨hMark, hChanges.isFormed hFormed trivial fun assigned hWatermark id hId => ?_⟩, hRaised⟩
  rw [hWatermark]
  exact (hMarked.mark_apply assigned .zero []).2.2 id hId

/-! ### No ids are left -/

/-- Whether every id is taken that the source still has. -/
def Store.IsSpent (store : Store) : Prop := ∀ drawn rest, store.ids.Yields drawn rest →
  ∀ id ∈ drawn, store.backend.rows.get? (Key.id id) ≠ none

theorem Store.isSpent_of_draw?_eq_none {store : Store} (hNone : store.ids.draw? = none) :
    store.IsSpent := by
  intro drawn rest hYields id hDrawn
  cases hYields with
  | nothing => cases hDrawn
  | next draw => cases hNone.symm.trans draw

namespace Action

variable {α β : Type}

/-- When no free id is left, an action fails: because of that, or as it would with any source that
has one. -/
def Starves (x : Action α) : Prop :=
  ∀ store : Store, store.IsSpent → ∃ error, (x.run store).1 = .error error ∧
    (error.toClass = .idGeneration ∨
      ∀ ids, ids.draw? ≠ none → (x.run { store with ids }).1 = .error error)

/-- What is looked at does not depend on the ids. -/
theorem Starves.inspect_bind {look : Store → Except StoreError β} {f : β → Action α}
    (hBlind : ∀ (store : Store) (ids : IdSource), look { store with ids } = look store)
    (hRest : ∀ store b, look store = .ok b → Starves (f b)) : Starves (inspect look >>= f) := by
  intro store hSpent
  cases hLook : look store with
  | error error =>
    have hRun : ∀ ids, ((inspect look >>= f).run { store with ids }).1 = .error error := by
      intro ids
      rw [run_bind, run_inspect, hBlind, hLook]
    exact ⟨error, hRun store.ids, Or.inr fun ids _ => hRun ids⟩
  | ok b =>
    have hRun : ∀ ids, (inspect look >>= f).run { store with ids } =
        (f b).run { store with ids } := by
      intro ids
      rw [run_bind, run_inspect, hBlind, hLook]
    obtain ⟨error, hError, hWhy⟩ := hRest store b hLook store hSpent
    refine ⟨error, ?_, hWhy.imp_right fun hSame ids hSome => ?_⟩
    · have hHere : (inspect look >>= f).run store = (f b).run store := hRun store.ids
      rw [hHere]
      exact hError
    · rw [hRun]
      exact hSame ids hSome

/-- What comes after an action that fails does not matter. -/
theorem Starves.bind {x : Action α} (hStarves : Starves x) (f : α → Action β) :
    Starves (x >>= f) := by
  intro store hSpent
  obtain ⟨error, hError, hWhy⟩ := hStarves store hSpent
  have hFails : ∀ {start : Store}, (x.run start).1 = .error error →
      ((x >>= f).run start).1 = .error error := by
    intro start hStart
    rw [run_bind]
    generalize x.run start = outcome at hStart
    obtain ⟨found, after⟩ := outcome
    cases hStart
    rfl
  exact ⟨error, hFails hError, hWhy.imp_right fun hSame ids hSome => hFails (hSame ids hSome)⟩

end Action

namespace Store

/-- Where the index can be read, there is no other reason to fail. -/
theorem freeId_of_isSpent (attempts : Nat) {store : Store} (hSpent : store.IsSpent)
    (hPermit : store.backend.permit .get = .ok ()) :
    ∃ error, ((freeId attempts).run store).1 = .error error ∧ error.toClass = .idGeneration := by
  induction attempts generalizing store with
  | zero => exact ⟨.noFreeId idAttempts, rfl, rfl⟩
  | succ attempts ih =>
    rw [freeId, run_bind, run_drawId]
    cases hDraw : store.ids.draw? with
    | none => exact ⟨.noMoreIds, rfl, rfl⟩
    | some drawn =>
      obtain ⟨id, ids⟩ := drawn
      obtain ⟨stem, hTaken⟩ := Option.ne_none_iff_exists'.mp
        (hSpent [id] ids (.next hDraw (.nothing ids)) id List.mem_cons_self)
      have hLeft : ({ store with ids } : Store).IsSpent := fun drawn rest hYields other hOther =>
        hSpent (id :: drawn) rest (.next hDraw hYields) other (List.mem_cons_of_mem _ hOther)
      have hIndexed : Catalog.indexed? store.backend id = .ok (some stem) := by
        rw [Catalog.indexed?_eq, hPermit, hTaken]
        rfl
      simp only [run_bind, run_inspect, hIndexed]
      exact ih hLeft hPermit

theorem starves_freeId (attempts : Nat) : Starves (freeId attempts) := by
  intro store hSpent
  cases hPermit : store.backend.permit .get with
  | ok _ =>
    obtain ⟨error, hError, hClass⟩ := freeId_of_isSpent attempts hSpent hPermit
    exact ⟨error, hError, Or.inl hClass⟩
  | error fault =>
    cases attempts with
    | zero => exact ⟨.noFreeId idAttempts, rfl, Or.inl rfl⟩
    | succ attempts =>
      have hFails : ∀ ids : IdSource, ids.draw? ≠ none →
          ((freeId (attempts + 1)).run { store with ids }).1 = .error (.backend fault) := by
        intro ids hSome
        obtain ⟨⟨id, rest⟩, hDraw⟩ := Option.ne_none_iff_exists'.mp hSome
        have hIndexed : Catalog.indexed? store.backend id = .error (.backend fault) := by
          rw [Catalog.indexed?_eq, hPermit]
          rfl
        rw [freeId, run_bind, run_drawId]
        simp only [hDraw, run_bind, run_inspect, hIndexed]
      by_cases hDraw : store.ids.draw? = none
      · refine ⟨.noMoreIds, ?_, Or.inl rfl⟩
        rw [freeId, run_bind, run_drawId, hDraw]
      · exact ⟨.backend fault, hFails store.ids hDraw, Or.inr hFails⟩

theorem underLocks_eq_error {α : Type} {paths : List Path} {body : Nat → Action (Prepared α)}
    {store : Store} {grant : Grant} {locks : Locks} {error : StoreError}
    (hAcquire : store.locks.acquire paths = (.ok grant, locks))
    (hError : ((body grant.ticket).run { store with locks }).1 = .error error) :
    ((underLocks paths body).run store).1 = .error error := by
  simp only [run_underLocks, hAcquire]
  generalize (body grant.ticket).run { store with locks } = ran at hError
  obtain ⟨found, after⟩ := ran
  cases hError
  rfl

theorem starves_underLocks {α : Type} {paths : List Path} {body : Nat → Action (Prepared α)}
    (hBody : ∀ ticket, Starves (body ticket)) : Starves (underLocks paths body) := by
  intro store hSpent
  generalize hAcquire : store.locks.acquire paths = acquired
  obtain ⟨granted, locks⟩ := acquired
  cases granted with
  | error timeout =>
    have hRefused : ∀ ids, ((underLocks paths body).run { store with ids }).1 =
        .error (.timeout timeout) := by
      intro ids
      rw [run_underLocks, hAcquire]
    exact ⟨.timeout timeout, hRefused store.ids, Or.inr fun ids _ => hRefused ids⟩
  | ok grant =>
    obtain ⟨error, hError, hWhy⟩ := hBody grant.ticket { store with locks } hSpent
    refine ⟨error, underLocks_eq_error hAcquire hError, hWhy.imp_right fun hSame ids hSome => ?_⟩
    have hOther : ({ store with ids } : Store).locks.acquire paths = (.ok grant, locks) := hAcquire
    exact underLocks_eq_error hOther (hSame ids hSome)

/-- Creating needs an id unless the draft asks for one. -/
theorem starves_prepareCreate (name : Name) {draft : Draft}
    (hDraft : ∀ id, requestedId draft ≠ .ok (some id)) : Starves (prepareCreate name draft) := by
  refine .inspect_bind (fun _ _ => rfl) fun start requested hChecked => ?_
  obtain ⟨_, _, hRest⟩ := Outcome.bind_eq_ok hChecked
  obtain ⟨_, _, hRequested⟩ := Outcome.bind_eq_ok hRest
  cases requested with
  | some id => exact absurd hRequested (hDraft id)
  | none =>
    refine starves_underLocks fun ticket => .inspect_bind (fun _ _ => rfl) fun _ parent _ =>
      .inspect_bind (fun _ _ => rfl) fun _ latest _ => ?_
    split
    next current _ =>
      refine .inspect_bind (fun _ _ => rfl) fun _ existing hReplay => ?_
      -- without a requested id no request is a repeated one
      obtain ⟨_, _, hLast⟩ := Outcome.bind_eq_ok hReplay
      cases hLast
    next =>
      exact .inspect_bind (fun _ _ => rfl) fun _ kind _ => (starves_freeId idAttempts).bind _

/-- A command that creates fails as its first step does. -/
theorem perform_create_eq_error {name : Name} {draft : Draft} {store : Store} {error : StoreError}
    (hError : ((prepareCreate name draft).run store).1 = .error error) :
    ((Command.mutate (.create name draft)).perform.run store).1 = .error error := by
  have hPrepare : (Mutation.create name draft).prepare.run store =
      (((prepareCreate name draft).run store).1.map (Prepared.map .entity),
        ((prepareCreate name draft).run store).2) := run_bind_pure _ _ _
  rw [Command.run_perform, run_complete]
  simp only [Command.prepare, hPrepare, hError]
  rfl

end Store

/-! ### The ledger of a run -/

/-- Whether some version says that an entity has an id. -/
def Storage.Rows.Gives (rows : Rows) (id : EntityId) : Prop :=
  ∃ slot version entity, rows.HasVersion slot version ∧ version.flag = .live ∧
    Entity.decode slot.type version.payload = .ok entity ∧ entity.id = id

theorem Storage.Rows.IsFormed.known_of_gives {rows : Rows} {allowed : Stamp → Prop}
    {known : EntityId → Prop} (hFormed : rows.IsFormed allowed known) {id : EntityId}
    (hGives : rows.Gives id) : known id := by
  obtain ⟨slot, version, entity, hHas, hFlag, hDecode, rfl⟩ := hGives
  have hSays := (hFormed.said hHas).2
  rw [hFlag] at hSays
  cases hSays with
  | live decoded _ _ owned =>
    cases Except.ok.inj (hDecode.symm.trans decoded)
    exact owned

/-- What creating answers is there with its id, also when the stamps have come to an end. -/
theorem Store.Reachable.gives_created {allowed : Store → Prop} {store after : Store}
    (hReached : Reachable allowed store) {name : Name} (hValid : name.IsValid) {draft : Draft}
    {faults : List Call} {entity : Entity}
    (hRan : (Command.mutate (.create name draft)).perform.runDuring faults store =
      (.ok (.entity entity), after)) : after.backend.rows.Gives entity.id := by
  obtain ⟨left, hRun, rfl⟩ := runDuring_eq hRan
  obtain ⟨hGrants, _, _⟩ := hReached.isSteady.withFaults faults
  generalize hOutcome : (Except.ok (.entity entity) : Except StoreError Reply) = outcome at hRun
  cases (Command.mutate _).completes hGrants hRun with
  | failed => cases hOutcome
  | settled prepared leaves =>
    obtain ⟨found, hFound, rfl⟩ := Mutation.settled_of_map prepared
    cases hOutcome
    obtain ⟨slot, hType, rfl⟩ := exists_slot_of_prepareCreate hValid hFound
    obtain ⟨⟨version, hNewest, hLive, hDecode⟩, _⟩ := prepareCreate_eq_settled hType hFound
    have hRows : (left.withFaults []).backend.rows = store.backend.rows := leaves.backend.rows
    rw [hRows]
    exact ⟨slot, version, entity, Rows.hasVersion_of_newest? hReached.isFormed hNewest,
      of_decide_eq_true hLive, hDecode, rfl⟩
  | @written change middle _ backend prepared write keeps =>
    obtain ⟨found, hFound, rfl⟩ := Mutation.pending_of_map prepared
    obtain ⟨slot, given, payload, _, hAppears, hAnswer, _, hBatch, _⟩ :=
      prepareCreate_appears hValid hFound
    cases hOutcome
    have hRows : (left.withFaults []).backend.rows = store.backend.rows.apply found.batch :=
      keeps.rows.trans (Backend.write_eq_ok write).1
    rw [hRows, hBatch]
    refine ⟨slot, ⟨slot.stem, middle.lastStamp, .live, payload⟩, given, ⟨rfl, ?_⟩, rfl,
      hAppears.writing.decoded, by rw [hAnswer]⟩
    refine Rows.get?_apply_of_mem _ (Turn.mem_batch_iff.mpr (Or.inl ⟨_, List.mem_singleton_self _,
      (slot, .live, payload), List.mem_singleton_self _, rfl⟩)) fun op hOp hKey => ?_
    rcases Turn.mem_batch_iff.mp hOp with ⟨turn, hTurn, write, hWrite, rfl⟩ | ⟨turn, _, hIndex⟩ |
      ⟨bytes, _, rfl⟩
    · cases List.mem_singleton.mp hTurn
      cases List.mem_singleton.mp hWrite
      rfl
    · obtain ⟨id, hId⟩ := Turn.exists_key_of_mem_index hIndex
      exact absurd (hKey.symm.trans hId) (slot.key_ne_id middle.lastStamp id)
    · exact absurd hKey.symm (slot.key_ne_watermark middle.lastStamp)

/-- What is written down of a run: the backend and the source of ids that its last session began
with, the ids that were given in the sessions before and in this one, and the ids that were drawn in
this one, in their order. -/
structure Ledger where
  backend : Backend
  source : IdSource
  earlier : EntityId → Prop
  given : EntityId → Prop
  drawn : List EntityId

namespace Ledger

def opened (backend : Backend) (source : IdSource) (earlier : EntityId → Prop) : Ledger :=
  ⟨backend, source, earlier, fun _ => False, []⟩

/-- The ledger after a command that drew some ids and left some rows. -/
def goOn (ledger : Ledger) (drawn : List EntityId) (rows : Rows) : Ledger where
  backend := ledger.backend
  source := ledger.source
  earlier := ledger.earlier
  given id := ledger.given id ∨ rows.Gives id
  drawn := ledger.drawn ++ drawn

def reopened (ledger : Ledger) (backend : Backend) (source : IdSource) : Ledger :=
  opened backend source fun id => ledger.earlier id ∨ ledger.given id

end Ledger

namespace Store

/-- The states that are reached, each with the ledger of a run that leads there. -/
inductive Recorded : Store → Ledger → Prop
  | start {provider : Provider} {path : String} {threshold : Nat} {backend : Backend}
      {left : Medium} {settings : Settings} {ids : IdSource} {clock : Millis} {store : Store}
      (opened : (Medium.ofRows ∅).openBackend provider path threshold = (.ok backend, left))
      (made : ofBackend backend settings ids clock = .ok store) :
      Recorded store (.opened backend ids fun _ => False)
  | call {store after : Store} {ledger : Ledger} {outcome : Except StoreError Reply}
      {drawn : List EntityId} (command : Command) (faults : List Call) (valid : command.IsValid)
      (before : Recorded store ledger)
      (ran : command.perform.runDuring faults store = (outcome, after))
      (draws : store.ids.Yields drawn after.ids) :
      Recorded after (ledger.goOn drawn after.backend.rows)
  | tick {store : Store} {ledger : Ledger} (time : Millis) (before : Recorded store ledger) :
      Recorded (store.setClock time) ledger
  | close {store after : Store} {ledger : Ledger} {outcome : Except StoreError Unit}
      (faults : List Call) (before : Recorded store ledger)
      (ran : close.runDuring faults store = (outcome, after)) : Recorded after ledger
  | reopen {store after : Store} {ledger : Ledger} {backend : Backend} {settings : Settings}
      {ids : IdSource} {clock : Millis} (before : Recorded store ledger)
      (opened : store.backend.Reopens backend)
      (made : ofBackend backend settings ids clock = .ok after) :
      Recorded after (ledger.reopened backend ids)

theorem Recorded.reachable {store : Store} {ledger : Ledger} (hRecorded : store.Recorded ledger) :
    Reachable (fun _ => True) store := by
  induction hRecorded with
  | start opened made => exact .start opened made trivial
  | call command faults valid _ ran _ ih => exact .call command faults valid ih ran trivial
  | tick time _ ih => exact .tick time ih trivial
  | close faults _ ran ih => exact .close faults ih ran trivial
  | reopen _ opened made ih => exact .reopen ih opened made trivial

/-- Every command can be recorded: what it does to the source of ids is to draw from it. -/
theorem Recorded.exists_call {store after : Store} {ledger : Ledger}
    (hRecorded : store.Recorded ledger) {command : Command} (hValid : command.IsValid)
    {faults : List Call} {outcome : Except StoreError Reply}
    (hRan : command.perform.runDuring faults store = (outcome, after)) :
    ∃ drawn, store.ids.Yields drawn after.ids ∧
      after.Recorded (ledger.goOn drawn after.backend.rows) := by
  obtain ⟨left, hRun, rfl⟩ := runDuring_eq hRan
  obtain ⟨hGrants, _, _⟩ := hRecorded.reachable.isSteady.withFaults faults
  obtain ⟨drawn, hYields⟩ := (command.completes hGrants hRun).ids
  exact ⟨drawn, hYields, hRecorded.call command faults hValid hRan hYields⟩

/-- What a ledger and the store are like. -/
structure Fits (store : Store) (ledger : Ledger) : Prop where
  marked : store.IsMarked
  given : ∀ id, ledger.earlier id ∨ ledger.given id → id.word ≤ store.watermark
  yields : ledger.source.Yields ledger.drawn store.ids
  began : ∀ highest, highestId ledger.backend = .ok highest →
    ∀ id, ledger.earlier id → id.word ≤ highest

/-- A session begins with the greatest id that was ever given. -/
theorem fits_opened {backend : Backend} {settings : Settings} {ids : IdSource} {clock : Millis}
    {store : Store} (hMade : ofBackend backend settings ids clock = .ok store)
    (hFormed : backend.rows.IsFormed (fun _ => True) fun id => id.word ≤ backend.rows.mark)
    {earlier : EntityId → Prop} (hEarlier : ∀ id, earlier id → id.word ≤ backend.rows.mark) :
    store.Fits (.opened backend ids earlier) := by
  obtain ⟨_, _, hRest⟩ := Outcome.bind_eq_ok hMade
  obtain ⟨watermark, hHighest, hLast⟩ := Outcome.bind_eq_ok hRest
  cases hLast
  cases highestId_eq_ok hFormed hHighest
  refine ⟨⟨rfl, hFormed⟩, fun id hId => hEarlier id (hId.resolve_right nofun), .nothing ids, ?_⟩
  intro highest hOk id hId
  rw [highestId_eq_ok hFormed hOk]
  exact hEarlier id hId

theorem Recorded.fits {store : Store} {ledger : Ledger} (hRecorded : store.Recorded ledger) :
    store.Fits ledger := by
  induction hRecorded with
  | start opened made =>
    refine fits_opened made ?_ nofun
    rw [(Backend.openBackend_empty opened).1]
    exact Rows.isFormed_empty
  | @call store after ledger outcome drawn command faults valid before ran draws ih =>
    obtain ⟨left, rfl, hChanges⟩ := before.reachable.changes valid ran
    have hDuring : (store.withFaults faults).IsMarked := ⟨ih.marked.marked, ih.marked.formed⟩
    obtain ⟨hMarked, hRaised⟩ := hChanges.isMarked hDuring
    refine ⟨⟨hMarked.marked, hMarked.formed⟩, ?_, ih.yields.append draws, ih.began⟩
    rintro id (hEarlier | hGiven | hGives)
    · exact UInt64.le_trans (ih.given id (Or.inl hEarlier)) hRaised
    · exact UInt64.le_trans (ih.given id (Or.inr hGiven)) hRaised
    · exact hMarked.formed.known_of_gives hGives
  | tick time _ ih => exact ⟨⟨ih.marked.marked, ih.marked.formed⟩, ih.given, ih.yields, ih.began⟩
  | @close store after ledger outcome faults before ran ih =>
    obtain ⟨left, hRun, rfl⟩ := runDuring_eq ran
    obtain ⟨hKeeps, _, _, _, hIds, hWatermark⟩ := close_eq hRun
    have hRows : (left.withFaults []).backend.rows = store.backend.rows := hKeeps.rows
    have hSame : (left.withFaults []).watermark = store.watermark := hWatermark
    have hSource : (left.withFaults []).ids = store.ids := hIds
    refine ⟨⟨?_, ?_⟩, ?_, ?_, ih.began⟩
    · rw [hSame, hRows]; exact ih.marked.marked
    · rw [hSame, hRows]; exact ih.marked.formed
    · rw [hSame]; exact ih.given
    · rw [hSource]; exact ih.yields
  | @reopen store after ledger backend settings ids clock before opened made ih =>
    have hRows := (opened.rows_eq before.reachable.isSteady.faithful).1
    refine fits_opened made ?_ ?_
    · rw [hRows, ← ih.marked.marked]
      exact ih.marked.formed
    · rw [hRows, ← ih.marked.marked]
      exact ih.given

/-- In a session that began with the counter behind the greatest id, every id that is drawn is
greater than all that were given in the sessions before and than those drawn before it, and none is
above the last one. Once no such id is left, a request that needs one fails and changes no rows, for
this reason unless it would fail with any other source too. -/
theorem Recorded.sequential_ids {store : Store} {ledger : Ledger}
    (hRecorded : store.Recorded ledger) {seed : UInt64}
    (hSource : idSource .sequential seed ledger.backend = .ok ledger.source) :
    (∀ id ∈ ledger.drawn, ∀ old, ledger.earlier old → old.word < id.word) ∧
    (ledger.drawn.Pairwise fun a b => a.word < b.word) ∧
    (∀ id ∈ ledger.drawn, id.word.toNat ≤ EntityId.last) ∧
    (store.IsSpent → ∀ (name : Name) (draft : Draft) (faults : List Call)
      (outcome : Except StoreError Reply) (after : Store),
      (∀ id, requestedId draft ≠ .ok (some id)) →
      (Command.mutate (.create name draft)).perform.runDuring faults store = (outcome, after) →
      ∃ error, outcome = .error error ∧ after.backend.rows = store.backend.rows ∧
        (error.toClass = .idGeneration ∨ ∀ ids, ids.draw? ≠ none →
          ((Command.mutate (.create name draft)).perform.runDuring faults { store with ids }).1 =
            .error error)) := by
  have hFits := hRecorded.fits
  obtain ⟨highest, hHighest, hLast⟩ := Outcome.bind_eq_ok hSource
  have hYields : (IdSource.startingAfter highest).Yields ledger.drawn store.ids := by
    rw [Except.ok.inj hLast]
    exact hFits.yields
  obtain ⟨hBounds, hAsc⟩ := IdSource.Yields.of_counter hYields
  refine ⟨fun id hDrawn old hOld => ?_, hAsc, fun id hDrawn => (hBounds id hDrawn).2, ?_⟩
  · have hBelow := hFits.began highest hHighest old hOld
    exact UInt64.lt_of_le_of_lt hBelow (hYields.lt_of_startingAfter hDrawn)
  · intro hSpent name draft faults outcome after hDraft hRan
    obtain ⟨left, hRun, rfl⟩ := runDuring_eq hRan
    obtain ⟨error, hError, hWhy⟩ :=
      starves_prepareCreate name hDraft (store.withFaults faults) hSpent
    have hOutcome := perform_create_eq_error hError
    rw [hRun] at hOutcome
    cases hOutcome
    obtain ⟨hGrants, _, _⟩ := hRecorded.reachable.isSteady.withFaults faults
    refine ⟨error, rfl, ?_, hWhy.imp_right fun hSame ids hSome => ?_⟩
    · cases (Command.mutate _).completes hGrants hRun with
      | failed leaves => exact leaves.backend.rows
    · exact perform_create_eq_error (hSame ids hSome)

end Store

namespace Sample

/-- A store in memory that nobody has used yet. -/
def unused : Store := .fresh (.inMemory ∅) .inMemory (.counter 1) 0 0

/-- Asks for a metalake with an id. -/
def makeLakeAs (id : EntityId) : Command := .mutate (.create lake ((Draft.of .metalake).withId id))

def lakeAs (id : EntityId) : Entity where
  id := id
  name := lake
  kind := .metalake
  comment := none
  properties := id.addTo ∅
  audit := .created "anonymous" 0

def madeAs (id : EntityId) : Store := ((makeLakeAs id).perform.runDuring [] unused).2

def removeLake : Command := .mutate (.drop .metalake lake false)

def droppedAs (id : EntityId) : Store := (removeLake.perform.runDuring [] (madeAs id)).2

/-- The store when the metalake was dropped and all its versions were removed. -/
def purgedAs (id : EntityId) : Store :=
  ((Command.sweep Millis.last).perform.runDuring [] (droppedAs id)).2

/-- The next session of this store. -/
def reopenedAs (id : EntityId) : Store :=
  .fresh (.inMemory (purgedAs id).backend.rows) .inMemory (.startingAfter id.word) 0 id.word

/-- When the next session begins, the id of the metalake is one of an earlier session. -/
theorem recorded_reopenedAs {id : EntityId}
    (hMade : ((makeLakeAs id).perform.runDuring [] unused).1 = .ok (.entity (lakeAs id)))
    (hBackend : (purgedAs id).backend = .inMemory (purgedAs id).backend.rows)
    (hOpened : Store.ofBackend (.inMemory (purgedAs id).backend.rows) .inMemory
      (.startingAfter id.word) 0 = .ok (reopenedAs id)) :
    ∃ ledger, (reopenedAs id).Recorded ledger ∧
      ledger.backend = .inMemory (purgedAs id).backend.rows ∧
      ledger.source = .startingAfter id.word ∧ ledger.drawn = [] ∧ ledger.earlier id := by
  have hValid : lake.IsValid := by decide +kernel
  have hUnused : unused.Recorded (.opened (.inMemory ∅) (.counter 1) fun _ => False) :=
    @Store.Recorded.start .memory "" 0 (.inMemory ∅) _ .inMemory (.counter 1) 0 unused rfl rfl
  have hRan : (makeLakeAs id).perform.runDuring [] unused = (.ok (.entity (lakeAs id)), madeAs id) :=
    Prod.ext hMade rfl
  have hDrop : removeLake.perform.runDuring [] (madeAs id) =
      ((removeLake.perform.runDuring [] (madeAs id)).1, droppedAs id) := (Prod.eta _).symm
  have hSweep : (Command.sweep Millis.last).perform.runDuring [] (droppedAs id) =
      (((Command.sweep Millis.last).perform.runDuring [] (droppedAs id)).1, purgedAs id) :=
    (Prod.eta _).symm
  obtain ⟨_, _, hFirst⟩ := hUnused.exists_call (show (makeLakeAs id).IsValid from hValid) hRan
  obtain ⟨_, _, hSecond⟩ := hFirst.exists_call (show removeLake.IsValid from hValid) hDrop
  obtain ⟨_, _, hThird⟩ :=
    hSecond.exists_call (show (Command.sweep Millis.last).IsValid from trivial) hSweep
  have hReopens : ∀ {before : Backend} {rows : Rows}, before = .inMemory rows →
      before.Reopens (.inMemory rows) := by
    rintro before rows rfl
    exact ⟨.ofRows ∅, .memory, "", 0, _, rfl, rfl⟩
  have hGiven : (madeAs id).backend.rows.Gives id :=
    @Store.Reachable.gives_created _ _ _ hUnused.reachable lake hValid
      ((Draft.of .metalake).withId id) [] (lakeAs id) hRan
  exact ⟨_, hThird.reopen (hReopens hBackend) hOpened, rfl, rfl, rfl,
    Or.inr (Or.inl (Or.inl (Or.inr hGiven)))⟩

/-- The session after one that gave the id 41 draws 42, although nothing is left of what had 41. The
session after one that gave the last id creates nothing that needs an id. -/
theorem sequential_ids_reopened :
    (∃ ledger, (makeLake.perform.runDuring [] (reopenedAs (.ofNat 41))).2.Recorded ledger ∧
      ledger.earlier (.ofNat 41) ∧ ledger.drawn = [.ofNat 42] ∧
      ∀ id ∈ ledger.drawn, (EntityId.ofNat 41).word < id.word) ∧
    ∃ error, (makeLake.perform.runDuring [] (reopenedAs (.ofNat EntityId.last))).1 = .error error ∧
      error.toClass = .idGeneration := by
  have hValid : makeLake.IsValid := by decide +kernel
  constructor
  · obtain ⟨ledger, hRecorded, hBackend, hSource, hDrawn, hEarlier⟩ :=
      @recorded_reopenedAs (.ofNat 41) (by decide +kernel) (by decide +kernel) (by decide +kernel)
    let after := (makeLake.perform.runDuring [] (reopenedAs (.ofNat 41))).2
    have hIds : after.ids = .counter 43 := by decide +kernel
    have hYields : (reopenedAs (.ofNat 41)).ids.Yields [.ofNat 42] after.ids := by
      rw [hIds]
      exact .next rfl (.nothing _)
    have hMade := hRecorded.call makeLake [] hValid (Prod.eta _).symm hYields
    have hSequential : Store.idSource .sequential 0 ledger.backend = .ok ledger.source := by
      rw [hBackend, hSource]
      decide +kernel
    obtain ⟨hLater, _⟩ := hMade.sequential_ids hSequential
    refine ⟨_, hMade, hEarlier, ?_, fun id hId => hLater id hId _ hEarlier⟩
    rw [Ledger.goOn, hDrawn]
    rfl
  · obtain ⟨ledger, hRecorded, hBackend, hSource, _⟩ :=
      @recorded_reopenedAs (.ofNat EntityId.last) (by decide +kernel) (by decide +kernel)
        (by decide +kernel)
    have hSequential : Store.idSource .sequential 0 ledger.backend = .ok ledger.source := by
      rw [hBackend, hSource]
      decide +kernel
    obtain ⟨_, _, _, hEnds⟩ := hRecorded.sequential_ids hSequential
    have hSpent := Store.isSpent_of_draw?_eq_none
      (show (reopenedAs (.ofNat EntityId.last)).ids.draw? = none by decide +kernel)
    obtain ⟨error, hError, _, hWhy⟩ := hEnds hSpent lake (.of .metalake) [] _ _
      (fun id => by rw [show Store.requestedId (.of .metalake) = .ok none by decide +kernel]; nofun)
      (Prod.eta _).symm
    refine ⟨error, hError, hWhy.resolve_right fun hSame => ?_⟩
    -- with another counter the metalake is made
    have hOther : (makeLake.perform.runDuring []
        { reopenedAs (.ofNat EntityId.last) with ids := .counter 1 }).1.isOk = true := by
      decide +kernel
    rw [show (makeLake.perform.runDuring [] { reopenedAs (.ofNat EntityId.last) with
      ids := .counter 1 }).1 = .error error from hSame (.counter 1) nofun] at hOther
    cases hOther

end Sample

end VersionedCatalog
