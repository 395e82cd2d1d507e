import VersionedCatalog.Proofs.CleanCalls
import VersionedCatalog.Proofs.RoundTrips

/-! # What comes to be stored

An entity is stored in a slot when a live version says that it is there, the newest version or an
older one. Every live version that a mutation writes is that of an entity that the mutation may have
to write (`Mutation.mayWrite_of_put`), so what is stored after a command was stored before, or it is
what the command may write (`Command.Changes.stores_cases`).

A store remembers nothing of the commands that were carried out. `Store.Performed` keeps the list of
them beside the state that they lead to. What holds of every entity when it is written, as far as it
holds of the entities that are there, holds of all that is stored
(`Store.Performed.stored_induction`).
-/

namespace VersionedCatalog

open Storage (Rows Backend Call Medium Provider)
open VersionedCatalog.Action

/-- Whether a live version in a slot says that an entity is there. -/
def Storage.Rows.Stores (rows : Rows) (slot : Slot) (entity : Entity) : Prop :=
  ∃ stamp payload, rows.get? (slot.key stamp) = some (Version.encodeValue .live payload) ∧
    Entity.decode slot.type payload = .ok entity

theorem Storage.Rows.Holds.stores {allowed : Stamp → Prop} {known : EntityId → Prop} {rows : Rows}
    (hFormed : rows.IsFormed allowed known) {slot : Slot} {entity : Entity}
    (hHolds : rows.Holds slot entity) : rows.Stores slot entity := by
  obtain ⟨version, hNewest, hLive, hDecode⟩ := hHolds
  have hFound := (Rows.hasVersion_of_newest? hFormed hNewest).found
  rw [show version.flag = .live from of_decide_eq_true hLive] at hFound
  exact ⟨version.stamp, version.payload, hFound, hDecode⟩

/-! ### What a mutation writes -/

namespace Store

variable {store : Store} {slot : Slot} {stamp : Stamp} {payload : Bytes}

/-- The row of a live version holds the payload of its entity. -/
theorem encode_of_putLive {stem value : Bytes} {issued : Stamp} {entity : Entity}
    (hPut : store.putLive stem issued entity = .ok (.put value (Version.encodeValue .live payload))) :
    store.encode entity = .ok payload := by
  obtain ⟨written, hEncode, hLast⟩ := Outcome.bind_eq_ok hPut
  obtain ⟨_, hValue⟩ := Storage.Op.put.inj (Except.ok.inj hLast)
  rw [hEncode, (Version.encodeValue_injective hValue).2]

theorem encode_of_creationBatch {stem : Bytes} {issued : Stamp} {entity : Entity}
    {batch : Storage.Batch} (hBatch : store.creationBatch stem issued entity = .ok batch)
    (hPut : .put (slot.key stamp) (Version.encodeValue .live payload) ∈ batch) :
    store.encode entity = .ok payload := by
  obtain ⟨version, hVersion, hLast⟩ := Outcome.bind_eq_ok hBatch
  have hCases : Storage.Op.put (slot.key stamp) (Version.encodeValue .live payload) = version := by
    have hMem : Storage.Op.put (slot.key stamp) (Version.encodeValue .live payload) ∈
        [version, .put (Key.id entity.id) stem, .put Key.watermark entity.id.bytes] := by
      split at hLast <;> cases hLast
      · exact hPut
      · exact List.mem_of_mem_take (i := 2) hPut
    rcases List.mem_cons.mp hMem with hEq | hMem
    · exact hEq
    · rcases List.mem_cons.mp hMem with hEq | hMem
      · exact absurd (Storage.Op.put.inj hEq).1 (slot.key_ne_id stamp entity.id)
      · exact absurd (Storage.Op.put.inj (List.mem_singleton.mp hMem)).1
          (slot.key_ne_watermark stamp)
  exact encode_of_putLive (hCases ▸ hVersion)

/-- A live version among the rows of some moves is that of an entity that moves. -/
theorem encode_of_relocationBatch {issued : Stamp} {relocations : List Relocation}
    {batch : Storage.Batch} (hBatch : Relocation.batch store issued relocations = .ok batch)
    (hPut : .put (slot.key stamp) (Version.encodeValue .live payload) ∈ batch) :
    ∃ relocation ∈ relocations, store.encode relocation.entity = .ok payload := by
  induction relocations generalizing batch with
  | nil => cases hBatch; cases hPut
  | cons relocation rest ih =>
    obtain ⟨ops, hOps, hRest⟩ := Outcome.bind_eq_ok hBatch
    obtain ⟨others, hOthers, hLast⟩ := Outcome.bind_eq_ok hRest
    cases hLast
    rcases List.mem_append.mp hPut with hHere | hThere
    · refine ⟨relocation, List.mem_cons_self, ?_⟩
      obtain ⟨version, hVersion, hLast⟩ := Outcome.bind_eq_ok hOps
      cases hLast
      rcases List.mem_cons.mp hHere with hEq | hMarker
      · exact encode_of_putLive (hEq ▸ hVersion)
      · rcases List.mem_cons.mp hMarker with hEq | hIndex
        · cases (Version.encodeValue_injective (Storage.Op.put.inj hEq).2).1
        · exact absurd (Storage.Op.put.inj (List.mem_singleton.mp hIndex)).1
            (slot.key_ne_id stamp relocation.entity.id)
    · obtain ⟨found, hMem, hEncode⟩ := ih hOthers hThere
      exact ⟨found, List.mem_cons_of_mem _ hMem, hEncode⟩

theorem mayWrite_of_prepareCreate {name : Name} {draft : Draft} {change : Pending Entity}
    {after : Store}
    (hRun : (prepareCreate name draft).run store = (.ok (.pending change), after))
    (hPut : .put (slot.key stamp) (Version.encodeValue .live payload) ∈ change.batch) :
    ∃ entity, Mutation.MayWrite store (.create name draft) entity ∧
      after.encode entity = .ok payload := by
  obtain ⟨hFinds, _, hStays⟩ := prepareCreate_eq_pending hRun
  obtain ⟨parent, hParent, hKind⟩ := hFinds.resolved
  refine ⟨change.answer, ?_, ?_⟩
  · rw [hFinds.made]
    exact .create _ hParent hKind
  · rw [encode, format, hStays.settings]
    exact encode_of_creationBatch hFinds.written hPut

theorem mayWrite_of_prepareAlter {allowed : Stamp → Prop} {known : EntityId → Prop}
    (hFormed : store.backend.rows.IsFormed allowed known) {type : EntityType} {name : Name}
    {modifier : String} {changes : List Change} {change : Pending Entity} {after : Store}
    (hRun : (prepareAlter type name modifier changes).run store = (.ok (.pending change), after))
    (hPut : .put (slot.key stamp) (Version.encodeValue .live payload) ∈ change.batch) :
    ∃ entity, Mutation.MayWrite store (.alter type name modifier changes) entity ∧
      after.encode entity = .ok payload := by
  obtain ⟨hAmends, _, _, hAfter⟩ := prepareAlter_eq_pending hRun
  have hEncode : ∀ entity, after.encode entity = store.encode entity := fun entity => by
    rw [hAfter]
    rfl
  obtain ⟨resident, rfl, rfl, hChanged, hRead, hRewriting⟩ := hAmends.exists_read hFormed
  have hRoot : Mutation.MayWrite store
      (.alter resident.slot.type resident.slot.name modifier changes) change.answer :=
    .alter hRead.lives.holds hChanged
  rw [Rewriting] at hRewriting
  split at hRewriting
  next =>
    obtain ⟨_, op, hOp, hBatch⟩ := hRewriting
    rw [hBatch] at hPut
    exact ⟨change.answer, hRoot, hEncode _ ▸ encode_of_putLive (List.mem_singleton.mp hPut ▸ hOp)⟩
  next hMoved =>
    obtain ⟨relocations, hRelocate, _, hBatch⟩ := hRewriting
    obtain ⟨relocation, hMem, hHere⟩ := encode_of_relocationBatch hBatch hPut
    exact ⟨relocation.entity, Catalog.mayWrite_of_relocateTree hFormed hMoved hRead.type hRoot hRelocate
      relocation hMem, hEncode _ ▸ hHere⟩

end Store

/-- Every live version that a mutation writes is that of an entity that it may write. -/
theorem Mutation.mayWrite_of_put {allowed : Stamp → Prop} {known : EntityId → Prop}
    {mutation : Mutation} (hValid : mutation.name.IsValid) {store after : Store}
    (hFormed : store.backend.rows.IsFormed allowed known) {change : Pending Reply}
    (hRun : mutation.prepare.run store = (.ok (.pending change), after)) {slot : Slot}
    {stamp : Stamp} {payload : Bytes}
    (hPut : .put (slot.key stamp) (Version.encodeValue .live payload) ∈ change.batch)
    {entity : Entity} (hDecode : Entity.decode slot.type payload = .ok entity) :
    mutation.MayWrite store entity := by
  have hSame : ∀ written, mutation.MayWrite store written ∧ after.encode written = .ok payload →
      mutation.MayWrite store entity := by
    rintro written ⟨hWrites, hEncode⟩
    rw [Entity.decode_of_encode (Outcome.mapError_eq_ok hEncode)] at hDecode
    split at hDecode
    next => exact Except.ok.inj hDecode ▸ hWrites
    next => cases hDecode
  cases mutation with
  | create name draft =>
    obtain ⟨found, hFound, rfl⟩ := pending_of_map hRun
    obtain ⟨written, hWritten⟩ := Store.mayWrite_of_prepareCreate hFound hPut
    exact hSame written hWritten
  | alter type name modifier changes =>
    obtain ⟨found, hFound, rfl⟩ := pending_of_map hRun
    obtain ⟨written, hWritten⟩ := Store.mayWrite_of_prepareAlter hFormed hFound hPut
    exact hSame written hWritten
  | drop type name cascade =>
    obtain ⟨found, hFound, rfl⟩ := pending_of_map hRun
    obtain ⟨root, residents, _, _, _, _, hBatch, _⟩ := Store.prepareDrop_vanishes hValid hFormed hFound
    -- all versions of what vanishes are tombstones
    rw [Pending.map, hBatch] at hPut
    rcases Turn.mem_batch_iff.mp hPut with ⟨turn, hTurn, write, hWrite, hOp⟩ | ⟨turn, hTurn, hIndex⟩ |
      ⟨bytes, hRaise, _⟩
    · obtain ⟨resident, _, rfl⟩ := List.mem_map.mp hTurn
      rw [List.mem_singleton.mp hWrite] at hOp
      cases (Version.encodeValue_injective (Storage.Op.put.inj hOp).2).1
    · obtain ⟨resident, _, rfl⟩ := List.mem_map.mp hTurn
      cases List.mem_singleton.mp hIndex
    · cases hRaise

/-- What is stored after a command was stored before, or the command may write it. -/
theorem Command.Changes.stores_cases {allowed : Stamp → Prop} {known : EntityId → Prop}
    {command : Command} {store after : Store} (hChanges : command.Changes store after)
    (hValid : command.IsValid) (hFormed : store.backend.rows.IsFormed allowed known)
    {slot : Slot} {entity : Entity} (hStores : after.backend.rows.Stores slot entity) :
    store.backend.rows.Stores slot entity ∨ command.MayWrite store entity := by
  obtain ⟨stamp, payload, hFound, hDecode⟩ := hStores
  cases hChanges with
  | kept rows => exact Or.inl ⟨stamp, payload, rows ▸ hFound, hDecode⟩
  | mutated named prepared _ _ _ rows =>
    subst named
    rw [rows] at hFound
    rcases Rows.get?_apply_cases _ _ hFound with hPut | hBefore
    · exact Or.inr (Mutation.mayWrite_of_put hValid hFormed prepared hPut hDecode)
    · exact Or.inl ⟨stamp, payload, hBefore, hDecode⟩
  | @swept now sweep _ _ rows =>
    rw [rows] at hFound
    rcases Rows.get?_apply_cases _ _ hFound with hPut | hBefore
    · exact absurd hPut (sweep.not_mem_batch _ _)
    · exact Or.inl ⟨stamp, payload, hBefore, hDecode⟩

/-! ### Runs and their commands -/

namespace Store

/-- The states that a run leads to, with the commands that it carried out. -/
inductive Performed : List Command → Store → Prop
  | start {provider : Provider} {path : String} {threshold : Nat} {backend : Backend}
      {left : Medium} {settings : Settings} {ids : IdSource} {clock : Millis} {store : Store}
      (opened : (Medium.ofRows ∅).openBackend provider path threshold = (.ok backend, left))
      (made : ofBackend backend settings ids clock = .ok store) : Performed [] store
  | call {commands : List Command} {store after : Store} {outcome : Except StoreError Reply}
      (command : Command) (faults : List Call) (valid : command.IsValid)
      (before : Performed commands store)
      (ran : command.perform.runDuring faults store = (outcome, after)) :
      Performed (commands ++ [command]) after
  | tick {commands : List Command} {store : Store} (time : Millis)
      (before : Performed commands store) : Performed commands (store.setClock time)
  | close {commands : List Command} {store after : Store} {outcome : Except StoreError Unit}
      (faults : List Call) (before : Performed commands store)
      (ran : close.runDuring faults store = (outcome, after)) : Performed commands after
  | reopen {commands : List Command} {store after : Store} {backend : Backend}
      {settings : Settings} {ids : IdSource} {clock : Millis} (before : Performed commands store)
      (opened : store.backend.Reopens backend)
      (made : ofBackend backend settings ids clock = .ok after) : Performed commands after

/-- Every state that a run leads to is one. -/
theorem Performed.reachable {commands : List Command} {store : Store}
    (hRun : Performed commands store) : Reachable (fun _ => True) store := by
  induction hRun with
  | start opened made => exact .start opened made trivial
  | call command faults valid _ ran ih => exact .call command faults valid ih ran trivial
  | tick time _ ih => exact .tick time ih trivial
  | close faults _ ran ih => exact .close faults ih ran trivial
  | reopen _ opened made ih => exact .reopen ih opened made trivial

theorem Reachable.exists_performed {allowed : Store → Prop} {store : Store}
    (hReached : Reachable allowed store) : ∃ commands, Performed commands store := by
  induction hReached with
  | start opened made _ => exact ⟨[], .start opened made⟩
  | call command faults valid _ ran _ ih =>
    obtain ⟨commands, hRun⟩ := ih
    exact ⟨commands ++ [command], .call command faults valid hRun ran⟩
  | tick time _ _ ih =>
    obtain ⟨commands, hRun⟩ := ih
    exact ⟨commands, .tick time hRun⟩
  | close faults _ ran _ ih =>
    obtain ⟨commands, hRun⟩ := ih
    exact ⟨commands, .close faults hRun ran⟩
  | reopen _ opened made _ ih =>
    obtain ⟨commands, hRun⟩ := ih
    exact ⟨commands, .reopen hRun opened made⟩

/-- What holds of every entity that a command may write, if it holds of those that are there, holds
of all that a run has stored. -/
theorem Performed.stored_induction {fine : List Command → Entity → Prop}
    (hLater : ∀ {commands : List Command} {entity : Entity} (command : Command),
      fine commands entity → fine (commands ++ [command]) entity)
    (hWritten : ∀ {commands : List Command} {command : Command} {store : Store} {entity : Entity},
      (∀ slot before, store.backend.rows.Holds slot before → fine commands before) →
      command.MayWrite store entity → fine (commands ++ [command]) entity)
    {commands : List Command} {store : Store} (hRun : Performed commands store) {slot : Slot}
    {entity : Entity} (hStores : store.backend.rows.Stores slot entity) : fine commands entity := by
  induction hRun generalizing slot entity with
  | start opened made =>
    obtain ⟨stamp, payload, hFound, _⟩ := hStores
    rw [backend_ofBackend made, (Backend.openBackend_empty opened).1] at hFound
    cases hFound
  | call command faults valid before ran ih =>
    obtain ⟨left, rfl, hChanges⟩ := before.reachable.changes valid ran
    have hFormed := before.reachable.isFormed
    rcases hChanges.stores_cases valid hFormed hStores with hBefore | hWrites
    · exact hLater command (ih hBefore)
    · refine hWritten (fun slot found hHolds => ?_) hWrites
      have hHere : Rows.Holds _ slot found := hHolds
      exact ih (hHere.stores hFormed)
  | tick time _ ih => exact ih hStores
  | close faults _ ran ih =>
    obtain ⟨left, hClosed, rfl⟩ := runDuring_eq ran
    obtain ⟨hKeeps, _⟩ := close_eq hClosed
    have hStored : left.backend.rows.Stores slot entity := hStores
    rw [hKeeps.rows] at hStored
    exact ih hStored
  | reopen before opened made ih =>
    rw [backend_ofBackend made, (opened.rows_eq before.reachable.isSteady.faithful).1] at hStores
    exact ih hStores

end Store

end VersionedCatalog
