import VersionedCatalog.Proofs.Legibility
import VersionedCatalog.Proofs.Sizes

/-! # No call comes upon anything illegible

A command ends cleanly in a store with formed rows: what it reads is legible, what it moves lies
where it is looked for, and what it writes can be written as long as a word counts the lengths of its
parts (`Command.endsCleanly_perform`). Opening and closing never look at what the rows say. So
wherever a run leads no call fails because of what is stored (`Store.Reachable.nothing_illegible`).
-/

namespace VersionedCatalog

open Storage (Rows Row Backend Call)
open VersionedCatalog.Action
open Outcome

/-! ### Actions that end cleanly -/

namespace Action

variable {α β : Type} {store : Store}

def EndsCleanly (x : Action α) (store : Store) : Prop := IsClean (x.run store).1

theorem endsCleanly_pure (a : α) : EndsCleanly (pure a) store := isClean_ok a

theorem EndsCleanly.bind {x : Action α} {f : α → Action β} (hFirst : x.EndsCleanly store)
    (hRest : ∀ a after, x.run store = (.ok a, after) → (f a).EndsCleanly after) :
    EndsCleanly (x >>= f) store := by
  rw [EndsCleanly] at hFirst ⊢
  rw [run_bind]
  generalize x.run store = ran at hFirst hRest
  obtain ⟨found, after⟩ := ran
  cases found with
  | error error => exact isClean_error (hFirst error rfl)
  | ok a => exact hRest a after rfl

theorem endsCleanly_inspect {look : Store → Except StoreError α} (hLook : IsClean (look store)) :
    EndsCleanly (inspect look) store := by
  rw [EndsCleanly, run_inspect]
  exact hLook

/-- What follows an inspection goes on in the same state. -/
theorem EndsCleanly.inspect_bind {look : Store → Except StoreError α} {f : α → Action β}
    (hLook : IsClean (look store)) (hRest : ∀ a, look store = .ok a → (f a).EndsCleanly store) :
    EndsCleanly (inspect look >>= f) store := by
  refine (endsCleanly_inspect hLook).bind fun a after hRun => ?_
  obtain ⟨hOk, rfl⟩ := inspect_run_eq_ok hRun
  exact hRest a hOk

end Action

namespace Store

variable {α : Type} {store : Store}

theorem endsCleanly_issueStamp (floor : Option Stamp) : (issueStamp floor).EndsCleanly store := by
  rw [EndsCleanly, run_issueStamp]
  cases Stamp.next store.settings.skewMillis store.clock store.lastStamp floor with
  | error skew => exact isClean_error nofun
  | ok stamp => exact isClean_ok _

theorem endsCleanly_drawId : drawId.EndsCleanly store := by
  rw [EndsCleanly, run_drawId]
  cases store.ids.draw? with
  | none => exact isClean_error nofun
  | some drawn => exact isClean_ok _

theorem endsCleanly_freeId (attempts : Nat) : (freeId attempts).EndsCleanly store := by
  induction attempts generalizing store with
  | zero => exact isClean_error nofun
  | succ attempts ih =>
    refine endsCleanly_drawId.bind fun id after _ =>
      .inspect_bind (Catalog.isClean_indexed? id) fun found _ => ?_
    split
    next => exact endsCleanly_pure _
    next => exact ih

theorem endsCleanly_commit (change : Pending α) : (commit change).EndsCleanly store := by
  rw [EndsCleanly, run_commit]
  cases store.backend.write change.batch with
  | error fault => exact isClean_error nofun
  | ok backend => exact isClean_ok _

theorem endsCleanly_complete {prepare : Action (Prepared α)} (hPrepare : prepare.EndsCleanly store) :
    (complete prepare).EndsCleanly store := by
  refine hPrepare.bind fun prepared after _ => ?_
  cases prepared with
  | settled answer => exact endsCleanly_pure answer
  | pending change => exact endsCleanly_commit change

theorem endsCleanly_underLocks {paths : List Path} {body : Nat → Action (Prepared α)}
    (hBody : ∀ ticket locked, store.Stays locked → (body ticket).EndsCleanly locked) :
    (underLocks paths body).EndsCleanly store := by
  rw [EndsCleanly, run_underLocks]
  generalize store.locks.acquire paths = acquired
  obtain ⟨granted, locks⟩ := acquired
  cases granted with
  | error timeout => exact isClean_error nofun
  | ok grant =>
    have hEnds := hBody grant.ticket { store with locks } (Store.stays_withLocks store locks)
    rw [EndsCleanly] at hEnds
    simp only
    generalize (body grant.ticket).run { store with locks } = ran at hEnds ⊢
    obtain ⟨found, after⟩ := ran
    cases found with
    | error error => exact isClean_error (hEnds error rfl)
    | ok prepared => cases prepared <;> exact isClean_ok _

theorem isClean_putLive {entity : Entity} (hSized : entity.IsSized) (stem : Bytes) (stamp : Stamp) :
    IsClean (store.putLive stem stamp entity) := by
  obtain ⟨payload, hPayload⟩ := entity.exists_encode hSized store.format
  have hEncode : store.encode entity = .ok payload := by rw [encode, hPayload]; rfl
  rw [putLive, hEncode]
  exact isClean_ok _

end Store

/-! ### Clean mutations -/

/-- The entities that a mutation may have to write. -/
inductive Mutation.MayWrite (store : Store) : Mutation → Entity → Prop
  | create {name : Name} {draft : Draft} {parent : Option Entity} {kind : Kind} (id : EntityId)
      (found : store.parentOf draft.type name = .ok parent)
      (resolved : Catalog.resolveKind store.backend name parent draft.kind = .ok kind) :
      MayWrite store (.create name draft) {
        id, name, kind
        comment := draft.comment
        properties := id.addTo draft.properties
        audit := .created draft.creator store.clock }
  | alter {slot : Slot} {before after : Entity} {modifier : String} {changes : List Change}
      (holds : store.backend.rows.Holds slot before)
      (changed : store.changed modifier changes before = .ok after) :
      MayWrite store (.alter slot.type slot.name modifier changes) after
  | move {source slot : Slot} {before : Entity} {goal : Name} {modifier : String}
      {changes : List Change} (renames : Store.targetName source.name changes ≠ source.name)
      (below : slot.IsBelow source) (holds : store.backend.rows.Holds slot before)
      (moved : slot.name.rebase? source.name (Store.targetName source.name changes) = some goal) :
      MayWrite store (.alter source.type source.name modifier changes)
        { before with name := goal }

/-- What may be written does not depend on ids, stamps and locks. -/
theorem Mutation.MayWrite.of_stays {store locked : Store} (hStays : store.Stays locked)
    {mutation : Mutation} {entity : Entity} (hWrites : mutation.MayWrite locked entity) :
    mutation.MayWrite store entity := by
  cases hWrites with
  | create id found resolved =>
    rw [hStays.clock]
    exact .create id (hStays.parentOf_eq _ _ ▸ found) (hStays.backend ▸ resolved)
  | alter holds changed =>
    refine .alter (hStays.backend ▸ holds) ?_
    rw [← changed, Store.changed, Store.changed, hStays.clock]
  | move renames below holds moved => exact .move renames below (hStays.backend ▸ holds) moved

namespace Catalog

variable {allowed : Stamp → Prop} {known : EntityId → Prop} {backend : Backend}
  (hFormed : backend.rows.IsFormed allowed known)
include hFormed

theorem isClean_catalogRoot? (schema : Entity) : IsClean (catalogRoot? backend schema) := by
  unfold catalogRoot?
  split
  next => exact isClean_ok _
  next name _ =>
    refine (isClean_entity? hFormed .catalog name).bind fun found _ => ?_
    cases found <;> exact isClean_ok _

theorem isClean_resolveLocation (name : Name) (filesetType : FilesetType) (schema : Entity) :
    IsClean (resolveLocation backend name filesetType schema) := by
  unfold resolveLocation
  refine isClean_ite (fun _ => isClean_error nofun) fun _ => ?_
  cases filesetRoot? schema with
  | some root => exact isClean_ok _
  | none =>
    refine (isClean_catalogRoot? hFormed schema).bind fun root _ => ?_
    cases root with
    | some root => exact isClean_ok _
    | none => exact isClean_error nofun

theorem isClean_resolveKind (name : Name) (parent : Option Entity) (kind : Kind) :
    IsClean (resolveKind backend name parent kind) := by
  unfold resolveKind
  split
  next filesetType location =>
    refine isClean_ite (fun _ => ?_) fun _ => isClean_ok _
    cases parent with
    | none => exact isClean_error nofun
    | some schema =>
      exact (isClean_resolveLocation hFormed name filesetType schema).bind fun _ _ => isClean_ok _
  next => exact isClean_ok _

theorem isClean_claimId (id : EntityId) (stem : Bytes) : IsClean (claimId backend id stem) := by
  refine (isClean_indexed? id).bind fun found hFound => ?_
  cases found with
  | none => exact isClean_ok _
  | some owner =>
    obtain ⟨slot, rfl, hStem⟩ := decodeStem_of_indexed? hFormed hFound
    refine isClean_ite (fun _ => ?_) fun _ => isClean_ok _
    simp only [hStem, Outcome.ok_bind]
    refine (isClean_entity? hFormed slot.type slot.name).bind fun found _ => ?_
    exact isClean_ite (fun _ => isClean_error nofun) fun _ => isClean_ok _

end Catalog

namespace Store

variable {store : Store} {allowed : Stamp → Prop} {known : EntityId → Prop}

theorem isClean_requestedId (draft : Draft) : IsClean (requestedId draft) := by
  unfold requestedId
  split
  next => exact isClean_ok _
  next text _ =>
    cases EntityId.ofTag? text with
    | none => exact isClean_error nofun
    | some id => exact isClean_ok _

section
variable (hFormed : store.backend.rows.IsFormed allowed known)
include hFormed

theorem isClean_parentOf (type : EntityType) (name : Name) : IsClean (store.parentOf type name) := by
  unfold parentOf
  split
  next => exact (isClean_load hFormed _ _).bind fun _ _ => isClean_ok _
  next => exact isClean_ok _

omit hFormed in
theorem isClean_replay {type : EntityType} {current : Version} (hLegible : current.IsLegible type)
    (hLive : current.isLive = true) (name : Name) (requested : Option EntityId) :
    IsClean (replay type name requested current) := by
  refine (isClean_of_ok (Catalog.exists_decode hLegible hLive)).bind fun existing _ => ?_
  exact isClean_ite (fun _ => isClean_ok _) fun _ => isClean_error nofun

theorem endsCleanly_chooseId (requested : Option EntityId) (stem : Bytes) :
    (chooseId requested stem).EndsCleanly store := by
  cases requested with
  | none => exact endsCleanly_freeId _
  | some id => exact .inspect_bind (Catalog.isClean_claimId hFormed id stem) fun _ _ =>
      endsCleanly_pure _

theorem endsCleanly_prepareCreate {name : Name} {draft : Draft}
    (hSized : ∀ entity, Mutation.MayWrite store (.create name draft) entity → entity.IsSized) :
    (prepareCreate name draft).EndsCleanly store := by
  refine .inspect_bind ((isClean_ensureOpen store).bind fun _ _ =>
    (isClean_checkDepth _ _).bind fun _ _ => isClean_requestedId draft) fun requested _ => ?_
  refine endsCleanly_underLocks fun ticket locked hStays => ?_
  have hLocked : locked.backend.rows.IsFormed allowed known := hStays.backend ▸ hFormed
  refine .inspect_bind (isClean_parentOf hLocked _ _) fun parent hParent => ?_
  refine .inspect_bind (Catalog.isClean_latest? hLocked _ _) fun latest hLatest => ?_
  split
  next current hCurrent =>
    obtain ⟨rfl, hLive⟩ := Option.filter_eq_some_iff.mp hCurrent
    exact .inspect_bind (isClean_replay (Catalog.isLegible_of_latest? hLocked hLatest) hLive _ _)
      fun _ _ => endsCleanly_pure _
  next =>
    refine .inspect_bind (Catalog.isClean_resolveKind hLocked _ _ _) fun kind hKind => ?_
    refine (endsCleanly_chooseId hLocked requested _).bind fun id drawn hId => ?_
    have hDrawn := (isQuiet_chooseId _ _).draws hId
    refine EndsCleanly.bind (isClean_ok _) fun now _ hNow => ?_
    cases hNow
    refine (endsCleanly_issueStamp _).bind fun stamp stamped _ => ?_
    refine .inspect_bind ?_ fun batch _ => endsCleanly_pure _
    refine (isClean_putLive (hSized _ (.of_stays hStays ?_)) _ _).bind fun _ _ => isClean_ok _
    rw [hDrawn.clock]
    exact .create id hParent hKind

end

end Store

namespace Catalog

variable {allowed : Stamp → Prop} {known : EntityId → Prop} {backend : Backend}
  (hFormed : backend.rows.IsFormed allowed known)
include hFormed

theorem isClean_floorAt (type : EntityType) (name : Name) (stamp : Stamp) :
    IsClean (floorAt backend (Key.entity type name) stamp) := by
  refine (isClean_latest? hFormed type name).bind fun found _ => ?_
  cases found <;> exact isClean_ok _

/-- What is alive below a name lies below it, so it can be moved to any other one. -/
theorem isClean_relocate {source : Slot} (target : Name) {resident : Resident}
    (hLives : resident.Lives backend.rows) (hBelow : resident.slot.IsBelow source) :
    IsClean (relocate backend source.name target resident.slot.type resident.version) := by
  have hDecode : decode resident.slot.type resident.version = .ok resident.entity := by
    rw [decode, hLives.decoded]
    rfl
  obtain ⟨hName, _⟩ := hFormed.name_of_holds hLives.holds
  obtain ⟨goal, hGoal⟩ := Name.exists_rebase? target (Slot.isAncestorOf_iff_isBelow.mpr hBelow)
  rw [relocate, hDecode, Outcome.ok_bind, hName, hGoal]
  exact (isClean_floorAt hFormed _ _ _).bind fun _ _ => isClean_ok _

theorem isClean_relocateAll {source : Slot} (target : Name) {type : EntityType}
    {residents : List Resident} (hLives : ∀ resident ∈ residents, resident.Lives backend.rows)
    (hBelow : ∀ resident ∈ residents, resident.slot.IsBelow source) {versions : List Version}
    (hVersions : versions.map (fun version => (type, version)) = residents.map doom) :
    IsClean (relocateAll backend source.name target type versions) := by
  induction versions generalizing residents with
  | nil => exact isClean_ok _
  | cons version rest ih =>
    cases residents with
    | nil => cases hVersions
    | cons resident others =>
      rw [List.map_cons, List.map_cons, List.cons.injEq] at hVersions
      obtain ⟨rfl, rfl⟩ := Prod.mk.inj hVersions.1
      obtain ⟨hFirst, hRest⟩ := List.forall_mem_cons.mp hLives
      obtain ⟨hUnder, hOthers⟩ := List.forall_mem_cons.mp hBelow
      exact (isClean_relocate hFormed target hFirst hUnder).bind fun _ _ =>
        (ih hRest hOthers hVersions.2).bind fun _ _ => isClean_ok _

theorem isClean_relocateRanges (source : Slot) (target : Name) {types : List EntityType}
    (hTypes : ∀ type ∈ types, type ∈ source.type.deeper) :
    IsClean (relocateRanges backend source.name target
      (types.map fun type => (type, Key.typed type source.path))) := by
  induction types with
  | nil => exact isClean_ok _
  | cons type rest ih =>
    obtain ⟨hFirst, hRest⟩ := List.forall_mem_cons.mp hTypes
    have hLength : source.path.length ≤ type.depth + 1 := by
      have hDeeper := EntityType.mem_deeper_iff.mp hFirst
      rw [source.length_path]
      omega
    refine (isClean_liveBelow hFormed type source.path).bind fun versions hVersions => ?_
    obtain ⟨residents, hMap, hResidents⟩ := exists_residents_of_liveBelow hFormed hLength hVersions
    refine (isClean_relocateAll hFormed target hResidents.lives (fun resident hMem => ?_)
      hMap).bind fun _ _ => (ih hRest).bind fun _ _ => isClean_ok _
    obtain ⟨hType, hPath⟩ := hResidents.inside resident hMem
    exact Slot.isBelow_iff_deeper.mpr ⟨hType ▸ hFirst, hPath⟩

theorem isClean_relocateTree {source : Slot} (stamp : Stamp) {entity : Entity}
    (hType : entity.type = source.type) (target : Name) :
    IsClean (relocateTree backend source.name stamp entity target) := by
  refine (isClean_latest? hFormed _ _).bind fun found _ => ?_
  refine isClean_ite (fun _ => isClean_error nofun) fun _ => ?_
  rw [hType]
  exact (isClean_relocateRanges hFormed source target fun _ hMem => hMem).bind fun _ _ =>
    isClean_ok _

omit hFormed in
theorem exists_left_of_forall₂ {α β : Type} {related : α → β → Prop} {firsts : List α}
    {seconds : List β} (hEach : List.Forall₂ related firsts seconds) {second : β}
    (hMem : second ∈ seconds) : ∃ first ∈ firsts, related first second := by
  induction hEach with
  | nil => cases hMem
  | cons hHead _ ih =>
    rcases List.mem_cons.mp hMem with rfl | hRest
    · exact ⟨_, List.mem_cons_self, hHead⟩
    · obtain ⟨first, hFirst, hRelated⟩ := ih hRest
      exact ⟨first, List.mem_cons_of_mem _ hFirst, hRelated⟩

/-- The entities of a relocated tree are those that lived there, under other names. -/
theorem entity_of_relocateTree {source : Slot} {stamp : Stamp} {entity : Entity}
    (hType : entity.type = source.type) {target : Name} {relocations : List Relocation}
    (hOk : relocateTree backend source.name stamp entity target = .ok relocations) :
    ∀ relocation ∈ relocations, relocation.entity = entity ∨
      ∃ slot before goal, slot.IsBelow source ∧ backend.rows.Holds slot before ∧
        slot.name.rebase? source.name target = some goal ∧
        relocation.entity = { before with name := goal } := by
  obtain ⟨_, floor, others, _, _, _, hOthers, rfl⟩ := relocateTree_parts hOk
  refine List.forall_mem_cons.mpr ⟨Or.inl rfl, fun relocation hMem => Or.inr ?_⟩
  rw [hType] at hOthers
  obtain ⟨found, hFound, hEach⟩ := relocateRanges_eq_ok hOthers
  obtain ⟨residents, rfl, hResidents⟩ := exists_residents hFormed hFound
  obtain ⟨dead, hDead, hRelocate⟩ := exists_left_of_forall₂ hEach hMem
  obtain ⟨resident, hResident, rfl⟩ := List.mem_map.mp hDead
  have hLives := hResidents.lives resident hResident
  obtain ⟨before, hDecode, hRest⟩ := Outcome.bind_eq_ok hRelocate
  have hSame : before = resident.entity :=
    Except.ok.inj ((decode_eq_ok hDecode).symm.trans hLives.decoded)
  obtain ⟨hName, _⟩ := hFormed.name_of_holds hLives.holds
  rw [hSame, hName] at hRest
  split at hRest
  next => cases hRest
  next goal hGoal =>
    obtain ⟨_, _, hLast⟩ := Outcome.bind_eq_ok hRest
    cases hLast
    exact ⟨resident.slot, resident.entity, goal, hResidents.inside resident hResident, hLives.holds,
      hGoal, rfl⟩

omit hFormed in
/-- Whatever a relocated tree consists of may be written, if the entity at its root may be. -/
theorem mayWrite_of_relocateTree {store : Store}
    (hFormed : store.backend.rows.IsFormed allowed known) {source : Slot} {modifier : String}
    {changes : List Change} (hMoved : Store.targetName source.name changes ≠ source.name)
    {entity : Entity} (hType : entity.type = source.type)
    (hRoot : Mutation.MayWrite store (.alter source.type source.name modifier changes) entity)
    {stamp : Stamp} {relocations : List Relocation}
    (hOk : relocateTree store.backend source.name stamp entity
      (Store.targetName source.name changes) = .ok relocations) :
    ∀ relocation ∈ relocations, Mutation.MayWrite store
      (.alter source.type source.name modifier changes) relocation.entity := by
  intro relocation hMem
  rcases entity_of_relocateTree hFormed hType hOk relocation hMem with
    hEq | ⟨place, before, goal, hBelow, hBefore, hGoal, hEq⟩
  · rw [hEq]
    exact hRoot
  · rw [hEq]
    exact .move hMoved hBelow hBefore hGoal

theorem isClean_liveInRanges (types : List EntityType) (path : List String) :
    IsClean (liveInRanges backend (types.map fun type => (type, Key.typed type path))) := by
  induction types with
  | nil => exact isClean_ok _
  | cons type rest ih =>
    exact (isClean_liveBelow hFormed type path).bind fun _ _ => ih.bind fun _ _ => isClean_ok _

theorem isClean_doomed (type : EntityType) (name : Name) (cascade : Bool) (current : Version) :
    IsClean (doomed backend type name cascade current) :=
  (isClean_liveInRanges hFormed _ _).bind fun _ _ =>
    isClean_ite (fun _ => isClean_error nofun) fun _ => isClean_ok _

end Catalog

namespace Sweep

variable {allowed : Stamp → Prop} {known : EntityId → Prop} {backend : Backend}

theorem isClean_ofTypes (hFormed : backend.rows.IsFormed allowed known) (policy : Policy)
    (types : List EntityType) : IsClean (ofTypes policy backend types) := by
  induction types with
  | nil => exact isClean_ok _
  | cons type rest ih =>
    refine (isClean_backend _).bind fun rows hRows => ?_
    obtain ⟨_, sweep, _, hSweep, _⟩ := exists_history hFormed.areVersions policy type
    rw [Backend.scan_eq_ok (Outcome.mapError_eq_ok hRows), hSweep]
    exact ih.bind fun _ _ => isClean_ok _

end Sweep

namespace Store

variable {store : Store} {allowed : Stamp → Prop} {known : EntityId → Prop}

theorem isClean_relocationBatch (stamp : Stamp) {relocations : List Relocation}
    (hSized : ∀ relocation ∈ relocations, relocation.entity.IsSized) :
    IsClean (Relocation.batch store stamp relocations) := by
  induction relocations with
  | nil => exact isClean_ok _
  | cons relocation rest ih =>
    obtain ⟨hFirst, hRest⟩ := List.forall_mem_cons.mp hSized
    exact ((isClean_putLive hFirst _ _).bind fun _ _ => isClean_ok _).bind fun _ _ =>
      (ih hRest).bind fun _ _ => isClean_ok _

section
variable (hFormed : store.backend.rows.IsFormed allowed known)
include hFormed

theorem isClean_loadForChange (type : EntityType) (name : Name) :
    IsClean (store.loadForChange type name) := by
  refine (Catalog.isClean_entity? hFormed type name).bind fun found _ => ?_
  cases found with
  | none => exact isClean_error nofun
  | some found => exact isClean_ok _

theorem endsCleanly_prepareAlter {type : EntityType} {name : Name} (hValid : name.IsValid)
    {modifier : String} {changes : List Change}
    (hSized : ∀ entity, Mutation.MayWrite store (.alter type name modifier changes) entity →
      entity.IsSized) : (prepareAlter type name modifier changes).EndsCleanly store := by
  refine .inspect_bind ((isClean_ensureOpen store).bind fun _ _ =>
    (isClean_checkDepth type name).bind fun _ _ => isClean_change _) fun _ hChecked => ?_
  obtain ⟨_, _, hChecked⟩ := Outcome.bind_eq_ok hChecked
  obtain ⟨_, hDepth, _⟩ := Outcome.bind_eq_ok hChecked
  let slot : Slot := ⟨type, name, checkDepth_eq_ok hDepth, hValid⟩
  refine endsCleanly_underLocks fun ticket locked hStays => ?_
  have hLocked : locked.backend.rows.IsFormed allowed known := hStays.backend ▸ hFormed
  refine .inspect_bind (isClean_loadForChange hLocked type name) fun found hLoad => ?_
  obtain ⟨stamp, current⟩ := found
  obtain ⟨resident, hSlot, rfl, rfl, hLives, _⟩ := @loadForChange_eq_ok locked _ _ slot hLocked _ _ hLoad
  have hHolds : locked.backend.rows.Holds slot resident.entity := hSlot ▸ hLives.holds
  simp only
  split
  next => exact endsCleanly_pure _
  next =>
    refine .inspect_bind ((isClean_change _).bind fun _ _ => isClean_ok _) fun updated hUpdated => ?_
    have hRoot : Mutation.MayWrite locked (.alter type name modifier changes) updated :=
      .alter hHolds hUpdated
    have hType : updated.type = slot.type := by
      rw [(changed_eq_ok hUpdated).1.type, Entity.type_of_decode hLives.decoded, hSlot]
    split
    next =>
      exact (endsCleanly_issueStamp _).bind fun _ _ _ =>
        .inspect_bind (isClean_putLive (hSized _ (.of_stays hStays hRoot)) _ _) fun _ _ =>
          endsCleanly_pure _
    next hMoved =>
      refine .inspect_bind (Catalog.isClean_relocateTree hLocked _ hType _) fun moves hMoves => ?_
      refine (endsCleanly_issueStamp _).bind fun _ _ _ =>
        .inspect_bind (isClean_relocationBatch _ fun relocation hMem => ?_) fun _ _ =>
          endsCleanly_pure _
      have hWrites := @Catalog.mayWrite_of_relocateTree _ _ locked hLocked slot modifier changes
        hMoved updated hType hRoot _ _ hMoves relocation hMem
      exact hSized _ (.of_stays hStays hWrites)

theorem endsCleanly_prepareDrop {type : EntityType} {name : Name} (hValid : name.IsValid)
    {cascade : Bool} : (prepareDrop type name cascade).EndsCleanly store := by
  refine .inspect_bind ((isClean_ensureOpen store).bind fun _ _ => isClean_checkDepth type name)
    fun _ hChecked => ?_
  obtain ⟨_, _, hDepth⟩ := Outcome.bind_eq_ok hChecked
  let root : Slot := ⟨type, name, checkDepth_eq_ok hDepth, hValid⟩
  refine endsCleanly_underLocks fun ticket locked hStays => ?_
  have hLocked : locked.backend.rows.IsFormed allowed known := hStays.backend ▸ hFormed
  refine .inspect_bind (Catalog.isClean_live? hLocked type name) fun live hLive => ?_
  cases live with
  | none => exact endsCleanly_pure _
  | some current =>
    have hFilter := @Catalog.live?_eq_ok _ root _ hLive
    obtain ⟨hNewest, hFlag⟩ := Option.filter_eq_some_iff.mp hFilter.symm
    refine .inspect_bind (Catalog.isClean_doomed hLocked type name cascade current)
      fun found hFound => ?_
    obtain ⟨residents, rfl, hSubtree⟩ :=
      @Catalog.doomed_eq_ok _ _ _ hLocked root _ _ hNewest hFlag _ hFound
    refine (endsCleanly_issueStamp _).bind fun stamp _ _ => .inspect_bind ?_ fun _ _ =>
      endsCleanly_pure _
    exact isClean_of_ok ⟨_, Catalog.tombstones_residents hSubtree.lives hLocked stamp⟩

theorem endsCleanly_prepareSweep (now : Millis) : (prepareSweep now).EndsCleanly store := by
  refine .inspect_bind (Sweep.isClean_ofTypes hFormed _ _) fun sweep _ => ?_
  split
  next => exact isClean_ok _
  next => exact endsCleanly_pure _

end

end Store

namespace Command

def MayWrite (store : Store) : Command → Entity → Prop
  | mutate mutation, entity => mutation.MayWrite store entity
  | collect, _ => False
  | sweep _, _ => False

variable {store : Store} {allowed : Stamp → Prop} {known : EntityId → Prop}
  (hFormed : store.backend.rows.IsFormed allowed known)
include hFormed

theorem endsCleanly_prepare {command : Command} (hValid : command.IsValid)
    (hSized : ∀ entity, command.MayWrite store entity → entity.IsSized) :
    command.prepare.EndsCleanly store := by
  have hReturns : ∀ {α : Type} {x : Action (Prepared α)} (f : α → Reply), x.EndsCleanly store →
      EndsCleanly (do return (← x).map f : Action (Prepared Reply)) store := fun f hEnds =>
    hEnds.bind fun _ _ _ => endsCleanly_pure _
  cases command with
  | mutate mutation =>
    cases mutation with
    | create name draft => exact hReturns _ (Store.endsCleanly_prepareCreate hFormed hSized)
    | alter type name modifier changes =>
      exact hReturns _ (Store.endsCleanly_prepareAlter hFormed hValid hSized)
    | drop type name cascade => exact hReturns _ (Store.endsCleanly_prepareDrop hFormed hValid)
  | collect =>
    refine hReturns _ (.inspect_bind (Store.isClean_ensureOpen store) fun _ _ => ?_)
    refine EndsCleanly.bind (isClean_ok _) fun now _ hNow => ?_
    cases hNow
    exact Store.endsCleanly_prepareSweep hFormed _
  | sweep now => exact hReturns _ (Store.endsCleanly_prepareSweep hFormed now)

theorem endsCleanly_perform {command : Command} (hValid : command.IsValid)
    (hSized : ∀ entity, command.MayWrite store entity → entity.IsSized) :
    command.perform.EndsCleanly store := by
  rw [EndsCleanly, run_perform]
  exact Store.endsCleanly_complete (endsCleanly_prepare hFormed hValid hSized)

end Command

/-! ### Opening and closing -/

namespace Store

theorem endsCleanly_close {store : Store} : close.EndsCleanly store := by
  refine EndsCleanly.bind (isClean_ok _) fun now _ hNow => ?_
  cases hNow
  split
  next => exact endsCleanly_pure _
  next =>
    refine EndsCleanly.bind (isClean_ok _) fun _ _ _ => ?_
    cases store.backend.flush with
    | error fault => exact isClean_error nofun
    | ok _ =>
      cases hClose : store.backend.close with
      | error fault => simp only; exact isClean_error nofun
      | ok backend => simp only; exact isClean_ok _

theorem isClean_highestId (backend : Backend) : IsClean (highestId backend) :=
  (isClean_backend _).bind fun _ _ => (isClean_backend _).bind fun _ _ => isClean_ok _

theorem isClean_idSource (strategy : IdStrategy) (seed : UInt64) (backend : Backend) :
    IsClean (idSource strategy seed backend) := by
  cases strategy with
  | random => exact isClean_ok _
  | sequential => exact (isClean_highestId backend).bind fun _ _ => isClean_ok _

theorem isClean_ofBackend (backend : Backend) (settings : Settings) (ids : IdSource)
    (clock : Millis) : IsClean (ofBackend backend settings ids clock) :=
  (isClean_mapError (fun _ hClass => by cases hClass) _).bind fun _ _ =>
    (isClean_highestId backend).bind fun _ _ => isClean_ok _

theorem isClean_openFrom (providers : Storage.Providers) (settings : Settings) (seed : UInt64)
    (clock : Millis) (folder : Storage.Folder) :
    IsClean (openFrom providers settings seed clock folder).1 := by
  unfold openFrom
  split
  next => exact isClean_error nofun
  next =>
    generalize providers.openBackend settings.backend ⟨settings.path, none⟩ folder = opened
    obtain ⟨found, left⟩ := opened
    cases found with
    | error fault => exact isClean_error nofun
    | ok backend =>
      have hStore := (isClean_idSource settings.idStrategy seed backend).bind fun ids _ =>
        isClean_ofBackend backend settings ids clock
      simp only
      split
      next => exact isClean_ok _
      next error hError => exact isClean_error (hStore error hError)

/-- Wherever a run leads, what is stored can be read, and no call comes upon anything illegible. -/
theorem Reachable.nothing_illegible {allowed : Store → Prop} {store : Store}
    (hReached : Reachable allowed store) (faults : List Call) :
    store.backend.rows.IsLegible ∧ (store.withFaults faults).ReadsCleanly ∧
    (∀ type name entity, (store.withFaults faults).load type name = .ok entity →
      entity.name = name ∧ entity.type = type) ∧
    (∀ command : Command, command.IsValid →
      (∀ entity, command.MayWrite (store.withFaults faults) entity → entity.IsSized) →
      IsClean (command.perform.runDuring faults store).1) ∧
    IsClean (Store.close.runDuring faults store).1 ∧
    (∀ strategy seed, IsClean (idSource strategy seed (store.withFaults faults).backend)) ∧
    (∀ settings ids clock,
      IsClean (ofBackend (store.withFaults faults).backend settings ids clock)) ∧
    ∀ providers settings seed clock folder,
      IsClean (openFrom providers settings seed clock folder).1 := by
  have hFormed : (store.withFaults faults).backend.rows.IsFormed (fun _ => True) fun _ => True :=
    hReached.isFormed
  refine ⟨hReached.isFormed.isLegible, readsCleanly hFormed, fun _ _ _ hLoad =>
    name_of_load hFormed hLoad, fun command hValid hSized => ?_, endsCleanly_close,
    fun _ _ => isClean_idSource _ _ _, fun _ _ _ => isClean_ofBackend _ _ _ _,
    isClean_openFrom⟩
  exact command.endsCleanly_perform hFormed hValid hSized

end Store

namespace Sample

def describeLake : Command := .mutate (.alter .metalake lake "me" [.updateComment "blue"])

/-- The metalake with its comment. -/
def describedLake : Except StoreError Entity := do
  store.changed "me" [.updateComment "blue"] (← store.load .metalake lake)

theorem isSized_described {entity : Entity} (hWrites : describeLake.MayWrite store entity) :
    entity.IsSized := by
  have hLake : (describedLake.toOption.all fun found => decide found.IsSized) = true := by
    decide +kernel
  have hLoaded : (store.load lakeSlot.type lakeSlot.name).isOk = true := by decide +kernel
  obtain ⟨held, hHeld⟩ := Outcome.exists_of_isOk hLoaded
  have hMutation : Mutation.MayWrite store
    (.alter .metalake lake "me" [.updateComment "blue"]) entity := hWrites
  generalize hAlter : Mutation.alter .metalake lake "me" [.updateComment "blue"] = mutation
    at hMutation
  cases hMutation with
  | create => cases hAlter
  | @alter slot before _ _ _ holds changed =>
    obtain ⟨hType, hName, rfl, rfl⟩ := Mutation.alter.inj hAlter
    have hSlot : slot = lakeSlot := Slot.eq_of_parts hType.symm hName.symm
    subst hSlot
    have hSame : before = held := holds.entity_eq (Store.load_eq_ok hHeld)
    have hDescribed : describedLake = .ok entity := by
      have hLoad : store.load .metalake lake = .ok held := hHeld
      rw [describedLake, hLoad, ← hSame]
      exact changed
    rw [hDescribed] at hLake
    exact of_decide_eq_true hLake
  | move renames =>
    obtain ⟨_, hName, _, hChanges⟩ := Mutation.alter.inj hAlter
    rw [← hName, ← hChanges] at renames
    exact absurd rfl renames

/-- The rows of the sample can be read, and the metalake can be given a comment while scans fail. -/
theorem nothing_illegible_store :
    store.backend.rows.IsLegible ∧ (store.withFaults [.scan]).ReadsCleanly ∧
      IsClean (describeLake.perform.runDuring [] store).1 := by
  obtain ⟨hLegible, hReads, _⟩ := reachable_store.nothing_illegible [.scan]
  obtain ⟨_, _, _, hCommands, _⟩ := reachable_store.nothing_illegible []
  refine ⟨hLegible, hReads, hCommands describeLake (by decide +kernel) fun entity hWrites => ?_⟩
  rw [Store.withFaults_nil reachable_store.isSteady] at hWrites
  exact isSized_described hWrites

end Sample

end VersionedCatalog
