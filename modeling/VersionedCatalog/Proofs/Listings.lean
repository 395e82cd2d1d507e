import VersionedCatalog.Proofs.KeyOrder
import VersionedCatalog.Proofs.Reads

/-! # Listing and loading agree

A namespace is listed by one scan that goes over the versions of many slots, and a name is loaded by
one look at the last version of its slot. The scan finds the residents of the namespace, each once
(`Catalog.exists_residents_of_liveBelow`), and between two slots of one namespace the order of keys
is that of their leaves (`Slot.key_lt_iff_of_scope`). So what is listed is what can be loaded there,
ascending (`Store.exists_lists`), and the children of a namespace are the lists of the types that
live in it, one after the other (`Store.Reachable.lists_what_loads`).
-/

namespace VersionedCatalog

open Storage (Rows Backend)

theorem EntityType.mem_atDepth_iff {type : EntityType} {depth : Nat} :
    type ∈ atDepth depth ↔ type.depth = depth := by
  rw [atDepth, List.mem_filter, decide_eq_true_eq]
  have hAll : type ∈ all := by cases type <;> decide
  exact and_iff_right hAll

namespace Slot

variable {slot other : Slot}

theorem path_eq_levels (slot : Slot) : slot.path = slot.name.scope.levels ++ [slot.name.leaf] := rfl

/-- The slots under the stem of a namespace are those in it. -/
theorem isPrefix_path_iff {type : EntityType} {scope : Namespace} (hDepth : scope.depth = type.depth) :
    slot.type = type ∧ scope.levels <+: slot.path ↔ slot.type = type ∧ slot.name.scope = scope := by
  have hShort : scope.levels.length ≤ type.depth + 1 := Nat.le_succ_of_le (Nat.le_of_eq hDepth)
  have hKeys := @children_isPrefix_key_iff type scope hDepth slot .zero
  rw [Key.children, typed_isPrefix_key_iff hShort] at hKeys
  rw [eq_comm, hKeys, eq_comm, @eq_comm Namespace]

/-- Different slots of one type in one namespace have the order of their leaves. -/
theorem key_lt_iff_of_scope (hType : slot.type = other.type)
    (hScope : slot.name.scope = other.name.scope) (hApart : slot ≠ other) {stamp later : Stamp} :
    slot.key stamp < other.key later ↔
      Utf8.encode slot.name.leaf < Utf8.encode other.name.leaf := by
  have hKeys : ∀ (slot : Slot) (stamp : Stamp), slot.key stamp =
      slot.type.code :: (slot.name.scope.levels.flatMap Key.part ++
        (Key.part slot.name.leaf ++ stamp.bytes)) := by
    intro slot stamp
    show Key.version (Key.typed slot.type slot.path) stamp = _
    rw [Key.version, Key.typed, path_eq_levels, List.flatMap_append, List.flatMap_singleton,
      List.cons_append, List.append_assoc]
  have hLeaf : slot.name.leaf ≠ other.name.leaf := by
    intro hSame
    have hPaths : slot.path = other.path := by
      rw [path_eq_levels, path_eq_levels, hScope, hSame]
    exact hApart (eq_of_path hType hPaths)
  rw [hKeys, hKeys, hType, hScope, List.cons_lt_cons_iff, Key.parts_append_lt_iff _ _ rfl,
    Key.part_append_lt_iff]
  simp [hLeaf, List.lt_irrefl]

end Slot

namespace Catalog

theorem decodeAll_residents {rows : Rows} {type : EntityType} {residents : List Resident}
    (hLives : ∀ resident ∈ residents, resident.Lives rows)
    (hTypes : ∀ resident ∈ residents, resident.slot.type = type) :
    decodeAll type (residents.map (·.version)) = .ok (residents.map (·.entity)) := by
  induction residents with
  | nil => rfl
  | cons resident rest ih =>
    obtain ⟨hFirst, hRest⟩ := List.forall_mem_cons.mp hLives
    obtain ⟨hType, hOthers⟩ := List.forall_mem_cons.mp hTypes
    have hDecode : decode type resident.version = .ok resident.entity := by
      rw [decode, ← hType, hFirst.decoded]
      rfl
    simp [decodeAll, hDecode, ih hRest hOthers]

end Catalog

namespace Store

/-- What a namespace is listed with for a type: the entities that are loaded under their names there,
ascending by the bytes of their leaves. -/
structure Lists (store : Store) (scope : Namespace) (type : EntityType) (found : List Entity) :
    Prop where
  listed : store.list scope type = .ok found
  loaded : ∀ entity, entity ∈ found ↔
    store.load type entity.name = .ok entity ∧ entity.name.scope = scope
  ascending : found.Pairwise fun a b => Utf8.encode a.name.leaf < Utf8.encode b.name.leaf

variable {store : Store}

/-- What is ascending by leaves has nothing twice. -/
theorem nodup_of_leaves {found : List Entity}
    (hAscending : found.Pairwise fun a b => Utf8.encode a.name.leaf < Utf8.encode b.name.leaf) :
    found.Nodup := by
  refine hAscending.imp ?_
  intro a b hLess hSame
  rw [hSame] at hLess
  exact List.lt_irrefl _ hLess

/-- A list is told by what is in it. -/
theorem Lists.eq_of_mem {scope : Namespace} {type : EntityType} {found others : List Entity}
    (hLists : store.Lists scope type found)
    (hAscending : others.Pairwise fun a b => Utf8.encode a.name.leaf < Utf8.encode b.name.leaf)
    (hSame : ∀ entity, entity ∈ found ↔ entity ∈ others) : found = others := by
  have hPerm := (List.perm_ext_iff_of_nodup (nodup_of_leaves hLists.ascending)
    (nodup_of_leaves hAscending)).mpr hSame
  refine hPerm.eq_of_pairwise ?_ hLists.ascending hAscending
  intro a b _ _ hLess hMore
  exact absurd (List.lt_trans hLess hMore) (List.lt_irrefl _)

theorem list_of_other_depth (hOpen : store.closed = false) {scope : Namespace} {type : EntityType}
    (hDepth : scope.depth ≠ type.depth) : store.list scope type = .error (.scopeDepth type scope) := by
  have hEnsure := ensureOpen_eq_ok_iff.mpr hOpen
  simp [list, hEnsure, hDepth]

section
variable {allowed : Stamp → Prop} {known : EntityId → Prop}
  (hFormed : store.backend.rows.IsFormed allowed known) (hSteady : store.IsSteady)
  (hOpen : store.closed = false)
include hFormed hSteady hOpen

/-- A list is made of the residents of the namespace, in the order of their keys. -/
theorem exists_list_residents {scope : Namespace} {type : EntityType}
    (hDepth : scope.depth = type.depth) :
    ∃ residents : List Resident, store.list scope type = .ok (residents.map (·.entity)) ∧
      AreResidents store.backend.rows
        (fun slot => slot.type = type ∧ slot.name.scope = scope) residents ∧
      residents.Pairwise fun a b =>
        a.slot.key a.version.stamp < b.slot.key b.version.stamp := by
  have hLength : scope.levels.length ≤ type.depth + 1 := Nat.le_succ_of_le (Nat.le_of_eq hDepth)
  obtain ⟨versions, hVersions⟩ := Catalog.exists_liveBelow hFormed type scope.levels
  rw [Backend.permit_of_open (hSteady.isOpen hOpen) hSteady.faults] at hVersions
  obtain ⟨residents, hMap, hFound⟩ :=
    Catalog.exists_residents_of_liveBelow hFormed hLength hVersions
  have hResidents := hFound.congr fun slot => Slot.isPrefix_path_iff hDepth
  have hSame : versions = residents.map (·.version) := by
    have hSnd := congrArg (List.map Prod.snd) hMap
    rw [List.map_map, List.map_map] at hSnd
    exact (List.map_id versions).symm.trans hSnd
  have hDecoded := Catalog.decodeAll_residents hResidents.lives fun resident hMem =>
    (hResidents.inside resident hMem).1
  refine ⟨residents, ?_, hResidents, ?_⟩
  · rw [← hSame] at hDecoded
    have hEnsure := ensureOpen_eq_ok_iff.mpr hOpen
    simp [list, hEnsure, hDepth, Key.children, hVersions, hDecoded]
  · have hAscending := Catalog.liveBelow_ascending hFormed hVersions
    rw [hSame, List.pairwise_map] at hAscending
    refine hAscending.imp_of_mem ?_
    intro a b hA hB hLess
    rw [Version.toRow, Version.toRow, (hResidents.lives a hA).stem hFormed,
      (hResidents.lives b hB).stem hFormed] at hLess
    exact hLess

theorem exists_lists {scope : Namespace} {type : EntityType} (hDepth : scope.depth = type.depth) :
    ∃ found, store.Lists scope type found := by
  obtain ⟨residents, hListed, hResidents, hAscending⟩ :=
    exists_list_residents hFormed hSteady hOpen hDepth
  have hName : ∀ resident ∈ residents, resident.entity.name = resident.slot.name := by
    intro resident hMem
    exact (hFormed.name_of_holds (hResidents.lives resident hMem).holds).1
  refine ⟨_, hListed, ?_, ?_⟩
  · intro entity
    constructor
    · intro hMem
      obtain ⟨resident, hResident, rfl⟩ := List.mem_map.mp hMem
      obtain ⟨rfl, rfl⟩ := hResidents.inside resident hResident
      rw [hName resident hResident]
      exact ⟨load_of_holds hFormed hSteady hOpen (hResidents.lives resident hResident).holds, rfl⟩
    · rintro ⟨hLoad, hScope⟩
      obtain ⟨slot, hType, hSlot, hHolds⟩ := slot_of_load hFormed hLoad
      obtain ⟨resident, hResident, rfl⟩ :=
        hResidents.complete slot ⟨hType, by rw [hSlot, hScope]⟩ (.of_holds hHolds)
      have hSame := (hResidents.lives resident hResident).holds.entity_eq hHolds
      exact List.mem_map.mpr ⟨resident, hResident, hSame⟩
  · -- the versions of one namespace have the order of their slots, and no slot comes twice
    have hOnce := hResidents.once
    rw [List.Nodup, List.pairwise_map] at hOnce
    rw [List.pairwise_map]
    refine (hAscending.and hOnce).imp_of_mem ?_
    rintro a b hA hB ⟨hLess, hApart⟩
    obtain ⟨hTypeA, hScopeA⟩ := hResidents.inside a hA
    obtain ⟨hTypeB, hScopeB⟩ := hResidents.inside b hB
    rw [hName a hA, hName b hB]
    exact (Slot.key_lt_iff_of_scope (hTypeA.trans hTypeB.symm) (hScopeA.trans hScopeB.symm)
      hApart).mp hLess

end

/-- What is listed depends on what is loaded. -/
theorem list_congr {other : Store} {allowed : Stamp → Prop} {known : EntityId → Prop}
    (hFormed : store.backend.rows.IsFormed allowed known)
    (hOtherFormed : other.backend.rows.IsFormed allowed known) (hSteady : store.IsSteady)
    (hOther : other.IsSteady) (hClosed : other.closed = store.closed) {scope : Namespace}
    {type : EntityType} (hSame : ∀ name, other.load type name = store.load type name) :
    other.list scope type = store.list scope type := by
  cases hOpen : store.closed with
  | true =>
    rw [list, list, ensureOpen_of_closed hOpen, ensureOpen_of_closed (hClosed.trans hOpen)]
    rfl
  | false =>
    have hOtherOpen := hClosed.trans hOpen
    by_cases hDepth : scope.depth = type.depth
    · obtain ⟨found, hFound⟩ := exists_lists hFormed hSteady hOpen hDepth
      obtain ⟨others, hOthers⟩ := exists_lists hOtherFormed hOther hOtherOpen hDepth
      have hEqual : found = others := hFound.eq_of_mem hOthers.ascending fun entity => by
        rw [hFound.loaded, hOthers.loaded, hSame]
      rw [hFound.listed, hOthers.listed, hEqual]
    · rw [list_of_other_depth hOpen hDepth, list_of_other_depth hOtherOpen hDepth]

theorem listTypes_of_list {scope : Namespace} {types : List EntityType}
    {found : EntityType → List Entity}
    (hLists : ∀ type ∈ types, store.list scope type = .ok (found type)) :
    store.listTypes scope types =
      .ok (types.flatMap fun type => (found type).map fun entity => (type, entity.name)) := by
  induction types with
  | nil => rfl
  | cons type rest ih =>
    obtain ⟨hFirst, hRest⟩ := List.forall_mem_cons.mp hLists
    simp [listTypes, hFirst, ih hRest]

theorem load_of_closed (hClosed : store.closed = true) (type : EntityType) (name : Name) :
    store.load type name = .error (.backend .closed) := by
  rw [load, ensureOpen_of_closed hClosed]
  rfl

theorem list_of_closed (hClosed : store.closed = true) (scope : Namespace) (type : EntityType) :
    store.list scope type = .error (.backend .closed) := by
  rw [list, ensureOpen_of_closed hClosed]
  rfl

/-- Where some type lives, a closed store does not say what is there. -/
theorem listChildren_of_closed (hClosed : store.closed = true) {scope : Namespace}
    {type : EntityType} (hDepth : scope.depth = type.depth) :
    store.listChildren scope = .error (.backend .closed) := by
  have hMem := EntityType.mem_atDepth_iff.mpr hDepth.symm
  rw [listChildren]
  cases hTypes : EntityType.atDepth scope.depth with
  | nil =>
    rw [hTypes] at hMem
    cases hMem
  | cons first rest =>
    rw [listTypes, list_of_closed hClosed]
    rfl

/-- **Listing agrees with loading.**  Wherever a run leads, a namespace is listed with exactly the
entities that are loaded under their names there, each once and ascending, and its children are these
lists, one type after the other. In a closed store there is neither the one nor the other. -/
theorem Reachable.lists_what_loads {allowed : Store → Prop} {store : Store}
    (hReached : Reachable allowed store) (scope : Namespace) :
    (store.closed = false → ∃ found : EntityType → List Entity,
      (∀ type, scope.depth = type.depth → store.Lists scope type (found type)) ∧
      store.listChildren scope = .ok ((EntityType.atDepth scope.depth).flatMap fun type =>
        (found type).map fun entity => (type, entity.name))) ∧
    (store.closed = true → ∀ type, scope.depth = type.depth →
      store.list scope type = .error (.backend .closed) ∧
      store.listChildren scope = .error (.backend .closed) ∧
      ∀ name, store.load type name = .error (.backend .closed)) := by
  constructor
  · intro hOpen
    have hLists : ∀ type : EntityType, scope.depth = type.depth →
        ∃ found, store.Lists scope type found := fun type =>
      exists_lists hReached.isFormed hReached.isSteady hOpen
    choose! found hFound using hLists
    refine ⟨found, hFound, listTypes_of_list ?_⟩
    intro type hType
    exact (hFound type (EntityType.mem_atDepth_iff.mp hType).symm).listed
  · intro hClosed type hDepth
    exact ⟨list_of_closed hClosed scope type, listChildren_of_closed hClosed hDepth,
      load_of_closed hClosed type⟩

end Store

namespace Sample

/-- In the store of the sample the metalake has one catalog in it, which is what its name loads. -/
theorem lists_store : store.closed = false ∧
    ∃ found, store.Lists ⟨["lake"]⟩ .catalog found ∧ found.map (·.name) = [hiveSlot.name] ∧
      store.listChildren ⟨["lake"]⟩ = .ok [(.catalog, hiveSlot.name)] := by
  have hOpen : store.closed = false := by decide +kernel
  obtain ⟨found, hFound, hChildren⟩ := (reachable_store.lists_what_loads ⟨["lake"]⟩).1 hOpen
  have hCatalogs := hFound .catalog rfl
  have hNames : (store.list ⟨["lake"]⟩ .catalog).toOption.map (·.map (·.name)) =
      some [hiveSlot.name] := by
    decide +kernel
  rw [hCatalogs.listed] at hNames
  have hOnly : (found .catalog).map (·.name) = [hiveSlot.name] := Option.some.inj hNames
  refine ⟨hOpen, found .catalog, hCatalogs, hOnly, ?_⟩
  have hTypes : EntityType.atDepth (Namespace.mk ["lake"]).depth = [.catalog] := by decide
  have hPairs := congrArg (List.map (EntityType.catalog, ·)) hOnly
  rw [List.map_map] at hPairs
  rw [hChildren, hTypes, List.flatMap_singleton]
  exact congrArg Except.ok hPairs

end Sample

end VersionedCatalog
