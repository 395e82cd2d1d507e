import Mathlib.Data.List.Nodup
import VersionedCatalog.Proofs.Lookups
import VersionedCatalog.Proofs.Soundness
import VersionedCatalog.Store.Removal

/-! # Subtrees

The residents of a subtree are the live slots at its root and below it, each with its newest version
and the entity that this version says. Going through the ranges of descendants finds the residents
below the root, each once (`Catalog.exists_residents`). In sound rows the subtree of a live slot
is closed: of every resident but the root the parent is a resident too
(`IsSubtree.exists_parent`).
-/

namespace VersionedCatalog

open Storage (Rows Backend)

structure Resident where
  slot : Slot
  version : Version
  entity : Entity

structure Resident.Lives (rows : Rows) (resident : Resident) : Prop where
  newest : rows.newest? resident.slot = some resident.version
  live : resident.version.isLive = true
  decoded : Entity.decode resident.slot.type resident.version.payload = .ok resident.entity

theorem Resident.Lives.holds {rows : Rows} {resident : Resident} (hLives : resident.Lives rows) :
    rows.Holds resident.slot resident.entity :=
  ⟨resident.version, hLives.newest, hLives.live, hLives.decoded⟩

theorem Resident.Lives.isLive {rows : Rows} {resident : Resident} (hLives : resident.Lives rows) :
    rows.IsLive resident.slot := .of_holds hLives.holds

theorem Resident.Lives.stem {allowed : Stamp → Prop} {known : EntityId → Prop} {rows : Rows}
    (hFormed : rows.IsFormed allowed known) {resident : Resident} (hLives : resident.Lives rows) :
    resident.version.stem = resident.slot.stem :=
  (Rows.hasVersion_of_newest? hFormed hLives.newest).stem

/-- A live slot has a resident. -/
theorem Resident.exists_of_newest? {allowed : Stamp → Prop} {known : EntityId → Prop} {rows : Rows}
    (hFormed : rows.IsFormed allowed known) {slot : Slot} {version : Version}
    (hNewest : rows.newest? slot = some version) (hLive : version.isLive = true) :
    ∃ resident : Resident, resident.slot = slot ∧ resident.version = version ∧
      resident.Lives rows := by
  obtain ⟨entity, ⟨found, hFound, _, hDecode⟩, _⟩ := hFormed.holds_of_isLive ⟨version, hNewest, hLive⟩
  cases Option.some.inj (hNewest.symm.trans hFound)
  exact ⟨⟨slot, version, entity⟩, rfl, rfl, hNewest, hLive, hDecode⟩

/-- The residents of a range of slots are the live ones in it, each once. -/
structure AreResidents (rows : Rows) (range : Slot → Prop) (residents : List Resident) : Prop where
  lives : ∀ resident ∈ residents, resident.Lives rows
  inside : ∀ resident ∈ residents, range resident.slot
  complete : ∀ slot, range slot → rows.IsLive slot → ∃ resident ∈ residents, resident.slot = slot
  once : (residents.map (·.slot)).Nodup

namespace AreResidents

variable {rows : Rows} {range other : Slot → Prop} {residents others : List Resident}

theorem congr (hResidents : AreResidents rows range residents)
    (hSame : ∀ slot, range slot ↔ other slot) : AreResidents rows other residents :=
  ⟨hResidents.lives, fun resident hMem => (hSame _).mp (hResidents.inside resident hMem),
    fun slot hSlot => hResidents.complete slot ((hSame slot).mpr hSlot), hResidents.once⟩

theorem append (hFirst : AreResidents rows range residents)
    (hSecond : AreResidents rows other others) (hApart : ∀ slot, range slot → ¬ other slot) :
    AreResidents rows (fun slot => range slot ∨ other slot) (residents ++ others) := by
  refine ⟨fun resident hMem => ?_, fun resident hMem => ?_, fun slot hSlot hLive => ?_, ?_⟩
  · exact (List.mem_append.mp hMem).elim (hFirst.lives resident) (hSecond.lives resident)
  · exact (List.mem_append.mp hMem).imp (hFirst.inside resident) (hSecond.inside resident)
  · rcases hSlot with hRange | hOther
    · obtain ⟨resident, hMem, hEq⟩ := hFirst.complete slot hRange hLive
      exact ⟨resident, List.mem_append_left _ hMem, hEq⟩
    · obtain ⟨resident, hMem, hEq⟩ := hSecond.complete slot hOther hLive
      exact ⟨resident, List.mem_append_right _ hMem, hEq⟩
  · rw [List.map_append, List.nodup_append]
    refine ⟨hFirst.once, hSecond.once, fun slot hSlot place hPlace hEq => ?_⟩
    obtain ⟨resident, hMem, rfl⟩ := List.mem_map.mp hSlot
    obtain ⟨found, hFound, rfl⟩ := List.mem_map.mp hPlace
    exact hApart _ (hFirst.inside resident hMem) (hEq ▸ hSecond.inside found hFound)

theorem singleton {resident : Resident} (hLives : resident.Lives rows) :
    AreResidents rows (fun slot => slot = resident.slot) [resident] :=
  ⟨List.forall_mem_singleton.mpr hLives, List.forall_mem_singleton.mpr rfl,
    fun _ hSlot _ => ⟨resident, List.mem_cons_self, hSlot.symm⟩, List.nodup_singleton _⟩

theorem nil (hNone : ∀ slot, ¬ range slot) : AreResidents rows range [] :=
  ⟨fun _ hMem => (List.not_mem_nil hMem).elim, fun _ hMem => (List.not_mem_nil hMem).elim,
    fun slot hSlot => absurd hSlot (hNone slot), List.nodup_nil⟩

/-- In sound rows residents have different ids. -/
theorem ids (hResidents : AreResidents rows range residents) (hSound : rows.IsSound) :
    (residents.map (·.entity.id)).Nodup := by
  have hOnce := hResidents.once
  rw [List.Nodup, List.pairwise_map] at hOnce ⊢
  refine hOnce.imp_of_mem fun hA hB hSlots hIds => hSlots ?_
  exact hSound.slot_eq_of_id (hResidents.lives _ hA).holds (hResidents.lives _ hB).holds hIds

end AreResidents

namespace Catalog

variable {backend : Backend} {allowed : Stamp → Prop} {known : EntityId → Prop}

/-- How a version is found that is a resident's. -/
def doom (resident : Resident) : Doomed := (resident.slot.type, resident.version)

/-- What is alive in one range. -/
theorem exists_residents_of_liveBelow (hFormed : backend.rows.IsFormed allowed known)
    {type : EntityType} {path : List String} (hLength : path.length ≤ type.depth + 1)
    {versions : List Version}
    (hOk : liveBelow backend (Key.typed type path) = .ok versions) :
    ∃ residents, versions.map (fun version => (type, version)) = residents.map doom ∧
      AreResidents backend.rows (fun slot => slot.type = type ∧ path <+: slot.path) residents := by
  have hMem := mem_liveBelow_iff hFormed hLength hOk
  have hApart := liveBelow_pairwise hFormed hOk
  -- every version found has a resident, and these are as many and in the same order
  have hEach : ∀ version ∈ versions, ∃ resident : Resident, resident.version = version ∧
      resident.Lives backend.rows ∧ resident.slot.type = type ∧ path <+: resident.slot.path := by
    intro version hVersion
    obtain ⟨slot, hType, hPath, hNewest, hLive⟩ := (hMem version).mp hVersion
    obtain ⟨resident, rfl, hSame, hLives⟩ := Resident.exists_of_newest? hFormed hNewest hLive
    exact ⟨resident, hSame, hLives, hType, hPath⟩
  obtain ⟨residents, hVersions, hAll⟩ : ∃ residents : List Resident,
      residents.map (·.version) = versions ∧ ∀ resident ∈ residents,
        resident.Lives backend.rows ∧ resident.slot.type = type ∧ path <+: resident.slot.path := by
    clear hMem hApart hOk
    induction versions with
    | nil => exact ⟨[], rfl, fun _ hMem => (List.not_mem_nil hMem).elim⟩
    | cons version rest ih =>
      obtain ⟨⟨resident, hVersion, hGood⟩, hRest⟩ := List.forall_mem_cons.mp hEach
      obtain ⟨residents, hVersions, hAll⟩ := ih hRest
      exact ⟨resident :: residents, by rw [List.map_cons, hVersion, hVersions],
        List.forall_mem_cons.mpr ⟨hGood, hAll⟩⟩
  refine ⟨residents, ?_, fun resident hMem => (hAll resident hMem).1,
    fun resident hMem => (hAll resident hMem).2, fun slot hSlot hLive => ?_, ?_⟩
  · rw [← hVersions, List.map_map]
    refine List.map_congr_left fun resident hMem => ?_
    rw [doom, (hAll resident hMem).2.1]
    rfl
  · obtain ⟨version, hNewest, hFlag⟩ := hLive
    have hFound := (hMem version).mpr ⟨slot, hSlot.1, hSlot.2, hNewest, hFlag⟩
    rw [← hVersions] at hFound
    obtain ⟨resident, hResident, rfl⟩ := List.mem_map.mp hFound
    have hStem := (hAll resident hResident).1.stem hFormed
    rw [(Rows.hasVersion_of_newest? hFormed hNewest).stem] at hStem
    exact ⟨resident, hResident, (Slot.stem_injective hStem).symm⟩
  · rw [← hVersions, List.pairwise_map] at hApart
    rw [List.Nodup, List.pairwise_map]
    refine hApart.imp_of_mem fun hA hB hStems hSlots => hStems ?_
    rw [(hAll _ hA).1.stem hFormed, (hAll _ hB).1.stem hFormed, hSlots]

theorem exists_residents_of_types (hFormed : backend.rows.IsFormed allowed known)
    {path : List String} {types : List EntityType}
    (hLength : ∀ type ∈ types, path.length ≤ type.depth + 1)
    (hNodup : types.Nodup) {found : List Doomed}
    (hOk : liveInRanges backend (types.map fun type => (type, Key.typed type path)) = .ok found) :
    ∃ residents, found = residents.map doom ∧
      AreResidents backend.rows (fun slot => slot.type ∈ types ∧ path <+: slot.path) residents := by
  induction types generalizing found with
  | nil =>
    cases hOk
    exact ⟨[], rfl, .nil fun slot hSlot => List.not_mem_nil hSlot.1⟩
  | cons type rest ih =>
    obtain ⟨versions, hVersions, hRest⟩ := Outcome.bind_eq_ok hOk
    obtain ⟨others, hOthers, hLast⟩ := Outcome.bind_eq_ok hRest
    cases hLast
    obtain ⟨hFirst, hLengths⟩ := List.forall_mem_cons.mp hLength
    obtain ⟨hNew, hRestNodup⟩ := List.nodup_cons.mp hNodup
    obtain ⟨residents, hMap, hResidents⟩ := exists_residents_of_liveBelow hFormed hFirst hVersions
    obtain ⟨more, rfl, hMore⟩ := ih hLengths hRestNodup hOthers
    refine ⟨residents ++ more, by rw [hMap, List.map_append], (hResidents.append hMore ?_).congr ?_⟩
    · rintro slot ⟨rfl, _⟩ ⟨hIn, _⟩
      exact hNew hIn
    · intro slot
      rw [List.mem_cons, or_and_right]

/-- The ranges of descendants hold what lies below a slot. -/
theorem exists_residents (hFormed : backend.rows.IsFormed allowed known) {root : Slot}
    {found : List Doomed}
    (hOk : liveInRanges backend (Key.descendants root.type root.name) = .ok found) :
    ∃ residents, found = residents.map doom ∧
      AreResidents backend.rows (fun slot => slot.IsBelow root) residents := by
  have hLength : ∀ type ∈ root.type.deeper, root.path.length ≤ type.depth + 1 := by
    intro type hMem
    have hDeeper := EntityType.mem_deeper_iff.mp hMem
    rw [root.length_path]
    omega
  have hNodup : root.type.deeper.Nodup := List.Nodup.sublist List.filter_sublist (by decide)
  obtain ⟨residents, hFound, hResidents⟩ := exists_residents_of_types hFormed hLength hNodup hOk
  exact ⟨residents, hFound, hResidents.congr fun slot => Slot.isBelow_iff_deeper.symm⟩

end Catalog

/-- The residents at a slot and below it. -/
abbrev IsSubtree (rows : Rows) (root : Slot) (residents : List Resident) : Prop :=
  AreResidents rows (fun slot => slot = root ∨ slot.IsBelow root) residents

namespace IsSubtree

variable {rows : Rows} {root : Slot} {residents : List Resident}

/-- A subtree is its root and what lies below. -/
theorem cons {resident : Resident} (hLives : resident.Lives rows)
    (hBelow : AreResidents rows (fun slot => slot.IsBelow resident.slot) residents) :
    IsSubtree rows resident.slot (resident :: residents) := by
  refine (AreResidents.singleton hLives).append hBelow ?_
  rintro slot rfl hSelf
  exact hSelf.2 rfl

/-- The children of residents are residents if they are live. -/
theorem exists_child (hSubtree : IsSubtree rows root residents) {resident : Resident}
    (hMem : resident ∈ residents) {child : Slot} (hChild : resident.slot.IsParentOf child)
    (hLive : rows.IsLive child) : ∃ other ∈ residents, other.slot = child := by
  refine hSubtree.complete child (Or.inr ?_) hLive
  obtain ⟨hPrefix, hNe⟩ := hChild.isBelow
  rcases hSubtree.inside resident hMem with hRoot | ⟨hAbove, hOther⟩
  · rw [← hRoot]
    exact ⟨hPrefix, hNe⟩
  · refine ⟨hAbove.trans hPrefix, fun hEq => ?_⟩
    have hLength := hAbove.length_le
    have hLonger := hPrefix.length_le
    exact hOther (hAbove.eq_of_length (by rw [hEq] at hLength ⊢; omega))

/-- The parent of a resident is a resident, unless the resident is the root. -/
theorem exists_parent (hSubtree : IsSubtree rows root residents) (hSound : rows.IsSound)
    {resident : Resident} (hMem : resident ∈ residents) (hBelow : resident.slot.IsBelow root) :
    ∃ other ∈ residents, other.slot.IsParentOf resident.slot := by
  obtain ⟨parent, hParent, hAround⟩ := hBelow.parent
  have hLive := hSound.parents hParent (hSubtree.lives resident hMem).isLive
  obtain ⟨other, hOther, rfl⟩ := hSubtree.complete parent hAround hLive
  exact ⟨other, hOther, hParent⟩

end IsSubtree

end VersionedCatalog
