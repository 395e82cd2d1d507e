import Mathlib.Logic.ExistsUnique
import VersionedCatalog.Proofs.Newest

/-! # Sound rows

Rows are sound when they have their shape, every live slot has a live parent and the index leads
from every id to the slot that holds an entity with this id, and from no other id anywhere. No two
live slots then hold entities of one id, and nothing is live below a slot that is not.

What soundness is for does not speak of the shape of rows: every live entity but a metalake has a
live parent (`Rows.IsRooted`), and ids and live entities belong to each other (`Rows.IsIndexed`).
-/

namespace VersionedCatalog.Storage.Rows

structure IsSound (rows : Rows) : Prop where
  shaped : rows.IsShaped
  parents : ∀ {parent slot : Slot}, parent.IsParentOf slot → rows.IsLive slot → rows.IsLive parent
  index : ∀ {id : EntityId} {stem : Bytes}, rows.get? (Key.id id) = some stem ↔
    ∃ slot entity, rows.Holds slot entity ∧ entity.id = id ∧ stem = slot.stem

/-- Every live slot that is not a metalake has a live parent. -/
def IsRooted (rows : Rows) : Prop :=
  ∀ slot : Slot, rows.IsLive slot → slot.type ≠ .metalake →
    ∃ parent : Slot, parent.IsParentOf slot ∧ rows.IsLive parent

/-- The index has a row for an id exactly if one live entity has the id, and leads to its stem. -/
structure IsIndexed (rows : Rows) : Prop where
  readable : ∀ slot : Slot, rows.IsLive slot → ∃ entity, rows.Holds slot entity
  rowed : ∀ id : EntityId, (∃ stem, rows.get? (Key.id id) = some stem) ↔
    ∃! slot : Slot, ∃ entity, rows.Holds slot entity ∧ entity.id = id
  stems : ∀ (slot : Slot) (entity : Entity) (stem : Bytes), rows.Holds slot entity →
    rows.get? (Key.id entity.id) = some stem → stem = slot.stem
  apart : ∀ (a b : Slot) (x y : Entity), rows.Holds a x → rows.Holds b y → x.id = y.id → a = b
  tagged : ∀ (slot : Slot) (entity : Entity), rows.Holds slot entity →
    entity.properties.get? EntityId.propertyKey = some entity.id.tag

theorem newest?_empty (slot : Slot) : newest? ∅ slot = none := by
  have hLast : lastBelow? (∅ : Rows) slot.stem = none :=
    (lastBelow?_eq_none_iff ∅ slot.stem).mpr fun row hFound => by
      rw [OrderedMap.get?_empty] at hFound
      cases hFound
  rw [newest?, hLast]
  rfl

theorem isFormed_empty {allowed : Stamp → Prop} {known : EntityId → Prop} :
    (∅ : Rows).IsFormed allowed known := by
  intro key value hFound
  rw [OrderedMap.get?_empty] at hFound
  cases hFound

theorem isSound_empty : IsSound ∅ := by
  have hDead : ∀ slot : Slot, ¬ IsLive ∅ slot := by
    rintro slot ⟨version, hNewest, _⟩
    rw [newest?_empty] at hNewest
    cases hNewest
  refine ⟨isFormed_empty, fun _ hLive => absurd hLive (hDead _), fun {id stem} => ?_⟩
  rw [OrderedMap.get?_empty]
  constructor
  · intro hFound
    cases hFound
  · rintro ⟨slot, entity, hHolds, _⟩
    exact absurd (.of_holds hHolds) (hDead slot)

section
variable {rows : Rows} (hSound : rows.IsSound)
include hSound

theorem IsSound.slot_eq_of_id {a b : Slot} {x y : Entity} (hA : rows.Holds a x)
    (hB : rows.Holds b y) (hId : x.id = y.id) : a = b := by
  have hFirst := hSound.index.mpr ⟨a, x, hA, rfl, rfl⟩
  have hSecond := hSound.index.mpr ⟨b, y, hB, rfl, rfl⟩
  rw [hId, hSecond, Option.some.injEq] at hFirst
  exact (Slot.stem_injective hFirst).symm

/-- The index knows the ids of live entities and no others. -/
theorem IsSound.get?_id_eq_none_iff {id : EntityId} : rows.get? (Key.id id) = none ↔
    ∀ slot entity, rows.Holds slot entity → entity.id ≠ id := by
  constructor
  · rintro hNone slot entity hHolds rfl
    cases hNone.symm.trans (hSound.index.mpr ⟨slot, entity, hHolds, rfl, rfl⟩)
  · intro hUnknown
    refine Option.eq_none_iff_forall_ne_some.mpr fun stem hFound => ?_
    obtain ⟨slot, entity, hHolds, hId, _⟩ := hSound.index.mp hFound
    exact hUnknown slot entity hHolds hId

theorem IsSound.isRooted : rows.IsRooted := fun slot hLive hType => by
  obtain ⟨parent, hParent⟩ := Slot.exists_parent hType
  exact ⟨parent, hParent, hSound.parents hParent hLive⟩

theorem IsSound.isIndexed : rows.IsIndexed where
  readable slot hLive := by
    obtain ⟨entity, hHolds, _⟩ := hSound.shaped.holds_of_isLive hLive
    exact ⟨entity, hHolds⟩
  rowed id := by
    constructor
    · rintro ⟨stem, hFound⟩
      obtain ⟨slot, entity, hHolds, hId, _⟩ := hSound.index.mp hFound
      refine ⟨slot, ⟨entity, hHolds, hId⟩, ?_⟩
      rintro other ⟨found, hOther, hSame⟩
      exact hSound.slot_eq_of_id hOther hHolds (hSame.trans hId.symm)
    · rintro ⟨slot, ⟨entity, hHolds, hId⟩, _⟩
      exact ⟨slot.stem, hSound.index.mpr ⟨slot, entity, hHolds, hId, rfl⟩⟩
  stems slot entity stem hHolds hFound := by
    obtain ⟨other, found, hOther, hId, rfl⟩ := hSound.index.mp hFound
    rw [hSound.slot_eq_of_id hOther hHolds hId]
  apart _ _ _ _ hA hB hId := hSound.slot_eq_of_id hA hB hId
  tagged _ _ hHolds := (hSound.shaped.name_of_holds hHolds).2.1

/-- Nothing is live below a slot that is not. -/
theorem IsSound.not_isLive_below {slot other : Slot} (hBelow : slot.IsBelow other)
    (hDead : ¬ rows.IsLive other) : ¬ rows.IsLive slot := by
  generalize hDepth : slot.type.depth = depth
  induction depth using Nat.strongRecOn generalizing slot with
  | _ depth ih =>
    intro hLive
    obtain ⟨parent, hParent, rfl | hAbove⟩ := hBelow.parent
    · exact hDead (hSound.parents hParent hLive)
    · have hLess : parent.type.depth < depth := by
        have hLayer := hParent.isBelow.depth_lt
        omega
      exact ih parent.type.depth hLess hAbove rfl (hSound.parents hParent hLive)

end

end VersionedCatalog.Storage.Rows
