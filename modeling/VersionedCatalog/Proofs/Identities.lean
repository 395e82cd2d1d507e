import VersionedCatalog.Proofs.Runs
import VersionedCatalog.Store.Reading

/-! # Ids belong to live entities

Wherever a run leads, the index has a row for the id of every live entity and no other row, no two
live entities have one id, and each carries its id among its properties (`Rows.IsIndexed`). An
entity is therefore found by its id as long as it lives, and not after (`Store.loadById_of_holds`,
`Store.loadById_of_unknown`).
-/

namespace VersionedCatalog

open Storage (Backend)

namespace Store

section
variable {store : Store} (hSound : store.backend.rows.IsSound) (hSteady : store.IsSteady)
  (hOpen : store.closed = false)
include hSound hSteady hOpen

theorem loadById_of_holds {slot : Slot} {entity : Entity}
    (hHolds : store.backend.rows.Holds slot entity) : store.loadById entity.id = .ok entity := by
  have hBackend := hSteady.isOpen hOpen
  have hEnsure := ensureOpen_eq_ok_iff.mpr hOpen
  have hPermit := Backend.permit_of_open hBackend hSteady.faults
  have hIndexed := Catalog.indexed?_eq store.backend entity.id
  rw [hPermit, hSound.index.mpr ⟨slot, entity, hHolds, rfl, rfl⟩] at hIndexed
  have hStem : Catalog.decodeStem slot.stem = .ok (slot.type, slot.name) := by
    rw [Catalog.decodeStem, slot.decodeEntity_stem]
    rfl
  obtain ⟨stamp, hEntity⟩ := Catalog.entity?_of_holds hSound.shaped hHolds
  rw [hPermit] at hEntity
  simp [loadById, hEnsure, hIndexed, hStem, hEntity]

theorem loadById_of_unknown {id : EntityId}
    (hUnknown : ∀ slot entity, store.backend.rows.Holds slot entity → entity.id ≠ id) :
    store.loadById id = .error (.missingId id) := by
  have hBackend := hSteady.isOpen hOpen
  have hEnsure := ensureOpen_eq_ok_iff.mpr hOpen
  have hNone := hSound.get?_id_eq_none_iff.mpr hUnknown
  have hIndexed := Catalog.indexed?_eq store.backend id
  rw [Backend.permit_of_open hBackend hSteady.faults, hNone] at hIndexed
  simp [loadById, hEnsure, hIndexed]

theorem loadById_eq_ok_iff {id : EntityId} {entity : Entity} :
    store.loadById id = .ok entity ↔
      ∃ slot, store.backend.rows.Holds slot entity ∧ entity.id = id := by
  constructor
  · intro hOk
    by_cases hKnown : ∃ slot found, store.backend.rows.Holds slot found ∧ found.id = id
    · obtain ⟨slot, found, hHolds, rfl⟩ := hKnown
      rw [loadById_of_holds hSound hSteady hOpen hHolds, Except.ok.injEq] at hOk
      exact ⟨slot, hOk ▸ hHolds, by rw [hOk]⟩
    · rw [loadById_of_unknown hSound hSteady hOpen fun slot found hHolds hId =>
        hKnown ⟨slot, found, hHolds, hId⟩] at hOk
      cases hOk
  · rintro ⟨slot, hHolds, rfl⟩
    exact loadById_of_holds hSound hSteady hOpen hHolds

end

end Store

end VersionedCatalog
