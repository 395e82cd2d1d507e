import VersionedCatalog.Proofs.Histories
import VersionedCatalog.Proofs.Identities

/-! # What reading answers

In an open store whose backend does not fail, a name loads as the entity that the rows hold in its
slot (`Store.load_of_holds`) and is missing if nothing is live there, and the list of versions ends
with the newest one (`Store.exists_versions_last`). So what is read under a name changes with what its
slot holds alone (`Store.load_congr_of_holds`), and so with its newest version (`Store.load_congr`),
and what is read by an id with the entities that have this id (`Store.loadById_congr`).
-/

namespace VersionedCatalog

open Storage (Rows Backend)

theorem exists_last_of_forall₂ {α β : Type} {related : α → β → Prop} {front : List α} {last : α}
    {others : List β} (hAll : List.Forall₂ related (front ++ [last]) others) :
    ∃ start final, others = start ++ [final] ∧ related last final := by
  have hLast := List.forall₂_drop_append others front [last] hAll.flip
  obtain ⟨final, _, hRelated, hNil, hDrop⟩ := List.forall₂_cons_right_iff.mp hLast
  cases hNil
  exact ⟨others.take front.length, final, by rw [← hDrop, List.take_append_drop], hRelated⟩

namespace Store

theorem open_of_load {store : Store} {type : EntityType} {name : Name} {entity : Entity}
    (hOk : store.load type name = .ok entity) : store.closed = false := by
  obtain ⟨_, hEnsure, _⟩ := Outcome.bind_eq_ok hOk
  exact ensureOpen_eq_ok_iff.mp hEnsure

section
variable {store : Store} {allowed : Stamp → Prop} {known : EntityId → Prop}
  (hFormed : store.backend.rows.IsFormed allowed known) (hSteady : store.IsSteady)
  (hOpen : store.closed = false)
include hFormed hSteady hOpen

theorem load_of_holds {slot : Slot} {entity : Entity}
    (hHolds : store.backend.rows.Holds slot entity) :
    store.load slot.type slot.name = .ok entity := by
  have hEnsure := ensureOpen_eq_ok_iff.mpr hOpen
  have hDepth : checkDepth slot.type slot.name = .ok () := if_pos slot.fits
  obtain ⟨stamp, hEntity⟩ := Catalog.entity?_of_holds hFormed hHolds
  rw [Backend.permit_of_open (hSteady.isOpen hOpen) hSteady.faults] at hEntity
  simp [load, hEnsure, hDepth, hEntity]

theorem load_of_not_live {slot : Slot} (hDead : ¬ store.backend.rows.IsLive slot) :
    store.load slot.type slot.name = .error (.missing slot.type slot.name) := by
  have hEnsure := ensureOpen_eq_ok_iff.mpr hOpen
  have hDepth : checkDepth slot.type slot.name = .ok () := if_pos slot.fits
  have hLive := Catalog.live?_eq hFormed slot
  rw [Backend.permit_of_open (hSteady.isOpen hOpen) hSteady.faults] at hLive
  have hNone : (store.backend.rows.newest? slot).filter Version.isLive = none := by
    refine Option.eq_none_iff_forall_ne_some.mpr fun version hFound => hDead ?_
    obtain ⟨hNewest, hFlag⟩ := Option.filter_eq_some_iff.mp hFound
    exact ⟨version, hNewest, hFlag⟩
  rw [hNone] at hLive
  simp [load, hEnsure, hDepth, Catalog.entity?, hLive]

theorem load_of_not_valid {type : EntityType} {name : Name}
    (hFits : name.scope.depth = type.depth) (hInvalid : ¬ name.IsValid) :
    store.load type name = .error (.missing type name) := by
  have hEnsure := ensureOpen_eq_ok_iff.mpr hOpen
  have hDepth : checkDepth type name = .ok () := if_pos hFits
  have hLatest := Catalog.latest?_of_not_valid hFormed hFits hInvalid
  rw [Backend.permit_of_open (hSteady.isOpen hOpen) hSteady.faults] at hLatest
  simp [load, hEnsure, hDepth, Catalog.entity?, Catalog.live?, hLatest]

/-- The versions under a name end with the newest one. -/
theorem exists_versions_last {slot : Slot} {version : Version} {state : VersionState}
    (hNewest : store.backend.rows.newest? slot = some version)
    (hState : versionState slot.type version = .ok state) :
    ∃ earlier, store.versions slot.type slot.name = .ok (earlier ++ [(version.stamp, state)]) := by
  obtain ⟨listed, hListed⟩ := exists_versions hFormed hSteady hOpen slot.fits
  obtain ⟨versions, hStates, hAsc, hMem⟩ := exists_listing hFormed hListed
  obtain ⟨hHas, hLatest⟩ := (Rows.newest?_eq_some_iff hFormed).mp hNewest
  have hIn : version ∈ versions := (hMem version).mpr ⟨slot, rfl, rfl, hHas⟩
  obtain ⟨front, last, rfl⟩ : ∃ front last, versions = front ++ [last] :=
    ⟨_, _, (List.dropLast_append_getLast (List.ne_nil_of_mem hIn)).symm⟩
  -- the last one listed is not before the newest one, and all others are before the last one
  have hSame : last = version := by
    rcases List.mem_append.mp hIn with hEarlier | hLast
    · obtain ⟨other, hType, hName, hOther⟩ :=
        (hMem last).mp (List.mem_append_right _ (List.mem_singleton_self last))
      have hLess := (List.pairwise_append.mp hAsc).2.2 version hEarlier last
        (List.mem_singleton_self last)
      exact absurd hLess (hLatest last (Slot.eq_of_parts hType hName ▸ hOther))
    · exact (List.mem_singleton.mp hLast).symm
  obtain ⟨earlier, ⟨stamp, found⟩, rfl, hStamp, hFound⟩ := exists_last_of_forall₂ hStates
  rw [hSame] at hStamp hFound
  cases hStamp
  cases hState.symm.trans hFound
  exact ⟨earlier, hListed⟩

end

section
variable {store other : Store} {allowed : Stamp → Prop} {known : EntityId → Prop}
  (hSteady : store.IsSteady) (hOther : other.IsSteady) (hClosed : other.closed = store.closed)
include hSteady hOther hClosed

/-- What is loaded under a name depends on what is held in its slot. -/
theorem load_congr_of_holds (hFormed : store.backend.rows.IsFormed allowed known)
    (hOtherFormed : other.backend.rows.IsFormed allowed known) {type : EntityType} {name : Name}
    (hSame : ∀ slot : Slot, slot.type = type → slot.name = name → ∀ entity,
      (other.backend.rows.Holds slot entity ↔ store.backend.rows.Holds slot entity)) :
    other.load type name = store.load type name := by
  cases hOpen : store.closed with
  | true =>
    rw [load, load, ensureOpen_of_closed hOpen, ensureOpen_of_closed (hClosed.trans hOpen)]
    rfl
  | false =>
    have hOtherOpen := hClosed.trans hOpen
    by_cases hFits : name.scope.depth = type.depth
    · by_cases hValid : name.IsValid
      · let slot : Slot := ⟨type, name, hFits, hValid⟩
        have hHere := hSame slot rfl rfl
        by_cases hLive : store.backend.rows.IsLive slot
        · obtain ⟨entity, hHolds, _⟩ := hFormed.holds_of_isLive hLive
          rw [load_of_holds hFormed hSteady hOpen hHolds,
            load_of_holds hOtherFormed hOther hOtherOpen ((hHere entity).mpr hHolds)]
        · have hOtherDead : ¬ other.backend.rows.IsLive slot := by
            intro hThere
            obtain ⟨entity, hHolds, _⟩ := hOtherFormed.holds_of_isLive hThere
            exact hLive (.of_holds ((hHere entity).mp hHolds))
          rw [load_of_not_live hFormed hSteady hOpen hLive,
            load_of_not_live hOtherFormed hOther hOtherOpen hOtherDead]
      · rw [load_of_not_valid hFormed hSteady hOpen hFits hValid,
          load_of_not_valid hOtherFormed hOther hOtherOpen hFits hValid]
    · have hDepth : checkDepth type name = .error (.nameDepth type name) := if_neg hFits
      rw [load, load, hDepth, ensureOpen_congr hClosed]
      rfl

/-- What is loaded under a name depends on the newest version of its slot. -/
theorem load_congr (hFormed : store.backend.rows.IsFormed allowed known)
    (hOtherFormed : other.backend.rows.IsFormed allowed known) {type : EntityType} {name : Name}
    (hSame : ∀ slot : Slot, slot.type = type → slot.name = name →
      other.backend.rows.newest? slot = store.backend.rows.newest? slot) :
    other.load type name = store.load type name :=
  load_congr_of_holds hSteady hOther hClosed hFormed hOtherFormed fun slot hType hName _ =>
    Rows.holds_congr (hSame slot hType hName)

/-- What is found by an id depends on the entities with this id. -/
theorem loadById_congr (hSound : store.backend.rows.IsSound) (hOtherSound : other.backend.rows.IsSound)
    {id : EntityId} (hSame : ∀ slot entity, entity.id = id →
      (other.backend.rows.Holds slot entity ↔ store.backend.rows.Holds slot entity)) :
    other.loadById id = store.loadById id := by
  cases hOpen : store.closed with
  | true =>
    rw [loadById, loadById, ensureOpen_of_closed hOpen,
      ensureOpen_of_closed (hClosed.trans hOpen)]
    rfl
  | false =>
    have hOtherOpen := hClosed.trans hOpen
    by_cases hKnown : ∃ slot entity, store.backend.rows.Holds slot entity ∧ entity.id = id
    · obtain ⟨slot, entity, hHolds, rfl⟩ := hKnown
      rw [loadById_of_holds hSound hSteady hOpen hHolds, loadById_of_holds hOtherSound hOther
        hOtherOpen ((hSame slot entity rfl).mpr hHolds)]
    · rw [loadById_of_unknown hSound hSteady hOpen fun slot entity hHolds hId =>
          hKnown ⟨slot, entity, hHolds, hId⟩,
        loadById_of_unknown hOtherSound hOther hOtherOpen fun slot entity hHolds hId =>
          hKnown ⟨slot, entity, (hSame slot entity hId).mp hHolds, hId⟩]

end

end Store

end VersionedCatalog
