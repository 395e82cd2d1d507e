import VersionedCatalog.Proofs.Backends
import VersionedCatalog.Proofs.Newest
import VersionedCatalog.Store.Reading

/-! # What reading finds

A lookup answers with the newest version of its slot. A scan of a range of stems goes over the
versions in the order of their keys, in which the versions of one slot stand together, so the
last one before the next slot is the newest of its slot. It finds the newest versions of the slots
in the range and nothing else (`Catalog.mem_liveBelow_iff`), so it depends on nothing else either
(`Catalog.liveBelow_eq_of_newest`).
-/

namespace VersionedCatalog

namespace Version

/-! ### Newest versions in a list -/

theorem ofRows_map_toRow {versions : List Version}
    (hSlots : ∀ version ∈ versions, ∃ slot : Slot, version.stem = slot.stem) :
    ofRows (versions.map toRow) = .ok versions := by
  induction versions with
  | nil => rfl
  | cons version rest ih =>
    obtain ⟨⟨slot, hStem⟩, hRest⟩ := List.forall_mem_cons.mp hSlots
    have hRow := ofRow_toRow version (hStem ▸ slot.stem_ne_nil)
    simp [ofRows, hRow, ih hRest]

theorem newest_cons_cons (version next : Version) (rest : List Version) :
    newest (version :: next :: rest) =
      if next.stem = version.stem then newest (next :: rest)
      else version :: newest (next :: rest) := rfl

theorem newest_sublist (versions : List Version) : (newest versions).Sublist versions := by
  induction versions with
  | nil => exact .slnil
  | cons first rest ih =>
    cases rest with
    | nil => exact .refl _
    | cons next rest =>
      rw [newest_cons_cons]
      split
      · exact ih.cons first
      · exact ih.cons_cons first

theorem newest_append {stem : Bytes} {group rest : List Version} (hSome : group ≠ [])
    (hGroup : ∀ version ∈ group, version.stem = stem)
    (hRest : ∀ next ∈ rest.head?, next.stem ≠ stem) :
    newest (group ++ rest) = newest group ++ newest rest := by
  induction group with
  | nil => exact absurd rfl hSome
  | cons version more ih =>
    obtain ⟨hFirst, hMore⟩ := List.forall_mem_cons.mp hGroup
    cases more with
    | nil =>
      cases rest with
      | nil => rfl
      | cons next others =>
        have hOther : next.stem ≠ version.stem := hFirst ▸ hRest next rfl
        rw [List.singleton_append, newest_cons_cons, if_neg hOther]
        rfl
    | cons next others =>
      have hSame : next.stem = version.stem :=
        (hMore next List.mem_cons_self).trans hFirst.symm
      rw [newest_cons_cons, if_pos hSame, ← ih (List.cons_ne_nil _ _) hMore, List.cons_append,
        List.cons_append, newest_cons_cons, if_pos hSame]

section
variable {versions : List Version}
  (hAsc : versions.Pairwise fun a b => a.toRow.1 < b.toRow.1)
  (hSlots : ∀ version ∈ versions, ∃ slot : Slot, version.stem = slot.stem)
include hAsc hSlots

/-- Versions of one slot stand together: behind another slot it does not come back. -/
theorem stem_ne_of_next {first next : Version} {rest : List Version}
    (hVersions : versions = first :: next :: rest) (hNext : next.stem ≠ first.stem) :
    ∀ other ∈ next :: rest, other.stem ≠ first.stem := by
  subst hVersions
  obtain ⟨hFirst, hRest⟩ := List.pairwise_cons.mp hAsc
  obtain ⟨hHead, _⟩ := List.pairwise_cons.mp hRest
  obtain ⟨slot, hStem⟩ := hSlots first List.mem_cons_self
  obtain ⟨nextSlot, hNextStem⟩ := hSlots next (List.mem_cons_of_mem _ List.mem_cons_self)
  intro other hMem hSame
  rcases List.mem_cons.mp hMem with rfl | hMem
  · exact hNext hSame
  · -- the key of the next version is between two keys of the slot
    have hLow : slot.stem <+: first.toRow.1 := hStem ▸ List.prefix_append _ _
    have hHigh : slot.stem <+: other.toRow.1 := by
      rw [toRow, hSame, hStem]
      exact List.prefix_append _ _
    have hAfter := List.lt_asymm (hFirst next List.mem_cons_self)
    have hBefore := List.lt_asymm (hHead other hMem)
    have hBetween := Bytes.isPrefix_of_between hLow hHigh hAfter hBefore
    have hKey : next.toRow.1 = nextSlot.key next.stamp := by rw [toRow, hNextStem]; rfl
    rw [hKey, Slot.stem_isPrefix_key_iff] at hBetween
    exact hNext (by rw [hNextStem, hStem, hBetween])

theorem mem_newest_iff (version : Version) :
    version ∈ newest versions ↔ version ∈ versions ∧
      ∀ other ∈ versions, other.stem = version.stem → ¬ version.stamp < other.stamp := by
  induction versions with
  | nil => simp [newest]
  | cons first rest ih =>
    cases rest with
    | nil =>
      rw [newest, List.mem_singleton]
      refine ⟨fun hEq => ⟨hEq, fun other hMem _ hLater => ?_⟩, fun hBoth => hBoth.1⟩
      rw [hEq, List.mem_singleton.mp hMem, Stamp.lt_iff_rank] at hLater
      exact Nat.lt_irrefl _ hLater
    | cons next rest =>
      obtain ⟨hFirst, hRest⟩ := List.pairwise_cons.mp hAsc
      obtain ⟨hHeadSlot, hRestSlots⟩ := List.forall_mem_cons.mp hSlots
      have hOthers := ih hRest hRestSlots
      rw [newest_cons_cons]
      split
      next hSame =>
        have hLater : first.stamp < next.stamp := by
          have hLt := hFirst next List.mem_cons_self
          rw [toRow, toRow, hSame] at hLt
          exact (Key.version_lt_version_iff first.stem).mp hLt
        rw [hOthers]
        constructor
        · rintro ⟨hMem, hLatest⟩
          refine ⟨List.mem_cons_of_mem _ hMem, fun other hOther hStem => ?_⟩
          rcases List.mem_cons.mp hOther with rfl | hOther
          · have hNotNext := hLatest next List.mem_cons_self (hSame.trans hStem)
            intro hEarly
            rw [Stamp.lt_iff_rank] at hNotNext hEarly hLater
            omega
          · exact hLatest other hOther hStem
        · rintro ⟨hMem, hLatest⟩
          rcases List.mem_cons.mp hMem with rfl | hMem
          · exact absurd hLater (hLatest next (List.mem_cons_of_mem _ List.mem_cons_self) hSame)
          · exact ⟨hMem, fun other hOther => hLatest other (List.mem_cons_of_mem _ hOther)⟩
      next hOther =>
        have hApart := stem_ne_of_next hAsc hSlots rfl hOther
        rw [List.mem_cons, hOthers]
        constructor
        · rintro (rfl | ⟨hMem, hLatest⟩)
          · refine ⟨List.mem_cons_self, fun other hMem hStem hLater => ?_⟩
            rcases List.mem_cons.mp hMem with rfl | hMem
            · rw [Stamp.lt_iff_rank] at hLater
              exact Nat.lt_irrefl _ hLater
            · exact hApart other hMem hStem
          · refine ⟨List.mem_cons_of_mem _ hMem, fun other hMember hStem => ?_⟩
            rcases List.mem_cons.mp hMember with rfl | hMember
            · exact absurd hStem.symm (hApart version hMem)
            · exact hLatest other hMember hStem
        · rintro ⟨hMem, hLatest⟩
          rcases List.mem_cons.mp hMem with rfl | hMem
          · exact Or.inl rfl
          · exact Or.inr
              ⟨hMem, fun other hMember => hLatest other (List.mem_cons_of_mem _ hMember)⟩

/-- Of every slot there is one newest version. -/
theorem newest_pairwise : (newest versions).Pairwise fun a b => a.stem ≠ b.stem := by
  induction versions with
  | nil => exact .nil
  | cons first rest ih =>
    cases rest with
    | nil => exact List.pairwise_singleton _ _
    | cons next rest =>
      have hOthers := ih (List.pairwise_cons.mp hAsc).2 (List.forall_mem_cons.mp hSlots).2
      rw [newest_cons_cons]
      split
      next => exact hOthers
      next hOther =>
        have hApart := stem_ne_of_next hAsc hSlots rfl hOther
        exact List.pairwise_cons.mpr
          ⟨fun other hMem => (hApart other ((newest_sublist _).subset hMem)).symm, hOthers⟩

end

theorem nodup_of_ascending {versions : List Version}
    (hAsc : versions.Pairwise fun a b => a.toRow.1 < b.toRow.1) : versions.Nodup := by
  refine hAsc.imp fun {a b} hLt hEq => ?_
  rw [hEq] at hLt
  exact List.lt_irrefl _ hLt

end Version

namespace Catalog

variable {backend : Storage.Backend}

/-! ### One slot -/

theorem latest?_eq_ok {slot : Slot} {found : Option Version}
    (hOk : latest? backend slot.stem = .ok found) : found = backend.rows.newest? slot := by
  obtain ⟨row, hRow, hRest⟩ := Outcome.bind_eq_ok hOk
  have hLast := Storage.Backend.last_eq_ok (Outcome.mapError_eq_ok hRow)
  rw [Storage.Rows.newest?, ← hLast]
  cases row with
  | none => cases hRest; rfl
  | some row =>
    obtain ⟨version, hVersion, hSome⟩ := Outcome.bind_eq_ok hRest
    cases hSome
    rw [Option.bind_some, Outcome.mapError_eq_ok hVersion]
    rfl

theorem live?_eq_ok {slot : Slot} {found : Option Version}
    (hOk : live? backend slot.type slot.name = .ok found) :
    found = (backend.rows.newest? slot).filter Version.isLive := by
  obtain ⟨version, hVersion, hRest⟩ := Outcome.bind_eq_ok hOk
  cases hRest
  rw [@latest?_eq_ok backend slot _ hVersion]

theorem decode_eq_ok {type : EntityType} {version : Version} {entity : Entity}
    (hOk : decode type version = .ok entity) :
    Entity.decode type version.payload = .ok entity := Outcome.mapError_eq_ok hOk

theorem entity?_eq_ok {slot : Slot} {found : Option (Stamp × Entity)}
    (hOk : entity? backend slot.type slot.name = .ok found) :
    match found with
    | none => ¬ backend.rows.IsLive slot
    | some (stamp, entity) => ∃ version, backend.rows.newest? slot = some version ∧
        version.isLive = true ∧ version.stamp = stamp ∧
          Entity.decode slot.type version.payload = .ok entity := by
  obtain ⟨live, hLive, hRest⟩ := Outcome.bind_eq_ok hOk
  have hFilter := live?_eq_ok hLive
  cases live with
  | none =>
    cases hRest
    rintro ⟨version, hNewest, hFlag⟩
    rw [hNewest, Option.filter_some_pos hFlag] at hFilter
    cases hFilter
  | some version =>
    obtain ⟨entity, hDecode, hSome⟩ := Outcome.bind_eq_ok hRest
    cases hSome
    obtain ⟨hNewest, hFlag⟩ := Option.filter_eq_some_iff.mp hFilter.symm
    exact ⟨version, hNewest, hFlag, rfl, decode_eq_ok hDecode⟩

theorem holds_of_entity? {slot : Slot} {stamp : Stamp} {entity : Entity}
    (hOk : entity? backend slot.type slot.name = .ok (some (stamp, entity))) :
    backend.rows.Holds slot entity := by
  obtain ⟨version, hNewest, hFlag, _, hDecode⟩ := entity?_eq_ok hOk
  exact ⟨version, hNewest, hFlag, hDecode⟩

/-! ### A range of slots -/

section
variable {allowed : Stamp → Prop} {known : EntityId → Prop}
  (hFormed : backend.rows.IsFormed allowed known) {type : EntityType} {path : List String}
  (hLength : path.length ≤ type.depth + 1)
include hFormed

omit hFormed in
/-- The rows in a range are versions of slots. -/
theorem exists_versions (hVersions : backend.rows.AreVersions) (type : EntityType)
    (path : List String) :
    ∃ versions : List Version, backend.rows.below (Key.typed type path) = versions.map Version.toRow ∧
      ∀ version ∈ versions, ∃ slot : Slot, version.stem = slot.stem := by
  have hRows : ∀ row ∈ backend.rows.below (Key.typed type path),
      ∃ version : Version, row = version.toRow ∧ ∃ slot : Slot, version.stem = slot.stem := by
    intro row hMem
    obtain ⟨hFound, hStem⟩ := (Storage.Rows.mem_below_iff _ _ row).mp hMem
    have hType : [type.code] <+: Key.typed type path := ⟨path.flatMap Key.part, rfl⟩
    obtain ⟨slot, stamp, flag, payload, hKey, hValue⟩ :=
      hVersions type row.1 row.2 hFound (hType.trans hStem)
    exact ⟨⟨slot.stem, stamp, flag, payload⟩, Prod.ext hKey hValue, slot, rfl⟩
  generalize backend.rows.below (Key.typed type path) = rows at hRows
  induction rows with
  | nil => exact ⟨[], rfl, fun _ hMem => by cases hMem⟩
  | cons row rest ih =>
    obtain ⟨⟨version, hRow, hSlot⟩, hRest⟩ := List.forall_mem_cons.mp hRows
    obtain ⟨versions, hMap, hSlots⟩ := ih hRest
    exact ⟨version :: versions, by rw [hMap, hRow, List.map_cons],
      List.forall_mem_cons.mpr ⟨hSlot, hSlots⟩⟩

/-- What a scan of a range makes of the rows in it. -/
theorem latestBelow_eq_ok {versions : List Version}
    (hOk : latestBelow backend (Key.typed type path) = .ok versions) :
    ∃ all : List Version, backend.rows.below (Key.typed type path) = all.map Version.toRow ∧
      (∀ version ∈ all, ∃ slot : Slot, version.stem = slot.stem) ∧
      (all.Pairwise fun a b => a.toRow.1 < b.toRow.1) ∧ versions = Version.newest all := by
  obtain ⟨rows, hRows, hRest⟩ := Outcome.bind_eq_ok hOk
  obtain ⟨found, hFound, hLast⟩ := Outcome.bind_eq_ok hRest
  cases hLast
  have hScan := Storage.Backend.scan_eq_ok (Outcome.mapError_eq_ok hRows)
  obtain ⟨all, hAll, hSlots⟩ := exists_versions hFormed.areVersions type path
  have hVersions := Version.ofRows_map_toRow hSlots
  rw [← hAll, ← hScan, Outcome.mapError_eq_ok hFound, Except.ok.injEq] at hVersions
  have hAsc := Storage.Rows.below_ascending backend.rows (Key.typed type path)
  rw [hAll, List.pairwise_map] at hAsc
  exact ⟨all, hAll, hSlots, hAsc, by rw [hVersions]⟩

include hLength

omit hFormed in
/-- The rows in a range are all versions of the slots there. -/
theorem mem_versions_iff {all : List Version}
    (hAll : backend.rows.below (Key.typed type path) = all.map Version.toRow)
    (hSlots : ∀ version ∈ all, ∃ slot : Slot, version.stem = slot.stem) (found : Version) :
    found ∈ all ↔ ∃ slot : Slot, slot.type = type ∧ path <+: slot.path ∧
      backend.rows.HasVersion slot found := by
  have hBelow := Storage.Rows.mem_below_iff backend.rows (Key.typed type path) found.toRow
  rw [hAll, List.mem_map] at hBelow
  constructor
  · intro hMem
    obtain ⟨hFound, hStem⟩ := hBelow.mp ⟨found, hMem, rfl⟩
    obtain ⟨slot, hSlot⟩ := hSlots found hMem
    have hKey : found.toRow.1 = slot.key found.stamp := by rw [Version.toRow, hSlot]; rfl
    rw [hKey] at hFound hStem
    obtain ⟨hType, hPath⟩ := (Slot.typed_isPrefix_key_iff hLength).mp hStem
    exact ⟨slot, hType.symm, hPath, hSlot, hFound⟩
  · rintro ⟨slot, hType, hPath, hSlot, hFound⟩
    have hKey : found.toRow.1 = slot.key found.stamp := by rw [Version.toRow, hSlot]; rfl
    have hStem : Key.typed type path <+: slot.key found.stamp :=
      (Slot.typed_isPrefix_key_iff hLength).mpr ⟨hType.symm, hPath⟩
    obtain ⟨other, hMem, hSame⟩ := hBelow.mpr (by rw [hKey]; exact ⟨hFound, hStem⟩)
    obtain ⟨otherSlot, hOther⟩ := hSlots other hMem
    have hOk := Version.ofRow_toRow other (hOther ▸ otherSlot.stem_ne_nil)
    rw [hSame, Version.ofRow_toRow found (hSlot ▸ slot.stem_ne_nil), Except.ok.injEq] at hOk
    rwa [hOk]

theorem mem_latestBelow_iff {versions : List Version}
    (hOk : latestBelow backend (Key.typed type path) = .ok versions) (version : Version) :
    version ∈ versions ↔ ∃ slot : Slot, slot.type = type ∧ path <+: slot.path ∧
      backend.rows.newest? slot = some version := by
  obtain ⟨all, hAll, hSlots, hAsc, rfl⟩ := latestBelow_eq_ok hFormed hOk
  have hMemAll := mem_versions_iff hLength hAll hSlots
  rw [Version.mem_newest_iff hAsc hSlots, hMemAll]
  constructor
  · rintro ⟨⟨slot, hType, hPath, hHas⟩, hLatest⟩
    refine ⟨slot, hType, hPath, (Storage.Rows.newest?_eq_some_iff hFormed).mpr
      ⟨hHas, fun other hOther => ?_⟩⟩
    exact hLatest other ((hMemAll other).mpr ⟨slot, hType, hPath, hOther⟩)
      (hOther.stem.trans hHas.stem.symm)
  · rintro ⟨slot, hType, hPath, hNewest⟩
    obtain ⟨hHas, hLatest⟩ := (Storage.Rows.newest?_eq_some_iff hFormed).mp hNewest
    refine ⟨⟨slot, hType, hPath, hHas⟩, fun other hMem hStem => ?_⟩
    obtain ⟨otherSlot, _, _, hOther⟩ := (hMemAll other).mp hMem
    have hSame : otherSlot = slot :=
      Slot.stem_injective (hOther.stem.symm.trans (hStem.trans hHas.stem))
    exact hLatest other (hSame ▸ hOther)

theorem mem_liveBelow_iff {versions : List Version}
    (hOk : liveBelow backend (Key.typed type path) = .ok versions) (version : Version) :
    version ∈ versions ↔ ∃ slot : Slot, slot.type = type ∧ path <+: slot.path ∧
      backend.rows.newest? slot = some version ∧ version.isLive = true := by
  obtain ⟨latest, hLatest, hRest⟩ := Outcome.bind_eq_ok hOk
  cases hRest
  rw [List.mem_filter, mem_latestBelow_iff hFormed hLength hLatest]
  constructor
  · rintro ⟨⟨slot, hType, hPath, hNewest⟩, hLive⟩
    exact ⟨slot, hType, hPath, hNewest, hLive⟩
  · rintro ⟨slot, hType, hPath, hNewest, hLive⟩
    exact ⟨⟨slot, hType, hPath, hNewest⟩, hLive⟩

omit hLength

theorem liveBelow_pairwise {versions : List Version}
    (hOk : liveBelow backend (Key.typed type path) = .ok versions) :
    versions.Pairwise fun a b => a.stem ≠ b.stem := by
  obtain ⟨latest, hLatest, hRest⟩ := Outcome.bind_eq_ok hOk
  cases hRest
  obtain ⟨all, _, hSlots, hAsc, rfl⟩ := latestBelow_eq_ok hFormed hLatest
  exact (Version.newest_pairwise hAsc hSlots).filter _

theorem liveBelow_ascending {versions : List Version}
    (hOk : liveBelow backend (Key.typed type path) = .ok versions) :
    versions.Pairwise fun a b => a.toRow.1 < b.toRow.1 := by
  obtain ⟨latest, hLatest, hRest⟩ := Outcome.bind_eq_ok hOk
  cases hRest
  obtain ⟨all, _, _, hAsc, rfl⟩ := latestBelow_eq_ok hFormed hLatest
  exact (hAsc.sublist (Version.newest_sublist all)).filter _

end

/-! ### What a backend answers if it may -/

theorem indexed?_eq (backend : Storage.Backend) (id : EntityId) : indexed? backend id =
    (backend.permit .get).mapError .backend >>= fun _ => .ok (backend.rows.get? (Key.id id)) := by
  rw [indexed?, Storage.Backend.get]
  cases backend.permit .get <;> rfl

section
variable {allowed : Stamp → Prop} {known : EntityId → Prop}
  (hFormed : backend.rows.IsFormed allowed known)
include hFormed

theorem latest?_eq (slot : Slot) : latest? backend slot.stem =
    (backend.permit .last).mapError .backend >>= fun _ => .ok (backend.rows.newest? slot) := by
  rw [latest?, Storage.Backend.last]
  cases backend.permit .last with
  | error fault => rfl
  | ok _ =>
    rw [Storage.Rows.newest?]
    cases hLast : backend.rows.lastBelow? slot.stem with
    | none => rfl
    | some row =>
      obtain ⟨⟨hFound, hStem⟩, _⟩ := (Storage.Rows.lastBelow?_eq_some_iff _ _ row).mp hLast
      obtain ⟨version, hOk, _, _⟩ := hFormed.hasVersion_of_row hFound hStem
      simp [hOk, Except.toOption]

theorem live?_eq (slot : Slot) : live? backend slot.type slot.name =
    (backend.permit .last).mapError .backend >>= fun _ =>
      .ok ((backend.rows.newest? slot).filter Version.isLive) := by
  have hLatest := latest?_eq hFormed slot
  rw [Slot.stem] at hLatest
  rw [live?, hLatest]
  cases backend.permit .last <;> rfl

/-- There is nothing under a name that is not valid. -/
theorem latest?_of_not_valid {type : EntityType} {name : Name}
    (hFits : name.scope.depth = type.depth) (hInvalid : ¬ name.IsValid) :
    latest? backend (Key.entity type name) =
      (backend.permit .last).mapError .backend >>= fun _ => .ok none := by
  have hNone : backend.rows.lastBelow? (Key.entity type name) = none := by
    refine (Storage.Rows.lastBelow?_eq_none_iff _ _).mpr fun row hFound hStem => hInvalid ?_
    have hTyped : Key.typed type name.path <+: row.1 := hStem
    obtain ⟨slot, stamp, _, _, hKey, _⟩ := hFormed.version_of_typed hFound hTyped
    rw [hKey] at hStem
    obtain ⟨_, hName⟩ := (Key.entity_isPrefix_version_iff hFits slot.fits stamp).mp hStem
    exact hName ▸ slot.valid
  rw [latest?, Storage.Backend.last, hNone]
  cases backend.permit .last <;> rfl

/-- What is alive under a name has a valid one. -/
theorem isValid_of_entity? {type : EntityType} {name : Name}
    (hFits : name.scope.depth = type.depth) {found : Stamp × Entity}
    (hOk : entity? backend type name = .ok (some found)) : name.IsValid := by
  by_cases hValid : name.IsValid
  · exact hValid
  · obtain ⟨live, hLive, hEntity⟩ := Outcome.bind_eq_ok hOk
    obtain ⟨latest, hLatest, hFilter⟩ := Outcome.bind_eq_ok hLive
    rw [latest?_of_not_valid hFormed hFits hValid] at hLatest
    obtain ⟨_, _, hNone⟩ := Outcome.bind_eq_ok hLatest
    cases hNone
    cases hFilter
    cases hEntity

theorem entity?_of_holds {slot : Slot} {entity : Entity} (hHolds : backend.rows.Holds slot entity) :
    ∃ stamp, entity? backend slot.type slot.name =
      (backend.permit .last).mapError .backend >>= fun _ => .ok (some (stamp, entity)) := by
  obtain ⟨version, hNewest, hLive, hDecode⟩ := hHolds
  refine ⟨version.stamp, ?_⟩
  rw [entity?, live?_eq hFormed, hNewest, Option.filter_some_pos hLive]
  cases backend.permit .last with
  | error fault => rfl
  | ok _ => simp [decode, hDecode]

theorem exists_liveBelow (type : EntityType) (path : List String) :
    ∃ versions, liveBelow backend (Key.typed type path) =
      (backend.permit .scan).mapError .backend >>= fun _ => .ok versions := by
  obtain ⟨all, hAll, hSlots⟩ := exists_versions hFormed.areVersions type path
  refine ⟨(Version.newest all).filter Version.isLive, ?_⟩
  rw [liveBelow, latestBelow, Storage.Backend.scan, hAll]
  cases backend.permit .scan with
  | error fault => rfl
  | ok _ => simp [Version.ofRows_map_toRow hSlots]

/-- Ranges with the same live newest versions are scanned alike, in the same order. -/
theorem liveBelow_eq_of_newest {other : Storage.Backend} (hOther : other.rows.IsFormed allowed known)
    (hPermit : other.permit .scan = backend.permit .scan) {type : EntityType} {path : List String}
    (hLength : path.length ≤ type.depth + 1)
    (hSame : ∀ slot : Slot, slot.type = type → path <+: slot.path → ∀ version : Version,
      version.isLive = true →
        (other.rows.newest? slot = some version ↔ backend.rows.newest? slot = some version)) :
    liveBelow other (Key.typed type path) = liveBelow backend (Key.typed type path) := by
  obtain ⟨versions, hVersions⟩ := exists_liveBelow hFormed type path
  obtain ⟨others, hOthers⟩ := exists_liveBelow hOther type path
  rw [hPermit] at hOthers
  cases hMay : backend.permit .scan with
  | error fault =>
    rw [hVersions, hOthers, hMay]
    rfl
  | ok _ =>
    rw [hMay] at hVersions hOthers
    have hMem : ∀ version, version ∈ others ↔ version ∈ versions := by
      intro version
      rw [mem_liveBelow_iff hFormed hLength hVersions, mem_liveBelow_iff hOther hLength hOthers]
      refine exists_congr fun slot => and_congr_right fun hType => and_congr_right fun hPath => ?_
      exact and_congr_left fun hLive => hSame slot hType hPath version hLive
    have hAsc := liveBelow_ascending hFormed hVersions
    have hOtherAsc := liveBelow_ascending hOther hOthers
    have hPerm : others.Perm versions := (List.perm_ext_iff_of_nodup
      (Version.nodup_of_ascending hOtherAsc) (Version.nodup_of_ascending hAsc)).mpr hMem
    have hEq : others = versions := hPerm.eq_of_pairwise
      (fun _ _ _ _ hLt hGt => absurd hGt (List.lt_asymm hLt)) hOtherAsc hAsc
    rw [hVersions, hOthers, hEq]

end

end Catalog

end VersionedCatalog
