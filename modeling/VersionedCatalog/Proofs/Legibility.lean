import VersionedCatalog.Proofs.Runs

/-! # What is stored can be read

Formed rows can be read: every key of a version splits, every value has a flag, every live payload
is an entity of the type and the name in its key, every marker leads to a name and the index to stems
(`Rows.IsFormed.isLegible`). So no read of a store comes upon anything illegible, with any
arguments and whatever calls of the backend fail (`Store.readsCleanly`).
-/

namespace VersionedCatalog

open Storage (Rows Row Backend Call)

/-! ### Clean outcomes -/

namespace Outcome

variable {α β : Type}

/-- Nothing illegible was come upon, and nothing that cannot be written. -/
def IsClean (outcome : Except StoreError α) : Prop :=
  ∀ error, outcome = .error error → error.toClass ≠ .serialization

theorem isClean_ok (a : α) : IsClean (.ok a) := nofun

theorem isClean_of_ok {outcome : Except StoreError α} (hOk : ∃ a, outcome = .ok a) :
    IsClean outcome := by
  obtain ⟨a, rfl⟩ := hOk
  exact isClean_ok a

theorem isClean_error {error : StoreError} (hClass : error.toClass ≠ .serialization) :
    IsClean (.error error : Except StoreError α) := by
  rintro _ ⟨rfl⟩
  exact hClass

theorem IsClean.bind {outcome : Except StoreError α} {f : α → Except StoreError β}
    (hFirst : IsClean outcome) (hRest : ∀ a, outcome = .ok a → IsClean (f a)) :
    IsClean (outcome >>= f) := by
  cases outcome with
  | error error => exact isClean_error (hFirst error rfl)
  | ok a => exact hRest a rfl

theorem isClean_mapError {ε : Type} {wrap : ε → StoreError}
    (hClass : ∀ error, (wrap error).toClass ≠ .serialization) (outcome : Except ε α) :
    IsClean (outcome.mapError wrap) := by
  cases outcome with
  | error error => exact isClean_error (hClass error)
  | ok a => exact isClean_ok a

theorem isClean_backend (outcome : Except Storage.Fault α) : IsClean (outcome.mapError .backend) :=
  isClean_mapError (fun _ hClass => by cases hClass) outcome

theorem isClean_change (outcome : Except ChangeError α) : IsClean (outcome.mapError .change) :=
  isClean_mapError (fun error => by rw [StoreError.toClass]; split <;> nofun) outcome

theorem isClean_ite {p : Prop} [Decidable p] {first second : Except StoreError α}
    (hFirst : p → IsClean first) (hSecond : ¬ p → IsClean second) :
    IsClean (if p then first else second) := by
  split
  next hHolds => exact hFirst hHolds
  next hNot => exact hSecond hNot

end Outcome

open Outcome

/-! ### Legible versions -/

/-- A version of an entity of a type whose payload can be read. -/
structure Version.IsLegible (type : EntityType) (version : Version) : Prop where
  decodes : version.flag = .live → ∃ entity, Entity.decode type version.payload = .ok entity
  leads : version.flag = .renamed → ∃ target, Version.renameTarget version.payload = .ok target

theorem Version.renameTarget_text {target : Name} (hValid : target.IsValid) :
    Version.renameTarget (Utf8.encode target.text) = .ok target := by
  rw [renameTarget, Utf8.decode?_encode]
  simp only [Name.parse_text hValid, Outcome.mapError_ok]

theorem Says.isLegible {known : EntityId → Prop} {slot : Slot} {version : Version}
    (hSays : Says known slot version.flag version.payload) : version.IsLegible slot.type := by
  obtain ⟨stem, stamp, flag, payload⟩ := version
  cases hSays with
  | live decoded => exact ⟨fun _ => ⟨_, decoded⟩, nofun⟩
  | tombstone => exact ⟨nofun, nofun⟩
  | renamed valid => exact ⟨nofun, fun _ => ⟨_, Version.renameTarget_text valid⟩⟩

section
variable {allowed : Stamp → Prop} {known : EntityId → Prop} {rows : Rows}
  (hFormed : rows.IsFormed allowed known)
include hFormed

/-- The keys that start with the code of a type are those of versions in slots of the type. -/
theorem Storage.Rows.IsFormed.version_of_code {type : EntityType} {rest value : Bytes}
    (hFound : rows.get? (type.code :: rest) = some value) :
    ∃ slot stamp flag payload, slot.type = type ∧ type.code :: rest = slot.key stamp ∧
      value = Version.encodeValue flag payload ∧ Says known slot flag payload := by
  have hStem : Key.typed type [] <+: type.code :: rest := ⟨rest, rfl⟩
  obtain ⟨slot, stamp, flag, payload, hKey, hValue, _, hSays⟩ :=
    hFormed.version_of_typed hFound hStem
  rw [hKey] at hStem
  have hType := ((Slot.typed_isPrefix_key_iff (Nat.zero_le _)).mp hStem).1
  exact ⟨slot, stamp, flag, payload, hType.symm, hKey, hValue, hSays⟩

/-- The index leads to the stems of slots. -/
theorem Storage.Rows.IsFormed.slot_of_index {id : EntityId} {stem : Bytes}
    (hFound : rows.get? (Key.id id) = some stem) : ∃ slot : Slot, stem = slot.stem := by
  generalize hRow : (Key.id id, stem) = row
  have hShape := hFormed _ _ hFound
  rw [hRow] at hShape
  cases hShape with
  | @version slot stamp flag payload _ _ =>
    exact absurd (Prod.mk.inj hRow).1.symm (slot.key_ne_id stamp id)
  | index slot _ => exact ⟨slot, (Prod.mk.inj hRow).2⟩
  | watermark bytes => exact absurd (Prod.mk.inj hRow).1 (Key.id_ne_watermark id)

/-- Every row below a stem of a type is a legible version. -/
theorem Storage.Rows.IsFormed.exists_legible {type : EntityType} {path : List String} {row : Row}
    (hRow : row ∈ rows.below (Key.typed type path)) :
    ∃ version, Version.ofRow row = .ok version ∧ version.IsLegible type := by
  obtain ⟨hFound, hStem⟩ := (Rows.mem_below_iff _ _ row).mp hRow
  obtain ⟨key, value⟩ := row
  obtain ⟨rest, rfl⟩ := hStem
  obtain ⟨slot, stamp, flag, payload, rfl, hKey, rfl, hSays⟩ := hFormed.version_of_code hFound
  have hOk := Version.ofRow_toRow ⟨slot.stem, stamp, flag, payload⟩ slot.stem_ne_nil
  have hSame : Key.typed slot.type path ++ rest = slot.key stamp := hKey
  exact ⟨⟨slot.stem, stamp, flag, payload⟩, by rw [hSame]; exact hOk, Says.isLegible hSays⟩

end

/-! ### Legible rows -/

/-- Every key is that of a version, a place in the index or the watermark, and what is there can
be read. -/
structure Storage.Rows.IsLegible (rows : Rows) : Prop where
  kinds : ∀ key value, rows.get? key = some value →
    (∃ type rest, key = EntityType.code type :: rest) ∨ (∃ id, key = Key.id id) ∨ key = Key.watermark
  versions : ∀ (type : EntityType) (rest value : Bytes),
    rows.get? (type.code :: rest) = some value →
    ∃ stem stamp name flag payload, Key.split (type.code :: rest) = .ok (stem, stamp) ∧
      Key.decodeEntity stem = .ok (type, name) ∧
      Version.decodeValue value = .ok (flag, payload) ∧
      (flag = .live → ∃ entity, Entity.decode type payload = .ok entity ∧ entity.name = name ∧
        entity.type = type) ∧
      (flag = .renamed → ∃ target, Version.renameTarget payload = .ok target)
  index : ∀ id stem, rows.get? (Key.id id) = some stem →
    ∃ type name, Key.decodeEntity stem = .ok (type, name)

theorem Storage.Rows.IsFormed.isLegible {allowed : Stamp → Prop} {known : EntityId → Prop}
    {rows : Rows} (hFormed : rows.IsFormed allowed known) : rows.IsLegible where
  kinds key value hFound := by
    cases hFormed key value hFound with
    | @version slot stamp _ _ _ _ => exact Or.inl ⟨slot.type, _, rfl⟩
    | @index id slot _ => exact Or.inr (Or.inl ⟨id, rfl⟩)
    | watermark => exact Or.inr (Or.inr rfl)
  versions type rest value hFound := by
    obtain ⟨slot, stamp, flag, payload, rfl, hKey, rfl, hSays⟩ := hFormed.version_of_code hFound
    have hSplit : Key.split (slot.key stamp) = .ok (slot.stem, stamp) :=
      Key.split_version slot.stem stamp slot.stem_ne_nil
    have hLegible := @Says.isLegible known slot ⟨slot.stem, stamp, flag, payload⟩ hSays
    refine ⟨slot.stem, stamp, slot.name, flag, payload, hKey ▸ hSplit, slot.decodeEntity_stem,
      Version.decodeValue_encodeValue flag payload, fun hLive => ?_, hLegible.leads⟩
    subst hLive
    cases hSays with
    | live decoded name => exact ⟨_, decoded, name, Entity.type_of_decode decoded⟩
  index id stem hFound := by
    obtain ⟨slot, rfl⟩ := hFormed.slot_of_index hFound
    exact ⟨slot.type, slot.name, slot.decodeEntity_stem⟩

/-! ### Clean lookups -/

namespace Catalog

variable {allowed : Stamp → Prop} {known : EntityId → Prop} {backend : Backend}
  (hFormed : backend.rows.IsFormed allowed known)

theorem isClean_permit {α : Type} (call : Call) (a : α) :
    IsClean ((backend.permit call).mapError .backend >>= fun _ => .ok a) :=
  (isClean_backend _).bind fun _ _ => isClean_ok a

theorem exists_decode {type : EntityType} {version : Version} (hLegible : version.IsLegible type)
    (hLive : version.isLive = true) : ∃ entity, decode type version = .ok entity := by
  obtain ⟨entity, hDecode⟩ := hLegible.decodes (of_decide_eq_true hLive)
  exact ⟨entity, by rw [decode, hDecode]; rfl⟩

include hFormed

theorem exists_latest? (type : EntityType) (name : Name) :
    ∃ found : Option Version, latest? backend (Key.entity type name) =
      ((backend.permit .last).mapError .backend >>= fun _ => .ok found) ∧
        ∀ version ∈ found, version.IsLegible type := by
  rw [latest?, Backend.last]
  cases hLast : backend.rows.lastBelow? (Key.entity type name) with
  | none =>
    refine ⟨none, ?_, fun version hNone => ?_⟩
    · cases backend.permit .last <;> rfl
    · cases hNone
  | some row =>
    have hRow : row ∈ backend.rows.below (Key.typed type name.path) := List.mem_of_getLast? hLast
    obtain ⟨version, hOk, hLegible⟩ := hFormed.exists_legible hRow
    refine ⟨some version, ?_, ?_⟩
    · cases backend.permit .last with
      | error fault => rfl
      | ok _ => simp [hOk]
    · rintro _ ⟨rfl⟩
      exact hLegible

theorem isClean_latest? (type : EntityType) (name : Name) :
    IsClean (latest? backend (Key.entity type name)) := by
  obtain ⟨found, hFound, _⟩ := exists_latest? hFormed type name
  rw [hFound]
  exact isClean_permit _ _

theorem isLegible_of_latest? {type : EntityType} {name : Name} {version : Version}
    (hOk : latest? backend (Key.entity type name) = .ok (some version)) :
    version.IsLegible type := by
  obtain ⟨found, hFound, hLegible⟩ := exists_latest? hFormed type name
  rw [hFound] at hOk
  obtain ⟨_, _, hLast⟩ := Outcome.bind_eq_ok hOk
  exact hLegible version (Except.ok.inj hLast)

theorem isClean_live? (type : EntityType) (name : Name) : IsClean (live? backend type name) :=
  (isClean_latest? hFormed type name).bind fun _ _ => isClean_ok _

theorem isLegible_of_live? {type : EntityType} {name : Name} {version : Version}
    (hOk : live? backend type name = .ok (some version)) :
    version.IsLegible type ∧ version.isLive = true := by
  obtain ⟨found, hFound, hLast⟩ := Outcome.bind_eq_ok hOk
  obtain ⟨rfl, hLive⟩ := Option.filter_eq_some_iff.mp (Except.ok.inj hLast)
  exact ⟨isLegible_of_latest? hFormed hFound, hLive⟩

theorem isClean_entity? (type : EntityType) (name : Name) : IsClean (entity? backend type name) := by
  refine (isClean_live? hFormed type name).bind fun found hFound => ?_
  cases found with
  | none => exact isClean_ok _
  | some version =>
    obtain ⟨hLegible, hLive⟩ := isLegible_of_live? hFormed hFound
    exact (isClean_of_ok (exists_decode hLegible hLive)).bind fun _ _ => isClean_ok _

theorem isClean_liveBelow (type : EntityType) (path : List String) :
    IsClean (liveBelow backend (Key.typed type path)) := by
  obtain ⟨versions, hVersions⟩ := exists_liveBelow hFormed type path
  rw [hVersions]
  exact isClean_permit _ _

theorem isLegible_of_liveBelow {type : EntityType} {path : List String} {versions : List Version}
    (hOk : liveBelow backend (Key.typed type path) = .ok versions) :
    ∀ version ∈ versions, version.IsLegible type ∧ version.isLive = true := by
  obtain ⟨latest, hLatest, hLast⟩ := Outcome.bind_eq_ok hOk
  cases hLast
  obtain ⟨all, hAll, hSlots, _, rfl⟩ := latestBelow_eq_ok hFormed hLatest
  intro version hMem
  obtain ⟨hNewest, hLive⟩ := List.mem_filter.mp hMem
  have hIn := (Version.newest_sublist all).subset hNewest
  obtain ⟨slot, hSlot⟩ := hSlots version hIn
  have hRow : version.toRow ∈ backend.rows.below (Key.typed type path) := by
    rw [hAll]
    exact List.mem_map_of_mem hIn
  obtain ⟨found, hFound, hLegible⟩ := hFormed.exists_legible hRow
  rw [Version.ofRow_toRow version (hSlot ▸ slot.stem_ne_nil)] at hFound
  cases hFound
  exact ⟨hLegible, hLive⟩

omit hFormed in
theorem isClean_decodeAll {type : EntityType} {versions : List Version}
    (hAll : ∀ version ∈ versions, version.IsLegible type ∧ version.isLive = true) :
    IsClean (decodeAll type versions) := by
  induction versions with
  | nil => exact isClean_ok _
  | cons version rest ih =>
    obtain ⟨⟨hLegible, hLive⟩, hRest⟩ := List.forall_mem_cons.mp hAll
    exact (isClean_of_ok (exists_decode hLegible hLive)).bind fun _ _ =>
      (ih hRest).bind fun _ _ => isClean_ok _

omit hFormed in
theorem isClean_indexed? (id : EntityId) : IsClean (indexed? backend id) := isClean_backend _

/-- What the index has for an id is the stem of a slot. -/
theorem decodeStem_of_indexed? {id : EntityId} {stem : Bytes}
    (hOk : indexed? backend id = .ok (some stem)) :
    ∃ slot : Slot, stem = slot.stem ∧ decodeStem stem = .ok (slot.type, slot.name) := by
  have hFound := Backend.get_eq_ok (Outcome.mapError_eq_ok hOk)
  obtain ⟨slot, rfl⟩ := hFormed.slot_of_index hFound.symm
  exact ⟨slot, rfl, by rw [decodeStem, slot.decodeEntity_stem]; rfl⟩

end Catalog

/-! ### Clean reads -/

theorem Storage.Rows.Holds.type_eq {rows : Rows} {slot : Slot} {entity : Entity}
    (hHolds : rows.Holds slot entity) : entity.type = slot.type := by
  obtain ⟨version, _, _, hDecode⟩ := hHolds
  exact Entity.type_of_decode hDecode

namespace Store

/-- No read of a store comes upon anything illegible, whatever its arguments are. -/
structure ReadsCleanly (store : Store) : Prop where
  load : ∀ type name, IsClean (store.load type name)
  contains : ∀ type name, IsClean (store.contains type name)
  loadById : ∀ id, IsClean (store.loadById id)
  list : ∀ scope type, IsClean (store.list scope type)
  listChildren : ∀ scope, IsClean (store.listChildren scope)
  versions : ∀ type name, IsClean (store.versions type name)

variable {store : Store}

theorem isClean_ensureOpen (store : Store) : IsClean store.ensureOpen := by
  unfold ensureOpen
  exact isClean_ite (fun _ => isClean_error (by decide)) fun _ => isClean_ok _

theorem isClean_checkDepth (type : EntityType) (name : Name) : IsClean (checkDepth type name) :=
  isClean_ite (fun _ => isClean_ok _) fun _ => isClean_error nofun

/-- What a state is that a version says, can be read. -/
theorem exists_versionState {type : EntityType} {version : Version}
    (hLegible : version.IsLegible type) : ∃ state, versionState type version = .ok state := by
  rw [versionState]
  cases hFlag : version.flag with
  | live =>
    obtain ⟨entity, hDecode⟩ := Catalog.exists_decode hLegible (decide_eq_true hFlag)
    exact ⟨.live entity, by rw [hDecode]; rfl⟩
  | tombstone => exact ⟨.tombstone, rfl⟩
  | renamed =>
    obtain ⟨target, hTarget⟩ := hLegible.leads hFlag
    exact ⟨.renamed target, by rw [hTarget]; rfl⟩

theorem exists_versionStates {type : EntityType} {rows : List Row}
    (hRows : ∀ row ∈ rows, ∃ version, Version.ofRow row = .ok version ∧ version.IsLegible type) :
    ∃ states, versionStates type rows = .ok states := by
  induction rows with
  | nil => exact ⟨[], rfl⟩
  | cons row rest ih =>
    obtain ⟨⟨version, hRow, hLegible⟩, hRest⟩ := List.forall_mem_cons.mp hRows
    obtain ⟨state, hState⟩ := exists_versionState hLegible
    obtain ⟨states, hStates⟩ := ih hRest
    exact ⟨(version.stamp, state) :: states, by rw [versionStates, hRow]; simp [hState, hStates]⟩

section
variable {allowed : Stamp → Prop} {known : EntityId → Prop}
  (hFormed : store.backend.rows.IsFormed allowed known)
include hFormed

theorem isClean_load (type : EntityType) (name : Name) : IsClean (store.load type name) := by
  refine (isClean_ensureOpen store).bind fun _ _ => (isClean_checkDepth type name).bind fun _ _ => ?_
  refine (Catalog.isClean_entity? hFormed type name).bind fun found _ => ?_
  cases found with
  | none => exact isClean_error nofun
  | some found => exact isClean_ok _

theorem isClean_loadById (id : EntityId) : IsClean (store.loadById id) := by
  refine (isClean_ensureOpen store).bind fun _ _ =>
    (Catalog.isClean_indexed? id).bind fun found hFound => ?_
  cases found with
  | none => exact isClean_error nofun
  | some stem =>
    obtain ⟨slot, rfl, hStem⟩ := Catalog.decodeStem_of_indexed? hFormed hFound
    simp only [hStem, Outcome.ok_bind]
    refine (Catalog.isClean_entity? hFormed slot.type slot.name).bind fun found _ => ?_
    cases found with
    | none => exact isClean_error nofun
    | some found => exact isClean_ite (fun _ => isClean_ok _) fun _ => isClean_error nofun

theorem isClean_list (scope : Namespace) (type : EntityType) : IsClean (store.list scope type) := by
  refine (isClean_ensureOpen store).bind fun _ _ => ?_
  refine isClean_ite (fun _ => isClean_error nofun) fun _ => ?_
  refine (Catalog.isClean_liveBelow hFormed type scope.levels).bind fun versions hVersions => ?_
  exact Catalog.isClean_decodeAll (Catalog.isLegible_of_liveBelow hFormed hVersions)

theorem isClean_listTypes (scope : Namespace) (types : List EntityType) :
    IsClean (store.listTypes scope types) := by
  induction types with
  | nil => exact isClean_ok _
  | cons type rest ih =>
    exact (isClean_list hFormed scope type).bind fun _ _ => ih.bind fun _ _ => isClean_ok _

theorem isClean_versions (type : EntityType) (name : Name) : IsClean (store.versions type name) := by
  refine (isClean_ensureOpen store).bind fun _ _ => (isClean_checkDepth type name).bind fun _ _ => ?_
  refine (isClean_backend _).bind fun rows hRows => isClean_of_ok (exists_versionStates ?_)
  have hBelow : rows = store.backend.rows.below (Key.typed type name.path) :=
    Backend.scan_eq_ok (Outcome.mapError_eq_ok hRows)
  intro row hRow
  exact hFormed.exists_legible (hBelow ▸ hRow)

theorem readsCleanly : store.ReadsCleanly where
  load := isClean_load hFormed
  contains type name := by
    have hLoad := isClean_load hFormed type name
    rw [contains]
    cases hOutcome : store.load type name with
    | ok _ => exact isClean_ok _
    | error error =>
      rw [hOutcome] at hLoad
      exact isClean_ite (fun _ => isClean_ok _) fun _ => isClean_error (hLoad error rfl)
  loadById := isClean_loadById hFormed
  list := isClean_list hFormed
  listChildren scope := isClean_listTypes hFormed scope _
  versions := isClean_versions hFormed

end

/-- What is loaded is held in the slot of the name; there is nothing under a name that is not valid. -/
theorem slot_of_load {store : Store} {allowed : Stamp → Prop} {known : EntityId → Prop}
    (hFormed : store.backend.rows.IsFormed allowed known) {type : EntityType} {name : Name}
    {entity : Entity} (hOk : store.load type name = .ok entity) :
    ∃ slot : Slot, slot.type = type ∧ slot.name = name ∧ store.backend.rows.Holds slot entity := by
  obtain ⟨_, _, hRest⟩ := Outcome.bind_eq_ok hOk
  obtain ⟨_, hDepth, hRest⟩ := Outcome.bind_eq_ok hRest
  have hFits := checkDepth_eq_ok hDepth
  obtain ⟨found, hFound, hLast⟩ := Outcome.bind_eq_ok hRest
  cases found with
  | none => cases hLast
  | some found =>
    have hValid := Catalog.isValid_of_entity? hFormed hFits hFound
    exact ⟨⟨type, name, hFits, hValid⟩, rfl, rfl,
      @load_eq_ok store ⟨type, name, hFits, hValid⟩ entity hOk⟩

theorem name_of_load {store : Store} {allowed : Stamp → Prop} {known : EntityId → Prop}
    (hFormed : store.backend.rows.IsFormed allowed known) {type : EntityType} {name : Name}
    {entity : Entity} (hOk : store.load type name = .ok entity) :
    entity.name = name ∧ entity.type = type := by
  obtain ⟨slot, rfl, rfl, hHolds⟩ := slot_of_load hFormed hOk
  exact ⟨(hFormed.name_of_holds hHolds).1, hHolds.type_eq⟩

end Store

end VersionedCatalog
