import VersionedCatalog.Proofs.Ranges
import VersionedCatalog.Proofs.RoundTrips
import VersionedCatalog.Store.Alteration
import VersionedCatalog.Store.Collection
import VersionedCatalog.Store.Opening
import VersionedCatalog.Store.Removal
import Mathlib.Data.List.Forall2

/-! # Stores that differ in payloads

Two rows are alike if they have the same key and the same value, or if both are live versions whose
payloads are read as the same entity (`Storage.RowAlike`). Rows stay alike under alike batches
(`Storage.Rows.Alike.apply`), and whatever is read from them is the same, but for the payloads
themselves: every read of a store answers what it answers over rows that are alike
(`Store.Alike.load` to `Store.Alike.versions`), and a pass over them finds the same
(`Sweep.ofBackend_alike`).
-/

namespace VersionedCatalog

open Storage (Row Rows Backend)

/-! ### Outcomes that agree -/

/-- Two outcomes that are the same failure, or successes that are related. -/
inductive Outcome.Agree {ε α β : Type} (R : α → β → Prop) : Except ε α → Except ε β → Prop
  | ok {a : α} {b : β} (related : R a b) : Agree R (.ok a) (.ok b)
  | error (e : ε) : Agree R (.error e) (.error e)

namespace Outcome.Agree

variable {ε ε' α β γ δ : Type} {R : α → β → Prop} {S : γ → δ → Prop}

theorem refl {x : Except ε α} : Agree Eq x x := by
  cases x with
  | error e => exact .error e
  | ok a => exact .ok rfl

theorem of_eq {x y : Except ε α} (hSame : x = y) : Agree Eq x y := hSame ▸ refl

theorem eq {x y : Except ε α} (hAgree : Agree Eq x y) : x = y := by
  cases hAgree with
  | ok related => rw [related]
  | error e => rfl

theorem bind {x : Except ε α} {y : Except ε β} {f : α → Except ε γ} {g : β → Except ε δ}
    (hFirst : Agree R x y) (hRest : ∀ a b, R a b → Agree S (f a) (g b)) :
    Agree S (x >>= f) (y >>= g) := by
  cases hFirst with
  | ok related => exact hRest _ _ related
  | error e => exact .error e

/-- Steps that agree and are followed by the same from then on give the same. -/
theorem bind_eq {x : Except ε α} {y : Except ε β} {f : α → Except ε γ} {g : β → Except ε γ}
    (hFirst : Agree R x y) (hRest : ∀ a b, R a b → f a = g b) : x >>= f = y >>= g :=
  (hFirst.bind fun a b hRelated => of_eq (hRest a b hRelated)).eq

theorem map {x : Except ε α} {y : Except ε β} {f : α → γ} {g : β → δ} (hFirst : Agree R x y)
    (hRest : ∀ a b, R a b → S (f a) (g b)) :
    Agree S (do return f (← x)) (do return g (← y)) :=
  hFirst.bind fun a b hRelated => .ok (hRest a b hRelated)

theorem mapError {x : Except ε α} {y : Except ε β} (hAgree : Agree R x y) (f : ε → ε') :
    Agree R (x.mapError f) (y.mapError f) := by
  cases hAgree with
  | ok related => exact .ok related
  | error e => exact .error (f e)

end Outcome.Agree

open Outcome (Agree)

section
variable {α β : Type} {R : α → β → Prop} {p : α → Bool} {q : β → Bool}
  (hTest : ∀ a b, R a b → p a = q b)
include hTest

theorem forall₂_filter {l : List α} {m : List β} (hRel : List.Forall₂ R l m) :
    List.Forall₂ R (l.filter p) (m.filter q) := by
  refine List.rel_filter (fun a b hRelated => ?_) hRel
  show p a = true ↔ q b = true
  rw [hTest a b hRelated]

theorem optionRel_filter {a : Option α} {b : Option β} (hRel : Option.Rel R a b) :
    Option.Rel R (a.filter p) (b.filter q) := by
  cases hRel with
  | none => exact .none
  | some hRelated =>
    rw [Option.filter_some, Option.filter_some, hTest _ _ hRelated]
    split
    · exact .some hRelated
    · exact .none

end

/-! ### Rows -/

namespace Storage

inductive RowAlike : Row → Row → Prop
  | same (row : Row) : RowAlike row row
  | live {type : EntityType} {rest payload other : Bytes} (alike : AreAlike payload other) :
      RowAlike (type.code :: rest, Version.encodeValue .live payload)
        (type.code :: rest, Version.encodeValue .live other)

inductive OpAlike : Op → Op → Prop
  | put {key value other : Bytes} (alike : RowAlike (key, value) (key, other)) :
      OpAlike (.put key value) (.put key other)
  | delete (key : Bytes) : OpAlike (.delete key) (.delete key)

theorem RowAlike.key {row other : Row} (hAlike : RowAlike row other) : row.1 = other.1 := by
  cases hAlike <;> rfl

theorem RowAlike.symm {row other : Row} (hAlike : RowAlike row other) : RowAlike other row := by
  cases hAlike with
  | same => exact .same row
  | live alike => exact .live alike.symm

theorem OpAlike.refl (op : Op) : OpAlike op op := by
  cases op with
  | put key value => exact .put (.same (key, value))
  | delete key => exact .delete key

theorem opAlike_refl (batch : Batch) : List.Forall₂ OpAlike batch batch :=
  List.forall₂_same.mpr fun op _ => .refl op

def Rows.Alike (rows others : Rows) : Prop := List.Forall₂ RowAlike rows.entries others.entries

namespace Rows.Alike

theorem refl (rows : Rows) : rows.Alike rows := List.forall₂_same.mpr fun row _ => .same row

theorem insertEntry {key value other : Bytes} (hRow : RowAlike (key, value) (key, other))
    {l m : List Row} (hRows : List.Forall₂ RowAlike l m) : List.Forall₂ RowAlike
      (OrderedMap.insertEntry key value l) (OrderedMap.insertEntry key other m) := by
  induction hRows with
  | nil => exact .cons hRow .nil
  | cons hHead hTail ih =>
    simp only [OrderedMap.insertEntry, ← hHead.key]
    split
    next => exact .cons hRow (.cons hHead hTail)
    next =>
      split
      next => exact .cons hHead ih
      next => exact .cons hRow hTail

variable {rows others : Rows} (hAlike : rows.Alike others)
include hAlike

theorem applyOp {op other : Op} (hOp : OpAlike op other) :
    (rows.applyOp op).Alike (others.applyOp other) := by
  cases hOp with
  | put hRow => exact insertEntry hRow hAlike
  | delete key =>
    refine forall₂_filter (fun row other hRow => ?_) hAlike
    rw [hRow.key]

omit hAlike in
theorem symm (hAlike : rows.Alike others) : others.Alike rows :=
  (List.Forall₂.flip hAlike).imp fun _ _ hRow => hRow.symm

omit hAlike in
theorem mem_of_mem (hAlike : rows.Alike others) {row : Row}
    (hKey : ∀ (type : EntityType) (rest : Bytes), row.1 ≠ type.code :: rest)
    (hMem : row ∈ rows.entries) : row ∈ others.entries := by
  have hRows : List.Forall₂ RowAlike rows.entries others.entries := hAlike
  generalize rows.entries = l, others.entries = m at *
  induction hRows with
  | nil => cases hMem
  | cons hHead hTail ih =>
    rcases List.mem_cons.mp hMem with rfl | hMem
    · cases hHead with
      | same => exact List.mem_cons_self
      | @live type rest => exact absurd rfl (hKey type rest)
    · exact List.mem_cons_of_mem _ (ih hMem)

/-- What is no row of an entity is the same in both. -/
theorem get?_eq {key : Bytes} (hKey : ∀ (type : EntityType) (rest : Bytes), key ≠ type.code :: rest) :
    rows.get? key = others.get? key := by
  refine Option.ext fun value => ?_
  rw [OrderedMap.get?_eq_some_iff, OrderedMap.get?_eq_some_iff]
  exact ⟨hAlike.mem_of_mem hKey, hAlike.symm.mem_of_mem hKey⟩

theorem below (stem : Bytes) : List.Forall₂ RowAlike (rows.below stem) (others.below stem) := by
  rw [below_eq_filter, below_eq_filter]
  exact forall₂_filter (fun row other hRow => by rw [hRow.key]) hAlike

theorem lastBelow? (stem : Bytes) :
    Option.Rel RowAlike (rows.lastBelow? stem) (others.lastBelow? stem) := by
  have hReversed := List.forall₂_reverse_iff.mpr (hAlike.below stem)
  rw [Rows.lastBelow?, Rows.lastBelow?, ← List.head?_reverse, ← List.head?_reverse]
  generalize (rows.below stem).reverse = l, (others.below stem).reverse = m at hReversed
  cases hReversed with
  | nil => exact .none
  | cons hHead _ => exact .some hHead

end Rows.Alike

/-- Alike batches make alike rows of alike rows. -/
theorem Rows.Alike.apply {batch other : Batch} (hBatch : List.Forall₂ OpAlike batch other)
    {rows others : Rows} (hAlike : rows.Alike others) :
    (rows.apply batch).Alike (others.apply other) := by
  induction hBatch generalizing rows others with
  | nil => exact hAlike
  | cons hOp _ ih => exact ih (hAlike.applyOp hOp)

/-- Two backends that go on alike: a call that one permits the other permits too. -/
structure Backend.Alike (backend other : Backend) : Prop where
  rows : backend.rows.Alike other.rows
  isClosed : backend.isClosed = other.isClosed
  faults : backend.faults = other.faults

namespace Backend.Alike

variable {backend other : Backend} (hAlike : backend.Alike other)
include hAlike

theorem permit_eq (call : Call) : backend.permit call = other.permit call := by
  rw [permit, permit, ensureSound, ensureSound, ensureOpen, ensureOpen, hAlike.isClosed,
    hAlike.faults]

theorem withFaults (faults : List Call) :
    (backend.withFaults faults).Alike (other.withFaults faults) :=
  ⟨hAlike.rows, hAlike.isClosed, rfl⟩

theorem get_eq {key : Bytes} (hKey : ∀ (type : EntityType) (rest : Bytes), key ≠ type.code :: rest) :
    backend.get key = other.get key := by
  rw [get, get, hAlike.permit_eq, hAlike.rows.get?_eq hKey]

theorem scan (stem : Bytes) :
    Agree (List.Forall₂ RowAlike) (backend.scan stem) (other.scan stem) := by
  rw [Backend.scan, Backend.scan, hAlike.permit_eq]
  exact Agree.refl.bind fun _ _ _ => .ok (hAlike.rows.below stem)

theorem last (stem : Bytes) :
    Agree (Option.Rel RowAlike) (backend.last stem) (other.last stem) := by
  rw [Backend.last, Backend.last, hAlike.permit_eq]
  exact Agree.refl.bind fun _ _ _ => .ok (hAlike.rows.lastBelow? stem)

end Backend.Alike

end Storage

open Storage (RowAlike OpAlike)

/-! ### Versions -/

/-- Two versions that say the same. -/
structure Version.Alike (version other : Version) : Prop where
  stem : version.stem = other.stem
  stamp : version.stamp = other.stamp
  flag : version.flag = other.flag
  payload : AreAlike version.payload other.payload
  exact : version.flag ≠ .live → version.payload = other.payload

namespace Version

theorem Alike.refl (version : Version) : version.Alike version :=
  ⟨rfl, rfl, rfl, .refl _, fun _ => rfl⟩

theorem Alike.isLive {version other : Version} (hAlike : version.Alike other) :
    version.isLive = other.isLive := by
  rw [Version.isLive, Version.isLive, hAlike.flag]

theorem ofRow_alike {row other : Row} (hRow : RowAlike row other) :
    Agree Alike (ofRow row) (ofRow other) := by
  cases hRow with
  | same row =>
    cases ofRow row with
    | error error => exact .error error
    | ok version => exact .ok (.refl version)
  | live alike =>
    simp only [ofRow, decodeValue_encodeValue]
    exact Agree.refl.bind fun _ _ hSame => hSame ▸ .ok ⟨rfl, rfl, rfl, alike, fun hNot => absurd rfl hNot⟩

theorem ofRows_alike {rows others : List Row} (hRows : List.Forall₂ RowAlike rows others) :
    Agree (List.Forall₂ Alike) (ofRows rows) (ofRows others) := by
  induction hRows with
  | nil => exact .ok .nil
  | cons hRow _ ih =>
    exact (ofRow_alike hRow).bind fun _ _ hFirst => ih.map fun _ _ hRest => .cons hFirst hRest

theorem newest_alike {versions others : List Version} (hAlike : List.Forall₂ Alike versions others) :
    List.Forall₂ Alike (newest versions) (newest others) := by
  induction hAlike with
  | nil => exact .nil
  | cons hFirst hRest ih =>
    cases hRest with
    | nil => exact .cons hFirst .nil
    | cons hNext _ =>
      rw [newest, newest, hNext.stem, hFirst.stem]
      split
      next => exact ih
      next => exact .cons hFirst ih

end Version

/-! ### Reading the catalog -/

namespace Catalog

theorem decode_alike {version other : Version} (hAlike : version.Alike other) (type : EntityType) :
    decode type version = decode type other := by
  rw [decode, decode, hAlike.payload type]

theorem decodeAll_alike {versions others : List Version}
    (hAlike : List.Forall₂ Version.Alike versions others) (type : EntityType) :
    decodeAll type versions = decodeAll type others := by
  induction hAlike with
  | nil => rfl
  | cons hFirst _ ih => rw [decodeAll, decodeAll, decode_alike hFirst, ih]

theorem id_ne_entity (id : EntityId) (type : EntityType) (rest : Bytes) :
    Key.id id ≠ type.code :: rest := fun hKey =>
  Key.code_ne_idStem type (List.cons.inj hKey).1.symm

variable {backend other : Backend} (hAlike : backend.Alike other)
include hAlike

theorem latest?_alike (stem : Bytes) :
    Agree (Option.Rel Version.Alike) (latest? backend stem) (latest? other stem) := by
  refine ((hAlike.last stem).mapError _).bind fun row others hRow => ?_
  cases hRow with
  | none => exact .ok .none
  | some hRow => exact ((Version.ofRow_alike hRow).mapError _).map fun _ _ => .some

theorem liveBelow_alike (stem : Bytes) :
    Agree (List.Forall₂ Version.Alike) (liveBelow backend stem) (liveBelow other stem) := by
  have hNewest : Agree (List.Forall₂ Version.Alike) (latestBelow backend stem)
      (latestBelow other stem) :=
    ((hAlike.scan stem).mapError _).bind fun _ _ hRows =>
      ((Version.ofRows_alike hRows).mapError _).map fun _ _ => Version.newest_alike
  refine hNewest.map fun versions others hVersions => ?_
  exact forall₂_filter (fun version other hSame => hSame.isLive) hVersions

theorem live?_alike (type : EntityType) (name : Name) :
    Agree (Option.Rel Version.Alike) (live? backend type name) (live? other type name) :=
  (latest?_alike hAlike _).map fun _ _ hLatest => optionRel_filter (fun _ _ hSame => hSame.isLive) hLatest

theorem entity?_alike (type : EntityType) (name : Name) :
    entity? backend type name = entity? other type name := by
  refine (live?_alike hAlike type name).bind_eq fun version others hVersion => ?_
  cases hVersion with
  | none => rfl
  | some hVersion => simp only [decode_alike hVersion, hVersion.stamp]

theorem indexed?_alike (id : EntityId) : indexed? backend id = indexed? other id := by
  rw [indexed?, indexed?, hAlike.get_eq (id_ne_entity id)]

theorem claimId_alike (id : EntityId) (stem : Bytes) :
    claimId backend id stem = claimId other id stem := by
  simp only [claimId, indexed?_alike hAlike, entity?_alike hAlike]

theorem resolveKind_alike (name : Name) (parent : Option Entity) (kind : Kind) :
    resolveKind backend name parent kind = resolveKind other name parent kind := by
  have hRoot : ∀ schema, catalogRoot? backend schema = catalogRoot? other schema := fun schema => by
    simp only [catalogRoot?, entity?_alike hAlike]
  have hLocation : ∀ filesetType schema, resolveLocation backend name filesetType schema =
      resolveLocation other name filesetType schema := fun filesetType schema => by
    simp only [resolveLocation, hRoot]
  cases kind with
  | fileset filesetType location => simp only [resolveKind, hLocation]
  | _ => rfl

/-! ### Moving and dropping -/

theorem floorAt_alike (stem : Bytes) (stamp : Stamp) :
    floorAt backend stem stamp = floorAt other stem stamp := by
  refine (latest?_alike hAlike stem).bind_eq fun version others hVersion => ?_
  cases hVersion with
  | none => rfl
  | some hVersion => simp only [hVersion.stamp]

theorem relocate_alike (source target : Name) (type : EntityType) {version otherVersion : Version}
    (hVersion : version.Alike otherVersion) :
    relocate backend source target type version = relocate other source target type otherVersion := by
  simp only [relocate, decode_alike hVersion, floorAt_alike hAlike, hVersion.stem, hVersion.stamp]

theorem relocateAll_alike (source target : Name) (type : EntityType)
    {versions others : List Version} (hVersions : List.Forall₂ Version.Alike versions others) :
    relocateAll backend source target type versions =
      relocateAll other source target type others := by
  induction hVersions with
  | nil => rfl
  | cons hFirst _ ih => rw [relocateAll, relocateAll, relocate_alike hAlike _ _ _ hFirst, ih]

theorem relocateRanges_alike (source target : Name) (ranges : List (EntityType × Bytes)) :
    relocateRanges backend source target ranges = relocateRanges other source target ranges := by
  induction ranges with
  | nil => rfl
  | cons range rest ih =>
    rw [relocateRanges, relocateRanges, ih]
    refine (liveBelow_alike hAlike range.2).bind_eq fun versions others hVersions => ?_
    rw [relocateAll_alike hAlike _ _ _ hVersions]

theorem relocateTree_alike (name : Name) (stamp : Stamp) (entity : Entity) (target : Name) :
    relocateTree backend name stamp entity target = relocateTree other name stamp entity target := by
  simp only [relocateTree, relocateRanges_alike hAlike]
  refine (latest?_alike hAlike _).bind_eq fun version others hVersion => ?_
  cases hVersion with
  | none => rfl
  | some hVersion => simp only [Option.any_some, hVersion.isLive, hVersion.stamp]

/-- Two entities that are to be dropped, by versions that say the same. -/
def DoomedAlike (doomed other : Doomed) : Prop := doomed.1 = other.1 ∧ doomed.2.Alike other.2

theorem liveInRanges_alike (ranges : List (EntityType × Bytes)) :
    Agree (List.Forall₂ DoomedAlike) (liveInRanges backend ranges) (liveInRanges other ranges) := by
  induction ranges with
  | nil => exact .ok .nil
  | cons range rest ih =>
    refine (liveBelow_alike hAlike range.2).bind fun versions others hVersions =>
      ih.map fun first second hRest => List.rel_append ?_ hRest
    exact List.forall₂_map_left_iff.mpr (List.forall₂_map_right_iff.mpr
      (hVersions.imp fun version other hSame => ⟨rfl, hSame⟩))

theorem doomed_alike (type : EntityType) (name : Name) (cascade : Bool)
    {current otherCurrent : Version} (hCurrent : current.Alike otherCurrent) :
    Agree (List.Forall₂ DoomedAlike) (doomed backend type name cascade current)
      (doomed other type name cascade otherCurrent) := by
  refine (liveInRanges_alike hAlike _).bind fun below others hBelow => ?_
  have hEmpty : below.isEmpty = others.isEmpty := by cases hBelow <;> rfl
  rw [hEmpty]
  have hLast : DoomedAlike (type, current) (type, otherCurrent) := ⟨rfl, hCurrent⟩
  have hAll := List.rel_append hBelow (.cons hLast .nil)
  split
  next => exact .error _
  next => exact .ok hAll

omit hAlike in
theorem latestStamp_alike {doomed others : List Doomed}
    (hDoomed : List.Forall₂ DoomedAlike doomed others) : latestStamp doomed = latestStamp others := by
  induction hDoomed with
  | nil => rfl
  | cons hFirst _ ih => rw [latestStamp, latestStamp, ih, hFirst.2.stamp]

omit hAlike in
theorem tombstones_alike (stamp : Stamp) {doomed others : List Doomed}
    (hDoomed : List.Forall₂ DoomedAlike doomed others) :
    tombstones stamp doomed = tombstones stamp others := by
  induction hDoomed with
  | nil => rfl
  | cons hFirst _ ih =>
    rw [tombstones, tombstones, ih, hFirst.1, decode_alike hFirst.2, hFirst.2.stem]

end Catalog

/-! ### Sweeping -/

namespace Sweep

/-- Two rows with the stamp that their key ends with. -/
def StampedAlike (row other : Stamp × Row) : Prop := row.1 = other.1 ∧ RowAlike row.2 other.2

variable (policy : Policy)

theorem newestExpired_alike (stamp : Stamp) {row other : Row} (hRow : RowAlike row other) :
    newestExpired policy stamp row.2 = newestExpired policy stamp other.2 := by
  cases hRow with
  | same row => rfl
  | live alike => simp only [newestExpired, Version.decodeValue_encodeValue]; rfl

theorem expiredOf_alike {versions others : List (Stamp × Row)}
    (hAlike : List.Forall₂ StampedAlike versions others) :
    expiredOf policy versions = expiredOf policy others := by
  induction hAlike with
  | nil => rfl
  | @cons first second rest more hFirst hRest ih =>
    obtain ⟨stamp, key, value⟩ := first
    obtain ⟨otherStamp, otherKey, otherValue⟩ := second
    obtain ⟨hStamp, hRow⟩ := hFirst
    cases (show stamp = otherStamp from hStamp)
    cases (show key = otherKey from hRow.key)
    cases hRest with
    | nil =>
      have hExpired := newestExpired_alike policy stamp hRow
      simp only at hExpired
      simp only [expiredOf, hExpired]
    | @cons next nextOther _ _ hNext _ =>
      obtain ⟨nextStamp, nextRow⟩ := next
      obtain ⟨nextOtherStamp, nextOtherRow⟩ := nextOther
      cases (show nextStamp = nextOtherStamp from hNext.1)
      rw [expiredOf, expiredOf, ih]

theorem ofEntity_alike {versions others : List (Stamp × Row)}
    (hAlike : List.Forall₂ StampedAlike versions others) :
    ofEntity policy versions = ofEntity policy others := by
  simp only [ofEntity, expiredOf_alike policy hAlike, hAlike.length_eq]

theorem continueEntity_alike (stem : Bytes) {rows otherRows : List Row}
    (hRows : List.Forall₂ RowAlike rows otherRows) {versions others : List (Stamp × Row)}
    (hAlike : List.Forall₂ StampedAlike versions others) :
    continueEntity policy stem versions rows = continueEntity policy stem others otherRows := by
  induction hRows generalizing stem versions others with
  | nil => exact ofEntity_alike policy hAlike
  | @cons row other _ _ hRow _ ih =>
    rw [continueEntity, continueEntity, hRow.key, ofEntity_alike policy hAlike]
    refine Agree.refl.bind_eq fun found _ hSame => ?_
    cases hSame
    have hHere : List.Forall₂ StampedAlike [(found.2, row)] [(found.2, other)] :=
      .cons ⟨rfl, hRow⟩ .nil
    simp only
    split
    next => exact ih _ (List.rel_append hAlike hHere)
    next => rw [ih _ hHere]

theorem ofRows_alike {rows others : List Row} (hRows : List.Forall₂ RowAlike rows others) :
    ofRows policy rows = ofRows policy others := by
  cases hRows with
  | nil => rfl
  | cons hRow hRest =>
    rw [ofRows, ofRows, hRow.key]
    refine Agree.refl.bind_eq fun found _ hSame => ?_
    cases hSame
    exact continueEntity_alike policy _ hRest (.cons ⟨rfl, hRow⟩ .nil)

/-- A pass finds the same in rows that are alike. -/
theorem ofBackend_alike {backend other : Backend} (hAlike : backend.Alike other) :
    ofBackend policy backend = ofBackend policy other := by
  have hTypes : ∀ types, ofTypes policy backend types = ofTypes policy other types := by
    intro types
    induction types with
    | nil => rfl
    | cons type rest ih =>
      rw [ofTypes, ofTypes, ih]
      refine ((hAlike.scan [type.code]).mapError _).bind_eq fun rows others hRows => ?_
      rw [ofRows_alike policy hRows]
  exact hTypes EntityType.all

end Sweep

/-! ### Reading a store -/

namespace Store

/-- Two states of a store that differ in payloads and in the format of new ones at most. -/
structure Alike (store other : Store) : Prop where
  backend : store.backend.Alike other.backend
  settings : { store.settings with format := other.settings.format } = other.settings
  ids : store.ids = other.ids
  clock : store.clock = other.clock
  lastStamp : store.lastStamp = other.lastStamp
  locks : store.locks = other.locks
  watermark : store.watermark = other.watermark
  closed : store.closed = other.closed

theorem highestId_alike {backend other : Backend} (hAlike : backend.Alike other) :
    highestId backend = highestId other := by
  have hMark : ∀ (type : EntityType) (rest : Bytes), Key.watermark ≠ type.code :: rest :=
    fun type rest hKey => Key.code_ne_watermark type (List.cons.inj hKey).1.symm
  rw [highestId, highestId, hAlike.get_eq hMark]
  refine Agree.refl.bind_eq fun written _ hSame => hSame ▸ ?_
  refine ((hAlike.last [Key.idStem]).mapError _).bind_eq fun row others hRow => ?_
  cases hRow with
  | none => rfl
  | some hRow => simp only [Option.map_some, hRow.key]

namespace Alike

variable {store other : Store} (hAlike : store.Alike other)
include hAlike

theorem ensureOpen : store.ensureOpen = other.ensureOpen := by
  rw [Store.ensureOpen, Store.ensureOpen, hAlike.closed]

theorem load (type : EntityType) (name : Name) : store.load type name = other.load type name := by
  simp only [Store.load, hAlike.ensureOpen, Catalog.entity?_alike hAlike.backend]

theorem contains (type : EntityType) (name : Name) :
    store.contains type name = other.contains type name := by
  simp only [Store.contains, hAlike.load]

theorem loadById (id : EntityId) : store.loadById id = other.loadById id := by
  simp only [Store.loadById, hAlike.ensureOpen, Catalog.indexed?_alike hAlike.backend,
    Catalog.entity?_alike hAlike.backend]

theorem list (scope : Namespace) (type : EntityType) :
    store.list scope type = other.list scope type := by
  have hFound : (Catalog.liveBelow store.backend (Key.children type scope) >>= fun versions =>
      Catalog.decodeAll type versions) =
        Catalog.liveBelow other.backend (Key.children type scope) >>= fun versions =>
          Catalog.decodeAll type versions :=
    (Catalog.liveBelow_alike hAlike.backend _).bind_eq fun _ _ hVersions =>
      Catalog.decodeAll_alike hVersions type
  rw [Store.list, Store.list, hAlike.ensureOpen]
  simp only [hFound]

theorem listChildren (scope : Namespace) : store.listChildren scope = other.listChildren scope := by
  have hTypes : ∀ types, store.listTypes scope types = other.listTypes scope types := by
    intro types
    induction types with
    | nil => rfl
    | cons type rest ih => rw [listTypes, listTypes, hAlike.list, ih]
  exact hTypes _

theorem versions (type : EntityType) (name : Name) :
    store.versions type name = other.versions type name := by
  have hStates : ∀ {rows others : List Row}, List.Forall₂ RowAlike rows others →
      versionStates type rows = versionStates type others := by
    intro rows others hRows
    induction hRows with
    | nil => rfl
    | cons hRow _ ih =>
      rw [versionStates, versionStates, ih]
      refine ((Version.ofRow_alike hRow).mapError _).bind_eq fun version another hVersion => ?_
      have hState : versionState type version = versionState type another := by
        rw [versionState, versionState, ← hVersion.flag, Catalog.decode_alike hVersion]
        cases hFlag : version.flag with
        | live => rfl
        | tombstone => rfl
        | renamed => rw [hVersion.exact (by rw [hFlag]; decide)]
      rw [hState, hVersion.stamp]
  rw [Store.versions, Store.versions, hAlike.ensureOpen]
  refine Agree.refl.bind_eq fun _ _ _ => Agree.refl.bind_eq fun _ _ _ => ?_
  exact ((hAlike.backend.scan _).mapError _).bind_eq fun _ _ hRows => hStates hRows

end Alike

end Store

end VersionedCatalog
