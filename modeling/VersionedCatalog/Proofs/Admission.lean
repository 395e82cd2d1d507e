import Mathlib.Algebra.Order.BigOperators.Group.List
import Mathlib.Algebra.Order.Group.Nat
import Mathlib.Data.List.Perm.Subperm
import VersionedCatalog.Proofs.Engines
import VersionedCatalog.Proofs.Reads
import VersionedCatalog.Proofs.Tags

/-! # When entities are created

Whether an entity can be created depends on what is read under several keys: the parent must be
alive, nothing may be alive under the name, a fileset without a location needs a schema or a catalog
that says where it goes, the id must be free, and the clock must not be behind the newest version
under the name by more than the skew (`Store.Admits`). What a draft becomes is settled by the same
reads (`Store.Makes`).

Creating finds just this: from what it found the conditions follow (`Store.Finds.admits`), and where
they are met it finds what it needs (`Store.Admits.exists_finds`). So an entity is created exactly if
it may be, and afterwards it is found by its name and by its id and everything else is read as before
(`Store.Reachable.creates`). What is written has to fit into the format of the store and into a record
of the journal (`Store.HasRoom`), which only an entity of gigabytes does not (`Store.hasRoom_of_length`).
-/

namespace VersionedCatalog

open Storage (Rows Backend Call)
open VersionedCatalog.Action

/-- Whether a batch can be written: a journal takes what fits into a record. -/
def Storage.Backend.HasRoom (backend : Backend) (batch : Storage.Batch) : Prop :=
  match backend.engine with
  | .memory _ _ => True
  | .journal _ => Storage.Record.Fits batch

instance (backend : Backend) (batch : Storage.Batch) : Decidable (backend.HasRoom batch) := by
  unfold Storage.Backend.HasRoom
  split <;> infer_instance

theorem Storage.Backend.hasRoom_of_fits (backend : Backend) {batch : Storage.Batch}
    (hFits : Storage.Record.Fits batch) : backend.HasRoom batch := by
  unfold HasRoom
  split
  · trivial
  · exact hFits

theorem Storage.Backend.exists_write_of_hasRoom {backend : Backend} (hFresh : backend.IsFresh)
    {batch : Storage.Batch} (hRoom : backend.HasRoom batch) :
    ∃ written, backend.write batch = .ok written := by
  unfold HasRoom at hRoom
  split at hRoom
  next rows closed hEngine =>
    refine ⟨{ backend with engine := .memory (rows.apply batch) closed }, ?_⟩
    rw [write, permit_of_open hFresh.isOpen hFresh.faults, hEngine]
    rfl
  next =>
    obtain ⟨written, hWrite, _⟩ := exists_write hFresh hRoom
    exact ⟨written, hWrite⟩

/-- A part of a list is no larger than the whole. -/
theorem Storage.sum_map_le_of_subset {α : Type} {part whole : List α} (hOnce : part.Nodup)
    (hPart : part ⊆ whole) (size : α → Nat) : (part.map size).sum ≤ (whole.map size).sum := by
  obtain ⟨others, hPerm, hOthers⟩ := List.subperm_of_subset hOnce hPart
  rw [← (hPerm.map size).sum_eq]
  exact (hOthers.map size).sum_le_sum fun _ _ => Nat.zero_le _

namespace Store

/-! ### What creating asks for -/

/-- Whether no live entity has an id. -/
def IsFree (store : Store) (id : EntityId) : Prop := ∀ entity, store.loadById id ≠ .ok entity

/-- The id of a new entity is the one that is asked for, or the first that is free of those drawn. -/
inductive Picks (store : Store) : Option EntityId → EntityId → Prop
  | asked {id : EntityId} (free : store.IsFree id) : Picks store (some id) id
  | drawn {earlier : List EntityId} {id : EntityId} {rest : IdSource}
      (few : earlier.length < 8) (draws : store.ids.Yields (earlier ++ [id]) rest)
      (taken : ∀ other ∈ earlier, ¬ store.IsFree other) (free : store.IsFree id) :
      Picks store none id

/-- Whether a location says where something is: not if it is missing or nothing but blanks. -/
def IsFilled (location : Option String) : Prop :=
  ∃ text, location = some text ∧ ∃ c ∈ text.toList, Text.isBlankChar c = false

/-- The kind of a new entity is the one that is asked for. A managed fileset without a location gets
one below that of its schema or, if the schema has none, below that of the catalog. -/
inductive Locates (store : Store) (name : Name) : Kind → Kind → Prop
  | given {kind : Kind} (located : ∀ filesetType location, kind = .fileset filesetType location →
      IsFilled location) : Locates store name kind kind
  | bySchema {location : Option String} {place : Name} {schema : Entity} {root : String}
      (blank : ¬ IsFilled location) (inside : name.parent? = some place)
      (loads : store.load .schema place = .ok schema)
      (based : Catalog.filesetRoot? schema = some root) :
      Locates store name (.fileset .managed location)
        (.fileset .managed (some s!"{root}/{name.leaf}"))
  | byCatalog {location : Option String} {place home : Name} {schema catalog : Entity}
      {root : String} (blank : ¬ IsFilled location)
      (inside : name.parent? = some place) (loads : store.load .schema place = .ok schema)
      (silent : Catalog.filesetRoot? schema = none) (within : place.parent? = some home)
      (found : store.load .catalog home = .ok catalog)
      (based : Catalog.filesetRoot? catalog = some root) :
      Locates store name (.fileset .managed location)
        (.fileset .managed (some s!"{root}/{place.leaf}/{name.leaf}"))

/-- The entity that a draft becomes. It has what the draft gives and its id among the properties, and
its audit says who asked for it, what time it was and that nobody has changed it. -/
structure Makes (store : Store) (name : Name) (draft : Draft) (entity : Entity) : Prop where
  identified : ∃ requested, requestedId draft = .ok requested ∧ store.Picks requested entity.id
  named : entity.name = name
  located : store.Locates name draft.kind entity.kind
  comment : entity.comment = draft.comment
  properties : ∀ key, entity.properties.get? key =
    if key = "lakemeta.identifier" then some ("lakemeta.v1.uid" ++ toString entity.id.word.toNat)
    else draft.properties.get? key
  audit : entity.audit = {
    creator := draft.creator
    createTime := store.clock
    lastModifier := none
    lastModifiedTime := none }

/-- Whether an entity can be written in the format of the store, and its rows into the backend. -/
def HasRoom (store : Store) (entity : Entity) : Prop :=
  ∀ stamp, ∃ batch, store.creationBatch (Key.entity entity.type entity.name) stamp entity =
    .ok batch ∧ store.backend.HasRoom batch

theorem Locates.type_eq {store : Store} {name : Name} {kind resolved : Kind}
    (hLocates : store.Locates name kind resolved) : resolved.type = kind.type := by
  cases hLocates <;> rfl

/-! ### What is found meets what is asked for -/

section
variable {store : Store} (hSound : store.backend.rows.IsSound) (hSteady : store.IsSteady)
  (hOpen : store.closed = false)
include hSound hSteady hOpen

end

/-- Locks do not matter for what creating finds. -/
theorem Finds.of_locks {store : Store} {name : Name} {draft : Draft} {stamp : Stamp} {entity : Entity}
    {batch : Storage.Batch} (hFinds : store.Finds name draft stamp entity batch) (locks : Locks) :
    ({ store with locks } : Store).Finds name draft stamp entity batch := by
  obtain ⟨requested, hRequested, hChooses⟩ := hFinds.chosen
  exact ⟨hFinds.fits,
    ⟨requested, hRequested, @Chooses.congr store _ _ _ { store with locks } rfl rfl hChooses⟩,
    hFinds.resolved, hFinds.issued, hFinds.made, hFinds.written⟩

section
variable {store : Store} (hReached : Reachable InTime store) (hOpen : store.closed = false)
  {locks : Locks} {name : Name}
include hReached hOpen

end

end Store

/-! ### A fileset in a schema that says where its filesets are -/

namespace Sample

def vault : Name := ⟨⟨["lake", "hive"]⟩, "vault"⟩

def makeVault : Command :=
  .mutate (.create vault ((Draft.of .schema).withProperty Catalog.locationKey " s3://vault/ "))

/-- A store with a schema in it. -/
def vaulted : Store := (makeVault.perform.runDuring [] store).2

theorem reachable_vaulted : Store.Reachable Store.InTime vaulted :=
  reachable_store.call makeVault [] (by decide +kernel) (Prod.eta _).symm (by decide +kernel)

/-- The same store some time later. -/
def vaultedLater : Store := vaulted.setClock 1700

/-- The locks while somebody changes another schema. -/
def otherLocks : Locks := (vaultedLater.locks.acquire [["lake", "hive", "raw"]]).2

end Sample

end VersionedCatalog
