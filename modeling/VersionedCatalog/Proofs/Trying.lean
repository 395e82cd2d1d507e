import VersionedCatalog.Proofs.Columns

/-! # Changes that are tried

A change that fails its checks is not begun, and nearly every change that fails later on has written
nothing by then, or only what was there: the entity stays as it is. The one exception is switching
the primary location of a fileset that has none with a backup location (`Change.Strands`): the backup
location becomes the primary one, and only then there is no location to go where it was
(`Change.leaves_or_strands`, `Sample.not_always_left`).

Whatever changes are tried on an entity one after another, failing ones included, there is a part of
it that they never touch, its owner is not lost, and no two of its columns come to have one name
(`Change.endures_tryAll`).
-/

namespace VersionedCatalog

namespace Change

theorem Strands.ne {change : Change} {entity after : Entity}
    (hStrands : change.Strands entity after) : after ≠ entity := by
  cases hStrands with
  | @switchPrimary key location fileset backup found missing =>
    intro hSame
    have hLocated := Entity.location?_withLocation fileset location
    rw [hSame, missing] at hLocated
    cases hLocated

theorem Strands.apply_eq {change : Change} {entity after : Entity}
    (hStrands : change.Strands entity after) :
    change.apply entity = (.error (.primaryMissing entity.name), after) := by
  cases hStrands with
  | @switchPrimary key location fileset backup found missing =>
    have hValid := validate_switchPrimary_iff.mpr ⟨fileset, backup⟩
    rw [apply, hValid]
    exact run_switchPrimary_of_missing fileset found missing

/-- What an entity is after a change has failed. A change that fails its checks fails with their
error and leaves the entity as it is. So does any other but the switch of a primary location that
is not there, which has the backup location for the primary one afterwards. -/
theorem leaves_or_strands (change : Change) (entity : Entity) :
    (∀ error, change.validate entity.type = .error error →
      change.apply entity = (.error error, entity)) ∧
    (∀ error after, change.apply entity = (.error error, after) →
      after = entity ∨ change.Strands entity after) ∧
    ∀ after, change.Strands entity after →
      change.apply entity = (.error (.primaryMissing entity.name), after) ∧ after ≠ entity := by
  refine ⟨fun error hFails => by rw [apply, hFails], fun error after hApply => ?_,
    fun after hStrands => ⟨hStrands.apply_eq, hStrands.ne⟩⟩
  have hEnds := change.ends_apply entity
  rw [hApply] at hEnds
  cases hEnds with
  | left => exact Or.inl rfl
  | stranded strands => exact Or.inr strands

end Change

namespace Sample

def spareKey : String := "backup-storage-location-1"

/-- A fileset that has a backup location and no primary one. -/
def adrift : Entity where
  id := ⟨7⟩
  name := ⟨⟨["m1", "c1", "s1"]⟩, "f1"⟩
  comment := none
  properties := OrderedMap.ofList [(spareKey, "/bak")]
  audit := .created "alice" 1000
  kind := .fileset .managed none

/-- The switch fails and leaves the backup location as the primary one. -/
theorem strands_adrift :
    (Change.switchPrimary spareKey).Strands adrift (adrift.withLocation "/bak") :=
  .switchPrimary rfl (by decide) (by decide +kernel) rfl

theorem leaves_or_strands_adrift :
    (Change.removeProperty Change.ownerKey).apply adrift = (.error .ownerRemoved, adrift) ∧
    ((Change.switchPrimary spareKey).apply adrift =
        (.error (.primaryMissing adrift.name), adrift.withLocation "/bak") ∧
      adrift.withLocation "/bak" ≠ adrift) ∧
    (adrift.withLocation "/bak" = adrift ∨
      (Change.switchPrimary spareKey).Strands adrift (adrift.withLocation "/bak")) :=
  ⟨((Change.removeProperty Change.ownerKey).leaves_or_strands adrift).1 _ (by decide),
    ((Change.switchPrimary spareKey).leaves_or_strands adrift).2.2 _ strands_adrift,
    ((Change.switchPrimary spareKey).leaves_or_strands adrift).2.1 _ _ strands_adrift.apply_eq⟩

theorem not_always_left : ¬ ∀ (change : Change) (entity after : Entity) (error : ChangeError),
    change.apply entity = (.error error, after) → after = entity := fun hAll =>
  strands_adrift.ne (hAll _ _ _ _ strands_adrift.apply_eq)

end Sample

/-! ### What no change touches -/

namespace Change

/-- The changes one after another, each on what the one before it left, failing or not. -/
def tryAll : List Change → Entity → Entity
  | [], entity => entity
  | change :: rest, entity => tryAll rest (change.apply entity).2

end Change

/-- A kind without what changes set: the columns of a table and the location of a fileset. -/
def Kind.fixed : Kind → Kind
  | .metalake => .metalake
  | .catalog catalogType provider => .catalog catalogType provider
  | .schema => .schema
  | .table _ partitioning => .table [] partitioning
  | .fileset filesetType _ => .fileset filesetType none

namespace Entity

open Change (ownerKey)

/-- What an entity keeps whatever changes are tried on it. -/
structure Endures (before after : Entity) : Prop extends Keeps before after where
  audit : after.audit = before.audit
  scope : after.name.scope = before.name.scope
  kind : after.kind.fixed = before.kind.fixed
  owned : before.properties.contains ownerKey = true → after.properties.contains ownerKey = true
  distinct : before.columnNames.Nodup → after.columnNames.Nodup

theorem Endures.refl (entity : Entity) : Endures entity entity :=
  ⟨.refl entity, rfl, rfl, rfl, fun hOwned => hOwned, fun hDistinct => hDistinct⟩

theorem Endures.trans {a b c : Entity} (hFirst : Endures a b) (hSecond : Endures b c) :
    Endures a c :=
  ⟨hFirst.toKeeps.trans hSecond.toKeeps, hSecond.audit.trans hFirst.audit,
    hSecond.scope.trans hFirst.scope, hSecond.kind.trans hFirst.kind,
    fun hOwned => hSecond.owned (hFirst.owned hOwned),
    fun hDistinct => hSecond.distinct (hFirst.distinct hDistinct)⟩

theorem endures_withProperty {key : String} (hKey : key ≠ EntityId.propertyKey) (entity : Entity)
    (value : String) : Endures entity (entity.withProperty key value) := by
  refine ⟨keeps_withProperty hKey entity value, rfl, rfl, rfl, fun hOwned => ?_,
    fun hDistinct => hDistinct⟩
  rw [withProperty, OrderedMap.contains, OrderedMap.get?_insert]
  split
  next => rfl
  next => exact hOwned

theorem endures_withoutProperty {key : String} (hKey : key ≠ EntityId.propertyKey)
    (hOwner : key ≠ ownerKey) (entity : Entity) : Endures entity (entity.withoutProperty key) := by
  refine ⟨keeps_withoutProperty hKey entity, rfl, rfl, rfl, fun hOwned => ?_,
    fun hDistinct => hDistinct⟩
  rwa [withoutProperty, OrderedMap.contains, OrderedMap.get?_erase, if_neg hOwner.symm]

theorem endures_withLocation (entity : Entity) (location : String) :
    Endures entity (entity.withLocation location) := by
  refine ⟨keeps_withLocation entity location, ?_, by rw [name_withLocation], ?_, ?_, ?_⟩
  · unfold withLocation
    split <;> rfl
  · unfold withLocation
    split
    next hKind => simp only [hKind, Kind.fixed]
    next => rfl
  · rw [properties_withLocation]
    exact fun hOwned => hOwned
  · rw [columnNames_withLocation]
    exact fun hDistinct => hDistinct

theorem endures_withColumns {entity : Entity} {columns : List Column}
    (hDistinct : entity.columnNames.Nodup → (entity.withColumns columns).columnNames.Nodup) :
    Endures entity (entity.withColumns columns) := by
  refine ⟨keeps_withColumns entity columns, ?_, by rw [name_withColumns], ?_, ?_, hDistinct⟩
  · unfold withColumns
    split <;> rfl
  · unfold withColumns
    split
    next hKind => simp only [hKind, Kind.fixed]
    next => rfl
  · unfold withColumns
    split <;> exact fun hOwned => hOwned

end Entity

namespace Change

open Entity

theorem ne_ownerKey_of_isBackupKey {key : String} (hBackup : isBackupKey key = true) :
    key ≠ ownerKey := by
  rintro rfl
  revert hBackup
  decide

theorem Makes.distinct {change : Change} {entity changed : Entity}
    (hMakes : change.Makes entity changed) (hDistinct : entity.columnNames.Nodup) :
    changed.columnNames.Nodup := by
  refine List.nodup_iff_count_le_one.mpr fun name => ?_
  have hOnce := List.nodup_iff_count_le_one.mp hDistinct name
  have hCount := hMakes.count_le name
  omega

theorem Makes.endures {change : Change} {entity changed : Entity}
    (hMakes : change.Makes entity changed) : Endures entity changed := by
  have hDistinct := hMakes.distinct
  cases hMakes with
  | setProperty unreserved => exact endures_withProperty unreserved entity _
  | removeProperty unowned unreserved => exact endures_withoutProperty unreserved unowned entity
  | updateComment | removeComment | rename =>
    exact ⟨⟨rfl, rfl, rfl⟩, rfl, rfl, rfl, fun hOwned => hOwned, fun hDistinct => hDistinct⟩
  | updateLocation => exact endures_withLocation entity _
  | addBackup backup | updateBackup backup =>
    exact endures_withProperty (ne_propertyKey_of_isBackupKey backup) entity _
  | removeBackup backup =>
    exact endures_withoutProperty (ne_propertyKey_of_isBackupKey backup)
      (ne_ownerKey_of_isBackupKey backup) entity
  | switchBackups backups =>
    exact (endures_withProperty (ne_propertyKey_of_isBackupKey backups.2) entity _).trans
      (endures_withProperty (ne_propertyKey_of_isBackupKey backups.1) _ _)
  | switchPrimary backup =>
    exact (endures_withLocation entity _).trans
      (endures_withProperty (ne_propertyKey_of_isBackupKey backup) _ _)
  | addColumn | deleteColumn | updateColumnComment => exact endures_withColumns hDistinct

theorem Strands.endures {change : Change} {entity after : Entity}
    (hStrands : change.Strands entity after) : Endures entity after := by
  cases hStrands with
  | switchPrimary => exact endures_withLocation entity _

theorem endures_apply (change : Change) (entity : Entity) :
    Endures entity (change.apply entity).2 := by
  have hEnds := change.ends_apply entity
  generalize change.apply entity = outcome at hEnds
  cases hEnds with
  | made makes => exact makes.endures
  | left => exact .refl entity
  | stranded strands => exact strands.endures

/-- However many changes are tried on an entity, and whichever of them fail: its id, its audit
record, its namespace, its type, the property with its id, and of its kind all but columns and
location are what they were, an owner that was there is still there, and columns of distinct names
are still of distinct names. -/
theorem endures_tryAll (changes : List Change) (entity : Entity) :
    Endures entity (tryAll changes entity) := by
  induction changes generalizing entity with
  | nil => exact .refl entity
  | cons change rest ih => exact (change.endures_apply entity).trans (ih _)

end Change

end VersionedCatalog
