import VersionedCatalog.Proofs.Names
import VersionedCatalog.Proofs.Outcomes
import VersionedCatalog.Store.Alteration

/-! # What changes make and keep

A change that passes its checks is made in place, and what comes of it is one of three things
(`Change.ends_apply`): it makes of the entity what it is there for (`Change.Makes`), or it fails and
leaves the entity as it is, or it is the switch of a primary location that is not there and fails
with a backup location in its place (`Change.Strands`).

Whatever changes make of an entity, it keeps its id, its type, the property that carries its id and
the namespace of its name; its name is the one that the changes lead to, and it stays valid
(`Change.applyAll_eq_ok`).
-/

namespace VersionedCatalog

namespace Entity

/-- What no change of an entity touches. -/
structure Keeps (before after : Entity) : Prop where
  id : after.id = before.id
  type : after.type = before.type
  tag : after.properties.get? EntityId.propertyKey = before.properties.get? EntityId.propertyKey

theorem Keeps.refl (entity : Entity) : Keeps entity entity := ⟨rfl, rfl, rfl⟩

theorem Keeps.trans {a b c : Entity} (hFirst : Keeps a b) (hSecond : Keeps b c) : Keeps a c :=
  ⟨hSecond.id.trans hFirst.id, hSecond.type.trans hFirst.type, hSecond.tag.trans hFirst.tag⟩

variable {key : String} (hKey : key ≠ EntityId.propertyKey)
include hKey

theorem keeps_withProperty (entity : Entity) (value : String) :
    Keeps entity (entity.withProperty key value) := by
  refine ⟨rfl, rfl, ?_⟩
  rw [withProperty, OrderedMap.get?_insert, if_neg hKey.symm]

theorem keeps_withoutProperty (entity : Entity) : Keeps entity (entity.withoutProperty key) := by
  refine ⟨rfl, rfl, ?_⟩
  rw [withoutProperty, OrderedMap.get?_erase, if_neg hKey.symm]

omit hKey

theorem keeps_withLocation (entity : Entity) (location : String) :
    Keeps entity (entity.withLocation location) := by
  unfold withLocation
  split
  next filesetType found hKind => exact ⟨rfl, by simp [type, hKind, Kind.type], rfl⟩
  next => exact .refl entity

theorem keeps_withColumns (entity : Entity) (columns : List Column) :
    Keeps entity (entity.withColumns columns) := by
  unfold withColumns
  split
  next found partitioning hKind => exact ⟨rfl, by simp [type, hKind, Kind.type], rfl⟩
  next => exact .refl entity

theorem name_withLocation (entity : Entity) (location : String) :
    (entity.withLocation location).name = entity.name := by
  unfold withLocation
  split <;> rfl

theorem properties_withLocation (entity : Entity) (location : String) :
    (entity.withLocation location).properties = entity.properties := by
  unfold withLocation
  split <;> rfl

/-- Columns that are written over themselves stay. -/
theorem withColumns_columns (entity : Entity) : entity.withColumns entity.columns = entity := by
  obtain ⟨_, _, _, _, _, kind⟩ := entity
  cases kind <;> rfl

theorem name_withColumns (entity : Entity) (columns : List Column) :
    (entity.withColumns columns).name = entity.name := by
  unfold withColumns
  split <;> rfl

end Entity

/-! ### How edits run -/

namespace Edit

variable {α β : Type} {x : Edit α} {f : α → Edit β} {entity middle : Entity}

theorem run_get_bind {f : Entity → Edit β} :
    (get >>= f).run entity = (f entity).run entity := rfl

theorem run_setColumns_bind {columns : List Column} {f : Unit → Edit β} :
    (setColumns columns >>= f).run entity = (f ()).run (entity.withColumns columns) := rfl

theorem run_ite {p : Prop} [Decidable p] {x y : Edit α} :
    (if p then x else y).run entity = if p then x.run entity else y.run entity := by
  split <;> rfl

theorem run_bind_of_ok {a : α} (hRun : x.run entity = (.ok a, middle)) :
    (x >>= f).run entity = (f a).run middle := by
  have hSame : x entity = (.ok a, middle) := hRun
  show (ExceptT.bindCont f (x entity).1 : StateM Entity (Except ChangeError β)) (x entity).2 = _
  rw [hSame]
  rfl

theorem run_bind_of_error {error : ChangeError} (hRun : x.run entity = (.error error, middle)) :
    (x >>= f).run entity = (.error error, middle) := by
  have hSame : x entity = (.error error, middle) := hRun
  show (ExceptT.bindCont f (x entity).1 : StateM Entity (Except ChangeError β)) (x entity).2 = _
  rw [hSame]
  rfl

theorem run_discard_of_ok {a : α} (hRun : x.run entity = (.ok a, middle)) :
    (discard x).run entity = (.ok (), middle) := run_bind_of_ok hRun

theorem run_backup_of_found {key location : String}
    (hFound : entity.properties.get? key = some location) :
    (backup key).run entity = (.ok location, entity) := by
  rw [backup, run_get_bind]
  simp only [hFound]
  rfl

theorem run_backup_of_missing {key : String} (hMissing : entity.properties.get? key = none) :
    (backup key).run entity = (.error (.backupMissing key entity.name), entity) := by
  rw [backup, run_get_bind]
  simp only [hMissing]
  rfl

theorem run_replaceBackup_of_found {key old : String}
    (hFound : entity.properties.get? key = some old) (location : String) :
    (replaceBackup key location).run entity = (.ok old, entity.withProperty key location) :=
  run_bind_of_ok (run_backup_of_found hFound)

theorem run_replaceBackup_of_missing {key : String} (hMissing : entity.properties.get? key = none)
    (location : String) : (replaceBackup key location).run entity =
      (.error (.backupMissing key entity.name), entity) :=
  run_bind_of_error (run_backup_of_missing hMissing)

/-- Only filesets have a location that can be replaced. -/
theorem run_replaceLocation (location : String) (entity : Entity) :
    (replaceLocation location).run entity =
      if entity.type = .fileset then (.ok entity.location?, entity.withLocation location)
      else (.error (.noLocation entity.type), entity) := by
  obtain ⟨_, _, _, _, _, kind⟩ := entity
  cases kind <;> rfl

/-- Only tables have columns. -/
theorem run_columns (entity : Entity) : columns.run entity =
    if entity.type = .table then (.ok entity.columns, entity)
    else (.error (.noColumns entity.type), entity) := by
  obtain ⟨_, _, _, _, _, kind⟩ := entity
  cases kind <;> rfl

end Edit

namespace Change

open Entity

/-- The reserved property holds no backup location. -/
theorem ne_propertyKey_of_isBackupKey {key : String} (hBackup : isBackupKey key = true) :
    key ≠ EntityId.propertyKey := by
  rintro rfl
  revert hBackup
  decide

theorem isBackupKey_of_checkBackupKey {key : String} (hOk : checkBackupKey key = .ok ()) :
    isBackupKey key = true := by
  unfold checkBackupKey at hOk
  split at hOk
  next hBackup => exact hBackup
  next => cases hOk

theorem isBlank_of_checkLocation {location : String} (hOk : checkLocation location = .ok ()) :
    Text.isBlank location = false := by
  unfold checkLocation at hOk
  split at hOk
  next => cases hOk
  next hFilled => exact Bool.eq_false_iff.mpr hFilled

theorem ne_propertyKey_of_checkNotReserved {key : String} (hOk : checkNotReserved key = .ok ()) :
    key ≠ EntityId.propertyKey := by
  unfold checkNotReserved at hOk
  split at hOk
  next => cases hOk
  next hOther => exact hOther

theorem validate_switchPrimary_iff {key : String} {type : EntityType} :
    (switchPrimary key).validate type = .ok () ↔ type = .fileset ∧ isBackupKey key = true := by
  constructor
  · intro hValid
    obtain ⟨_, hType, hKey⟩ := Outcome.bind_eq_ok hValid
    refine ⟨?_, isBackupKey_of_checkBackupKey hKey⟩
    unfold checkType at hType
    split at hType
    next hFileset => exact hFileset
    next => cases hType
  · rintro ⟨rfl, hBackup⟩
    simp only [validate, checkType, checkBackupKey, hBackup]
    rfl

/-- What a change makes of an entity, with what its checks found. -/
inductive Makes (entity : Entity) : Change → Entity → Prop
  | setProperty {key value : String} (unreserved : key ≠ EntityId.propertyKey) :
      Makes entity (.setProperty key value) (entity.withProperty key value)
  | removeProperty {key : String} (unowned : key ≠ ownerKey)
      (unreserved : key ≠ EntityId.propertyKey) :
      Makes entity (.removeProperty key) (entity.withoutProperty key)
  | updateComment (comment : String) :
      Makes entity (.updateComment comment) { entity with comment := some comment }
  | removeComment : Makes entity .removeComment { entity with comment := none }
  | rename {leaf : String} (isLeaf : isLeaf leaf = true) :
      Makes entity (.rename leaf) { entity with name := ⟨entity.name.scope, leaf⟩ }
  | updateLocation {location : String} (filled : Text.isBlank location = false) :
      Makes entity (.updateLocation location) (entity.withLocation location)
  | addBackup {key location : String} (backup : isBackupKey key = true)
      (filled : Text.isBlank location = false) :
      Makes entity (.addBackup key location) (entity.withProperty key location)
  | updateBackup {key location : String} (backup : isBackupKey key = true)
      (filled : Text.isBlank location = false) :
      Makes entity (.updateBackup key location) (entity.withProperty key location)
  | removeBackup {key : String} (backup : isBackupKey key = true) :
      Makes entity (.removeBackup key) (entity.withoutProperty key)
  | switchBackups {first second firstLocation secondLocation : String}
      (backups : isBackupKey first = true ∧ isBackupKey second = true)
      (found : entity.properties.get? first = some firstLocation)
      (there : entity.properties.get? second = some secondLocation) :
      Makes entity (.switchBackups first second)
        ((entity.withProperty second firstLocation).withProperty first secondLocation)
  | switchPrimary {key location primary : String} (backup : isBackupKey key = true)
      (found : entity.properties.get? key = some location)
      (located : entity.location? = some primary) :
      Makes entity (.switchPrimary key)
        ((entity.withLocation location).withProperty key primary)
  | addColumn {column : Column} (absent : hasColumn column.name entity.columns = false) :
      Makes entity (.addColumn column) (entity.withColumns (entity.columns ++ [column]))
  | deleteColumn {name : String} {ifExists : Bool} :
      Makes entity (.deleteColumn name ifExists)
        (entity.withColumns (withoutColumn name entity.columns))
  | updateColumnComment {name comment : String} :
      Makes entity (.updateColumnComment name comment)
        (entity.withColumns (commentColumn name comment entity.columns))

/-- The switch that has made a backup location the primary one when it fails. -/
inductive Strands (entity : Entity) : Change → Entity → Prop
  | switchPrimary {key location : String} (fileset : entity.type = .fileset)
      (backup : isBackupKey key = true) (found : entity.properties.get? key = some location)
      (missing : entity.location? = none) :
      Strands entity (.switchPrimary key) (entity.withLocation location)

/-- What comes of a change. -/
inductive Ends (entity : Entity) (change : Change) : Except ChangeError Unit × Entity → Prop
  | made {changed : Entity} (makes : change.Makes entity changed) :
      Ends entity change (.ok (), changed)
  | left (error : ChangeError) : Ends entity change (.error error, entity)
  | stranded {after : Entity} (strands : change.Strands entity after) :
      Ends entity change (.error (.primaryMissing entity.name), after)

/-! ### What comes of each change -/

section
variable {change : Change} {entity : Entity}

/-- A look at a backup location that is not there ends a change. -/
theorem ends_of_backup {key : String} {f : String → Edit Unit}
    (hRest : ∀ location, entity.properties.get? key = some location →
      change.Ends entity ((f location).run entity)) :
    change.Ends entity ((Edit.backup key >>= f).run entity) := by
  cases hFound : entity.properties.get? key with
  | none =>
    rw [Edit.run_bind_of_error (Edit.run_backup_of_missing hFound)]
    exact .left _
  | some location =>
    rw [Edit.run_bind_of_ok (Edit.run_backup_of_found hFound)]
    exact hRest location hFound

theorem ends_of_replaceBackup {key location : String} {f : String → Edit Unit}
    (hRest : ∀ old, entity.properties.get? key = some old →
      change.Ends entity ((f old).run (entity.withProperty key location))) :
    change.Ends entity ((Edit.replaceBackup key location >>= f).run entity) := by
  cases hFound : entity.properties.get? key with
  | none =>
    rw [Edit.run_bind_of_error (Edit.run_replaceBackup_of_missing hFound location)]
    exact .left _
  | some old =>
    rw [Edit.run_bind_of_ok (Edit.run_replaceBackup_of_found hFound location)]
    exact hRest old hFound

theorem ends_of_replaceLocation {location : String} {f : Option String → Edit Unit}
    (hRest : change.Ends entity ((f entity.location?).run (entity.withLocation location))) :
    change.Ends entity ((Edit.replaceLocation location >>= f).run entity) := by
  have hRun := Edit.run_replaceLocation location entity
  split at hRun
  next =>
    rw [Edit.run_bind_of_ok hRun]
    exact hRest
  next =>
    rw [Edit.run_bind_of_error hRun]
    exact .left _

theorem ends_of_columns {f : List Column → Edit Unit}
    (hRest : change.Ends entity ((f entity.columns).run entity)) :
    change.Ends entity ((Edit.columns >>= f).run entity) := by
  have hRun := Edit.run_columns entity
  split at hRun
  next =>
    rw [Edit.run_bind_of_ok hRun]
    exact hRest
  next =>
    rw [Edit.run_bind_of_error hRun]
    exact .left _

/-- A leaf that passed its check passes it again when the name is made. -/
theorem run_rename {leaf : String} (hLeaf : isLeaf leaf = true) :
    (rename leaf).edit.run entity =
      (.ok (), { entity with name := ⟨entity.name.scope, leaf⟩ }) := by
  have hCheck := (NamePart.check_eq_ok_iff .leaf leaf).mpr (isSound_of_isLeaf hLeaf)
  have hName : entity.name.withLeaf leaf = .ok ⟨entity.name.scope, leaf⟩ := by
    rw [Name.withLeaf, Name.of, hCheck]
    rfl
  simp only [edit, Edit.run_get_bind, hName]
  rfl

theorem ends_addBackup {key location : String} (hKey : isBackupKey key = true)
    (hFilled : Text.isBlank location = false) :
    (addBackup key location).Ends entity ((addBackup key location).edit.run entity) := by
  simp only [edit, Edit.run_get_bind, Edit.run_ite]
  split
  next => exact .left _
  next => exact .made (.addBackup hKey hFilled)

/-- Both locations are looked up before the first one is written, so the last look finds one. -/
theorem run_switchBackups {first second firstLocation secondLocation : String}
    (hFirst : entity.properties.get? first = some firstLocation)
    (hSecond : entity.properties.get? second = some secondLocation) :
    (switchBackups first second).edit.run entity =
      (.ok (), (entity.withProperty second firstLocation).withProperty first secondLocation) := by
  have hStill : (entity.withProperty second firstLocation).properties.get? first =
      some firstLocation := by
    rw [withProperty, OrderedMap.get?_insert, hFirst]
    exact ite_self _
  rw [edit, Edit.run_bind_of_ok (Edit.run_backup_of_found hFirst),
    Edit.run_bind_of_ok (Edit.run_replaceBackup_of_found hSecond _)]
  exact Edit.run_discard_of_ok (Edit.run_replaceBackup_of_found hStill _)

theorem ends_switchBackups {first second : String}
    (hKeys : isBackupKey first = true ∧ isBackupKey second = true) :
    (switchBackups first second).Ends entity ((switchBackups first second).edit.run entity) := by
  refine ends_of_backup fun firstLocation hFirst =>
    ends_of_replaceBackup fun secondLocation hSecond => ?_
  have hRun := run_switchBackups hFirst hSecond
  rw [edit, Edit.run_bind_of_ok (Edit.run_backup_of_found hFirst),
    Edit.run_bind_of_ok (Edit.run_replaceBackup_of_found hSecond _)] at hRun
  rw [hRun]
  exact .made (.switchBackups hKeys hFirst hSecond)

section
variable {key location : String} (hType : entity.type = .fileset)
  (hFound : entity.properties.get? key = some location)
include hType hFound

theorem run_switchPrimary_of_located {primary : String}
    (hLocated : entity.location? = some primary) : (switchPrimary key).edit.run entity =
      (.ok (), (entity.withLocation location).withProperty key primary) := by
  have hRun := Edit.run_replaceLocation location entity
  rw [if_pos hType, hLocated] at hRun
  rw [edit, Edit.run_bind_of_ok (Edit.run_backup_of_found hFound), Edit.run_bind_of_ok hRun]
  rw [← properties_withLocation entity location] at hFound
  exact Edit.run_discard_of_ok (Edit.run_replaceBackup_of_found hFound primary)

/-- When it turns out that there was no primary location, it has been written over. -/
theorem run_switchPrimary_of_missing (hMissing : entity.location? = none) :
    (switchPrimary key).edit.run entity =
      (.error (.primaryMissing entity.name), entity.withLocation location) := by
  have hRun := Edit.run_replaceLocation location entity
  rw [if_pos hType, hMissing] at hRun
  rw [edit, Edit.run_bind_of_ok (Edit.run_backup_of_found hFound), Edit.run_bind_of_ok hRun,
    ← name_withLocation entity location]
  rfl

end

theorem ends_switchPrimary {key : String} (hType : entity.type = .fileset)
    (hKey : isBackupKey key = true) :
    (switchPrimary key).Ends entity ((switchPrimary key).edit.run entity) := by
  cases hFound : entity.properties.get? key with
  | none =>
    rw [edit, Edit.run_bind_of_error (Edit.run_backup_of_missing hFound)]
    exact .left _
  | some location =>
    cases hLocated : entity.location? with
    | none =>
      rw [run_switchPrimary_of_missing hType hFound hLocated]
      exact .stranded (.switchPrimary hType hKey hFound hLocated)
    | some primary =>
      rw [run_switchPrimary_of_located hType hFound hLocated]
      exact .made (.switchPrimary hKey hFound hLocated)

theorem ends_addColumn (column : Column) :
    (addColumn column).Ends entity ((addColumn column).edit.run entity) := by
  refine ends_of_columns ?_
  rw [Edit.run_ite]
  split
  next => exact .left _
  next hAbsent => exact .made (.addColumn (Bool.eq_false_iff.mpr hAbsent))

/-- As many columns as before are the same columns. -/
theorem ends_deleteColumn (name : String) (ifExists : Bool) :
    (deleteColumn name ifExists).Ends entity ((deleteColumn name ifExists).edit.run entity) := by
  refine ends_of_columns ?_
  simp only [Edit.run_setColumns_bind, Edit.run_ite]
  split
  next hKept =>
    have hLength := of_decide_eq_true (Bool.and_eq_true_iff.mp hKept).1
    have hSame : withoutColumn name entity.columns = entity.columns :=
      List.filter_sublist.eq_of_length hLength
    rw [hSame, withColumns_columns]
    exact .left _
  next => exact .made .deleteColumn

theorem ends_updateColumnComment (name comment : String) :
    (updateColumnComment name comment).Ends entity
      ((updateColumnComment name comment).edit.run entity) := by
  refine ends_of_columns ?_
  rw [Edit.run_ite]
  split
  next => exact .left _
  next => exact .made .updateColumnComment

end

theorem ends_edit {change : Change} {entity : Entity}
    (hValid : change.validate entity.type = .ok ()) :
    change.Ends entity (change.edit.run entity) := by
  cases change with
  | setProperty key value =>
    simp only [validate] at hValid
    split at hValid
    next => cases hValid
    next => exact .made (.setProperty (ne_propertyKey_of_checkNotReserved hValid))
  | removeProperty key =>
    simp only [validate] at hValid
    split at hValid
    next => cases hValid
    next hOther => exact .made (.removeProperty hOther (ne_propertyKey_of_checkNotReserved hValid))
  | updateComment comment => exact .made (.updateComment comment)
  | removeComment => exact .made .removeComment
  | rename leaf =>
    cases hIs : isLeaf leaf with
    | true =>
      rw [run_rename hIs]
      exact .made (.rename hIs)
    | false =>
      simp only [validate, hIs] at hValid
      cases hValid
  | updateLocation location =>
    obtain ⟨_, _, hFilled⟩ := Outcome.bind_eq_ok hValid
    exact ends_of_replaceLocation <| .made (.updateLocation (isBlank_of_checkLocation hFilled))
  | addBackup key location =>
    obtain ⟨_, _, hRest⟩ := Outcome.bind_eq_ok hValid
    obtain ⟨_, hKey, hFilled⟩ := Outcome.bind_eq_ok hRest
    exact ends_addBackup (isBackupKey_of_checkBackupKey hKey) (isBlank_of_checkLocation hFilled)
  | updateBackup key location =>
    obtain ⟨_, _, hRest⟩ := Outcome.bind_eq_ok hValid
    obtain ⟨_, hKey, hFilled⟩ := Outcome.bind_eq_ok hRest
    exact ends_of_replaceBackup fun _ _ => .made <|
      .updateBackup (isBackupKey_of_checkBackupKey hKey) (isBlank_of_checkLocation hFilled)
  | removeBackup key =>
    obtain ⟨_, _, hKey⟩ := Outcome.bind_eq_ok hValid
    exact ends_of_backup fun _ _ => .made (.removeBackup (isBackupKey_of_checkBackupKey hKey))
  | switchBackups first second =>
    obtain ⟨_, _, hRest⟩ := Outcome.bind_eq_ok hValid
    obtain ⟨_, hFirst, hSecond⟩ := Outcome.bind_eq_ok hRest
    exact ends_switchBackups
      ⟨isBackupKey_of_checkBackupKey hFirst, isBackupKey_of_checkBackupKey hSecond⟩
  | switchPrimary key =>
    obtain ⟨hType, hKey⟩ := validate_switchPrimary_iff.mp hValid
    exact ends_switchPrimary hType hKey
  | addColumn column => exact ends_addColumn column
  | deleteColumn name ifExists => exact ends_deleteColumn name ifExists
  | updateColumnComment name comment => exact ends_updateColumnComment name comment

/-- A change is made, or it fails with the entity as it was, or it is the one switch that leaves
something behind. -/
theorem ends_apply (change : Change) (entity : Entity) :
    change.Ends entity (change.apply entity) := by
  rw [apply]
  split
  next error _ => exact .left error
  next hValid => exact ends_edit hValid

theorem validate_of_apply {change : Change} {entity changed : Entity}
    (hOk : change.apply entity = (.ok (), changed)) : change.validate entity.type = .ok () := by
  rw [apply] at hOk
  split at hOk
  next => cases hOk
  next hValid => exact hValid

theorem applyAll_cons_eq_ok {change : Change} {rest : List Change} {entity changed : Entity}
    (hOk : applyAll (change :: rest) entity = .ok changed) :
    ∃ between, change.validate entity.type = .ok () ∧ change.Makes entity between ∧
      applyAll rest between = .ok changed := by
  rw [applyAll] at hOk
  split at hOk
  next between hApply =>
    have hEnds := change.ends_apply entity
    rw [hApply] at hEnds
    cases hEnds with
    | made makes => exact ⟨between, validate_of_apply hApply, makes, hOk⟩
  next => cases hOk

/-- What one change makes of the name. -/
def nameAfter (change : Change) (name : Name) : Name :=
  match change with
  | .rename leaf => ⟨name.scope, leaf⟩
  | _ => name

theorem targetName_cons (name : Name) (change : Change) (rest : List Change) :
    Store.targetName name (change :: rest) = Store.targetName (change.nameAfter name) rest := by
  cases change <;> rfl

theorem scope_nameAfter (change : Change) (name : Name) :
    (change.nameAfter name).scope = name.scope := by cases change <;> rfl

namespace Makes

variable {change : Change} {entity changed : Entity} (hMakes : change.Makes entity changed)
include hMakes

theorem keeps : Keeps entity changed := by
  cases hMakes with
  | setProperty unreserved => exact keeps_withProperty unreserved entity _
  | removeProperty _ unreserved => exact keeps_withoutProperty unreserved entity
  | updateComment | removeComment | rename => exact ⟨rfl, rfl, rfl⟩
  | updateLocation => exact keeps_withLocation entity _
  | addBackup backup | updateBackup backup =>
    exact keeps_withProperty (ne_propertyKey_of_isBackupKey backup) entity _
  | removeBackup backup => exact keeps_withoutProperty (ne_propertyKey_of_isBackupKey backup) entity
  | switchBackups backups =>
    exact (keeps_withProperty (ne_propertyKey_of_isBackupKey backups.2) entity _).trans
      (keeps_withProperty (ne_propertyKey_of_isBackupKey backups.1) _ _)
  | switchPrimary backup =>
    exact (keeps_withLocation entity _).trans
      (keeps_withProperty (ne_propertyKey_of_isBackupKey backup) _ _)
  | addColumn | deleteColumn | updateColumnComment => exact keeps_withColumns entity _

theorem name : changed.name = change.nameAfter entity.name := by
  cases hMakes with
  | updateLocation | switchPrimary => exact name_withLocation entity _
  | addColumn | deleteColumn | updateColumnComment => exact name_withColumns entity _
  | _ => rfl

/-- A name stays valid: what it is changed to was checked. -/
theorem isValid_name (hValid : entity.name.IsValid) : changed.name.IsValid := by
  rw [hMakes.name]
  cases hMakes with
  | rename isLeaf =>
    intro part hMem
    rcases List.mem_append.mp hMem with hLevel | hLeaf
    · exact hValid part (List.mem_append_left _ hLevel)
    · rw [List.mem_singleton.mp hLeaf]
      exact isSound_of_isLeaf isLeaf
  | _ => exact hValid

end Makes

/-- What some changes make of an entity keeps what all changes keep. -/
theorem applyAll_eq_ok {changes : List Change} {entity changed : Entity}
    (hOk : applyAll changes entity = .ok changed) :
    Keeps entity changed ∧ changed.name = Store.targetName entity.name changes ∧
      (entity.name.IsValid → changed.name.IsValid) ∧ changed.name.scope = entity.name.scope := by
  induction changes generalizing entity with
  | nil => cases hOk; exact ⟨.refl _, rfl, id, rfl⟩
  | cons change rest ih =>
    obtain ⟨between, _, hMakes, hLast⟩ := applyAll_cons_eq_ok hOk
    obtain ⟨hRest, hTarget, hValid, hScope⟩ := ih hLast
    refine ⟨hMakes.keeps.trans hRest, ?_, fun hBefore => hValid (hMakes.isValid_name hBefore),
      hScope.trans ?_⟩
    · rw [targetName_cons, ← hMakes.name]
      exact hTarget
    · rw [hMakes.name]
      exact change.scope_nameAfter entity.name

/-- Changes that are made one after another pass their checks together. -/
theorem validateAll_of_applyAll {changes : List Change} {entity changed : Entity}
    (hOk : applyAll changes entity = .ok changed) : validateAll entity.type changes = .ok () := by
  induction changes generalizing entity with
  | nil => rfl
  | cons change rest ih =>
    obtain ⟨between, hCheck, hMakes, hLast⟩ := applyAll_cons_eq_ok hOk
    rw [validateAll, hCheck, Outcome.ok_bind, ← hMakes.keeps.type]
    exact ih hLast

end Change

end VersionedCatalog
