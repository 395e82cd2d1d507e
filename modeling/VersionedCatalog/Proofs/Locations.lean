import VersionedCatalog.Proofs.Contents

/-! # Where filesets are

A fileset has a primary location, and properties whose keys begin with a certain stem are its backup
locations. A new fileset gets a primary location that is not blank, and the changes that give a
location ask for one that is not blank. But a property may be set to any text, also under the key of
a backup location, and switching makes the text that is there the primary location as it is.

So no fileset is ever without a primary location, and the primary location is not blank unless some
command set this very text as the property of a backup location and some command switched
(`Store.Performed.location_of_fileset`). A text that is blank does get there by this way
(`Sample.not_always_filled`).
-/

namespace VersionedCatalog

open Storage (Backend)

theorem Text.isBlank_append (s t : String) : isBlank (s ++ t) = (isBlank s && isBlank t) := by
  rw [isBlank, String.toList_append, List.all_append]
  rfl

theorem Text.isBlank_below (root leaf : String) : isBlank s!"{root}/{leaf}" = false := by
  have hSlash : isBlank "/" = false := by decide
  show isBlank (root ++ "/" ++ leaf) = false
  rw [isBlank_append, isBlank_append, hSlash, Bool.and_false, Bool.false_and]

/-! ### New filesets -/

namespace Catalog

variable {backend : Backend}

/-- What is found for a new fileset lies below something. -/
theorem isBlank_of_resolveLocation {name : Name} {filesetType : FilesetType} {schema : Entity}
    {location : String} (hOk : resolveLocation backend name filesetType schema = .ok location) :
    Text.isBlank location = false := by
  obtain ⟨_, ⟨root, _, rfl⟩ | ⟨_, _, _, _, root, _, _, _, rfl⟩⟩ := resolveLocation_eq_ok hOk
  · exact Text.isBlank_below root name.leaf
  · exact Text.isBlank_below s!"{root}/{schema.name.leaf}" name.leaf

theorem location_of_resolveKind {name : Name} {parent : Option Entity} {kind resolved : Kind}
    (hOk : resolveKind backend name parent kind = .ok resolved) (hType : resolved.type = .fileset) :
    ∃ filesetType location, resolved = .fileset filesetType (some location) ∧
      Text.isBlank location = false := by
  unfold resolveKind at hOk
  split at hOk
  next filesetType location =>
    split at hOk
    next =>
      cases parent with
      | none => cases hOk
      | some schema =>
        obtain ⟨found, hFound, hLast⟩ := Outcome.bind_eq_ok hOk
        cases hLast
        exact ⟨filesetType, found, rfl, isBlank_of_resolveLocation hFound⟩
    next hGiven =>
      cases hOk
      cases location with
      | none => exact absurd rfl hGiven
      | some location => exact ⟨filesetType, location, rfl, Bool.eq_false_iff.mpr hGiven⟩
  next hOther =>
    cases hOk
    cases kind with
    | fileset filesetType location => exact absurd rfl (hOther filesetType location)
    | _ => cases hType

end Catalog

/-! ### What changes do to locations -/

namespace Entity

/-- A fileset with a primary location and backup locations that may be such. -/
structure IsPlaced (primary spare : String → Prop) (entity : Entity) : Prop where
  located : ∃ location, entity.location? = some location ∧ primary location
  backed : ∀ key location, Change.isBackupKey key = true →
    entity.properties.get? key = some location → spare location

theorem type_of_location? {entity : Entity} {location : String}
    (hFound : entity.location? = some location) : entity.type = .fileset := by
  unfold location? at hFound
  split at hFound
  next hKind => rw [type, hKind]; rfl
  next => cases hFound

theorem location?_withLocation {entity : Entity} (hType : entity.type = .fileset)
    (location : String) : (entity.withLocation location).location? = some location := by
  unfold withLocation
  split
  next => rfl
  next hOther =>
    cases hKind : entity.kind with
    | fileset filesetType found => exact absurd hKind (hOther filesetType found)
    | _ => rw [type, hKind] at hType; cases hType

theorem withColumns_of_fileset {entity : Entity} (hType : entity.type = .fileset)
    (columns : List Column) : entity.withColumns columns = entity := by
  unfold withColumns
  split
  next hKind => rw [type, hKind] at hType; cases hType
  next => rfl

namespace IsPlaced

variable {primary spare : String → Prop} {entity : Entity}

theorem mono {always sometimes : String → Prop} (hPlaced : entity.IsPlaced primary spare)
    (hPrimary : ∀ location, primary location → always location)
    (hSpare : ∀ location, spare location → sometimes location) :
    entity.IsPlaced always sometimes := by
  obtain ⟨⟨location, hFound, hGood⟩, hBacked⟩ := hPlaced
  exact ⟨⟨location, hFound, hPrimary _ hGood⟩, fun key found hKey hHere =>
    hSpare _ (hBacked key found hKey hHere)⟩

variable (hPlaced : entity.IsPlaced primary spare)
include hPlaced

/-- Only the kind and the properties count. -/
theorem congr {other : Entity} (hKind : other.kind = entity.kind)
    (hProperties : other.properties = entity.properties) : other.IsPlaced primary spare := by
  refine ⟨?_, hProperties ▸ hPlaced.backed⟩
  rw [location?, hKind]
  exact hPlaced.located

theorem type : entity.type = .fileset := by
  obtain ⟨location, hFound, _⟩ := hPlaced.located
  exact type_of_location? hFound

theorem withLocation {location : String} (hGood : primary location) :
    (entity.withLocation location).IsPlaced primary spare := by
  refine ⟨⟨location, location?_withLocation hPlaced.type location, hGood⟩, ?_⟩
  rw [properties_withLocation]
  exact hPlaced.backed

theorem withProperty {key value : String} (hGood : Change.isBackupKey key = true → spare value) :
    (entity.withProperty key value).IsPlaced primary spare := by
  refine ⟨hPlaced.located, fun other location hKey hFound => ?_⟩
  rw [Entity.withProperty, OrderedMap.get?_insert] at hFound
  split at hFound
  next hSame =>
    cases hFound
    exact hGood (hSame ▸ hKey)
  next => exact hPlaced.backed other location hKey hFound

theorem withoutProperty (key : String) : (entity.withoutProperty key).IsPlaced primary spare := by
  refine ⟨hPlaced.located, fun other location hKey hFound => ?_⟩
  rw [Entity.withoutProperty, OrderedMap.get?_erase] at hFound
  split at hFound
  next => cases hFound
  next => exact hPlaced.backed other location hKey hFound

end IsPlaced

end Entity

namespace Change

open Entity

/-- What changes may do to locations when any text that is not blank may be a primary location, and
any primary location a backup location. -/
structure Permits (primary spare : String → Prop) (change : Change) : Prop where
  filled : ∀ location, Text.isBlank location = false → primary location
  kept : ∀ location, primary location → spare location
  set : ∀ key value, change = .setProperty key value → isBackupKey key = true → spare value
  switched : ∀ key, change = .switchPrimary key → ∀ location, spare location → primary location

/-- A change that passes its checks keeps a fileset placed. -/
theorem Permits.isPlaced_of_makes {primary spare : String → Prop} {change : Change}
    (hPermits : change.Permits primary spare) {entity changed : Entity}
    (hPlaced : entity.IsPlaced primary spare) (hMakes : change.Makes entity changed) :
    changed.IsPlaced primary spare := by
  have hFilled : ∀ {location}, Text.isBlank location = false → spare location := fun hFilled =>
    hPermits.kept _ (hPermits.filled _ hFilled)
  cases hMakes with
  | setProperty =>
    -- the only text that nobody checks
    exact hPlaced.withProperty (hPermits.set _ _ rfl)
  | removeProperty | removeBackup => exact hPlaced.withoutProperty _
  | updateComment | removeComment | rename => exact hPlaced.congr rfl rfl
  | updateLocation filled => exact hPlaced.withLocation (hPermits.filled _ filled)
  | addBackup _ filled | updateBackup _ filled => exact hPlaced.withProperty fun _ => hFilled filled
  | switchBackups backups found there =>
    have hOne := hPlaced.backed _ _ backups.1 found
    have hTwo := hPlaced.backed _ _ backups.2 there
    exact (hPlaced.withProperty fun _ => hOne).withProperty fun _ => hTwo
  | switchPrimary backup found located =>
    -- what is a backup location becomes the primary one unseen
    have hSpare := hPlaced.backed _ _ backup found
    obtain ⟨primaryLocation, hFound, hGood⟩ := hPlaced.located
    cases located.symm.trans hFound
    exact (hPlaced.withLocation (hPermits.switched _ rfl _ hSpare)).withProperty fun _ =>
      hPermits.kept _ hGood
  | addColumn | deleteColumn | updateColumnComment =>
    have hColumns : ∀ columns, (entity.withColumns columns).IsPlaced primary spare :=
      fun columns => by rwa [withColumns_of_fileset hPlaced.type]
    exact hColumns _

theorem isPlaced_applyAll {primary spare : String → Prop} {changes : List Change}
    (hPermits : ∀ change ∈ changes, change.Permits primary spare) {entity changed : Entity}
    (hPlaced : entity.IsPlaced primary spare) (hOk : applyAll changes entity = .ok changed) :
    changed.IsPlaced primary spare := by
  induction changes generalizing entity with
  | nil => cases hOk; exact hPlaced
  | cons change rest ih =>
    obtain ⟨hFirst, hRest⟩ := List.forall_mem_cons.mp hPermits
    obtain ⟨between, _, hMakes, hLast⟩ := applyAll_cons_eq_ok hOk
    exact ih hRest (hFirst.isPlaced_of_makes hPlaced hMakes) hLast

end Change

/-! ### What runs do to locations -/

namespace Command

/-- Whether a command sets a text as the property of a backup location of a fileset. -/
inductive SetsBackup (location : String) : Command → Prop
  | create {name : Name} {draft : Draft} {key : String} (fileset : draft.type = .fileset)
      (backup : Change.isBackupKey key = true)
      (given : draft.properties.get? key = some location) :
      SetsBackup location (.mutate (.create name draft))
  | alter {type : EntityType} {name : Name} {modifier : String} {changes : List Change}
      {key : String} (fileset : type = .fileset) (backup : Change.isBackupKey key = true)
      (given : .setProperty key location ∈ changes) :
      SetsBackup location (.mutate (.alter type name modifier changes))

/-- Whether a command switches the primary location of a fileset with a backup location. -/
inductive SwitchesPrimary : Command → Prop
  | alter {type : EntityType} {name : Name} {modifier : String} {changes : List Change}
      {key : String} (fileset : type = .fileset) (given : .switchPrimary key ∈ changes) :
      SwitchesPrimary (.mutate (.alter type name modifier changes))

/-- A text that may be a backup location after some commands. -/
def AllowsSpare (commands : List Command) (location : String) : Prop :=
  Text.isBlank location = true → ∃ command ∈ commands, command.SetsBackup location

/-- A text that may be a primary location after some commands. -/
def AllowsPrimary (commands : List Command) (location : String) : Prop :=
  Text.isBlank location = true → (∃ command ∈ commands, command.SetsBackup location) ∧
    ∃ command ∈ commands, command.SwitchesPrimary

theorem AllowsSpare.append {commands : List Command} {location : String}
    (hSpare : AllowsSpare commands location) (command : Command) :
    AllowsSpare (commands ++ [command]) location := fun hBlank => by
  obtain ⟨found, hMem, hSets⟩ := hSpare hBlank
  exact ⟨found, List.mem_append_left _ hMem, hSets⟩

theorem AllowsPrimary.append {commands : List Command} {location : String}
    (hPrimary : AllowsPrimary commands location) (command : Command) :
    AllowsPrimary (commands ++ [command]) location := fun hBlank => by
  obtain ⟨⟨setter, hSetter, hSets⟩, switcher, hSwitcher, hSwitches⟩ := hPrimary hBlank
  exact ⟨⟨setter, List.mem_append_left _ hSetter, hSets⟩, switcher,
    List.mem_append_left _ hSwitcher, hSwitches⟩

end Command

/-- A fileset as it may be after some commands. -/
def Entity.IsPlacedAfter (commands : List Command) (entity : Entity) : Prop :=
  entity.IsPlaced (Command.AllowsPrimary commands) (Command.AllowsSpare commands)

theorem Entity.IsPlacedAfter.append {commands : List Command} {entity : Entity}
    (hPlaced : entity.IsPlacedAfter commands) (command : Command) :
    entity.IsPlacedAfter (commands ++ [command]) :=
  hPlaced.mono (fun _ hPrimary => hPrimary.append command) fun _ hSpare => hSpare.append command

namespace Command

/-- What an altering command does to locations it permits from then on. -/
theorem permits_of_alter {commands : List Command} {type : EntityType} (hType : type = .fileset)
    {name : Name} {modifier : String} {changes : List Change} :
    ∀ change ∈ changes, change.Permits
      (AllowsPrimary (commands ++ [.mutate (.alter type name modifier changes)]))
      (AllowsSpare (commands ++ [.mutate (.alter type name modifier changes)])) := by
  have hLast : Command.mutate (.alter type name modifier changes) ∈
      commands ++ [.mutate (.alter type name modifier changes)] :=
    List.mem_append_right _ (List.mem_singleton_self _)
  intro change hMem
  refine ⟨fun location hFilled hBlank => ?_, fun location hPrimary hBlank => (hPrimary hBlank).1,
    ?_, ?_⟩
  · rw [hFilled] at hBlank
    cases hBlank
  · rintro key value rfl hKey _
    exact ⟨_, hLast, .alter hType hKey hMem⟩
  · rintro key rfl location hSpare hBlank
    exact ⟨hSpare hBlank, _, hLast, .alter hType hMem⟩

/-- What a command writes is as it may be then, if what is there is as it may be before. -/
theorem isPlacedAfter_of_mayWrite {commands : List Command} {command : Command} {store : Store}
    (hBefore : ∀ slot before, store.backend.rows.Holds slot before → before.type = .fileset →
      before.IsPlacedAfter commands) {entity : Entity} (hWrites : command.MayWrite store entity)
    (hType : entity.type = .fileset) : entity.IsPlacedAfter (commands ++ [command]) := by
  cases command with
  | mutate mutation =>
    cases hWrites with
    | @create name draft parent kind id found resolved =>
      obtain ⟨filesetType, location, rfl, hFilled⟩ :=
        Catalog.location_of_resolveKind resolved hType
      refine ⟨⟨location, rfl, fun hBlank => ?_⟩, fun key text hKey hFound _ => ?_⟩
      · rw [hFilled] at hBlank
        cases hBlank
      · have hGiven : draft.properties.get? key = some text := by
          rwa [EntityId.addTo, OrderedMap.get?_insert,
            if_neg (Change.ne_propertyKey_of_isBackupKey hKey)] at hFound
        have hDraft : draft.type = .fileset := (Catalog.type_of_resolveKind resolved).symm
        exact ⟨_, List.mem_append_right _ (List.mem_singleton_self _), .create hDraft hKey hGiven⟩
    | @alter slot before after modifier changes holds changed =>
      obtain ⟨updated, hUpdated, hLast⟩ := Outcome.bind_eq_ok changed
      cases hLast
      have hAll := Outcome.mapError_eq_ok hUpdated
      have hFileset : before.type = .fileset :=
        (Change.applyAll_eq_ok hAll).1.type.symm.trans hType
      have hSlot : slot.type = .fileset := holds.type_eq.symm.trans hFileset
      have hPermits := @permits_of_alter commands slot.type hSlot slot.name modifier changes
      have hPlaced := Change.isPlaced_applyAll hPermits
        ((hBefore slot before holds hFileset).append _) hAll
      exact hPlaced.congr rfl rfl
    | @move source slot before goal modifier changes renames below holds moved =>
      have hPlaced := (hBefore slot before holds hType).append
        (.mutate (.alter source.type source.name modifier changes))
      exact hPlaced.congr rfl rfl
  | collect => cases hWrites
  | sweep now => cases hWrites

end Command

/-- No live fileset is without a primary location. If it is blank, some command of the run set this
text as the property of a backup location, and some command switched a primary location with a
backup location. -/
theorem Store.Performed.location_of_fileset {commands : List Command} {store : Store}
    (hRun : store.Performed commands) {slot : Slot} (hType : slot.type = .fileset)
    {entity : Entity} (hHolds : store.backend.rows.Holds slot entity) :
    ∃ location, entity.location? = some location ∧
      (Text.isBlank location = true → (∃ command ∈ commands, command.SetsBackup location) ∧
        ∃ command ∈ commands, command.SwitchesPrimary) := by
  have hFileset : entity.type = .fileset := hHolds.type_eq.trans hType
  have hPlaced : entity.type = .fileset → entity.IsPlacedAfter commands :=
    @stored_induction (fun commands entity => entity.type = .fileset → entity.IsPlacedAfter commands)
      (fun command hFine hType => (hFine hType).append command)
      (fun hBefore hWrites => Command.isPlacedAfter_of_mayWrite hBefore hWrites) commands store hRun
      slot entity
      (hHolds.stores hRun.reachable.isFormed)
  exact (hPlaced hFileset).located

/-! ### A fileset that moves -/

namespace Sample

def raw : Name := ⟨⟨["lake", "hive"]⟩, "raw"⟩

def makeRaw : Command := .mutate (.create raw (.of .schema))

def logs : Name := ⟨⟨["lake", "hive", "raw"]⟩, "logs"⟩

def logsSlot : Slot := ⟨.fileset, logs, rfl, by decide +kernel⟩

def makeLogs : Command := .mutate (.create logs (.of (.fileset .external (some "s3://logs"))))

/-- Sets the property of a backup location and switches the primary location with it. -/
def moveLogs (location : String) : Command :=
  .mutate (.alter .fileset logs "me"
    [.setProperty "backup-storage-location-1" location, .switchPrimary "backup-storage-location-1"])

/-- A store with a fileset in it. -/
def logged : Store := (makeLogs.perform.runDuring [] (makeRaw.perform.runDuring [] store).2).2

def movedTo (location : String) : Store := ((moveLogs location).perform.runDuring [] logged).2

theorem performed_store : store.Performed [makeLake, makeHive] := by
  have hBlank : blank.Performed [] :=
    @Store.Performed.start .log "lake" Storage.Journal.defaultThreshold backend _ .inMemory
      (.counter 1) 0 blank rfl rfl
  have hLake := hBlank.call makeLake [] (by decide +kernel) (Prod.eta _).symm
  exact hLake.call makeHive [] (by decide +kernel) (Prod.eta _).symm

theorem performed_movedTo (location : String) : (movedTo location).Performed
    [makeLake, makeHive, makeRaw, makeLogs, moveLogs location] := by
  have hRaw := performed_store.call makeRaw [] (by decide +kernel) (Prod.eta _).symm
  have hLogs := hRaw.call makeLogs [] (by decide +kernel) (Prod.eta _).symm
  have hValid : (moveLogs location).IsValid := show logs.IsValid by decide +kernel
  exact hLogs.call (moveLogs location) [] hValid (Prod.eta _).symm

theorem holds_of_load {after : Store} {location : String}
    (hLoad : (after.load .fileset logs).toOption.bind Entity.location? = some location) :
    ∃ entity, after.backend.rows.Holds logsSlot entity ∧ entity.location? = some location := by
  cases hFound : after.load .fileset logs with
  | error error => rw [hFound] at hLoad; cases hLoad
  | ok entity => rw [hFound] at hLoad; exact ⟨entity, @Store.load_eq_ok _ logsSlot _ hFound, hLoad⟩

/-- Switched with a backup location that was set as a property, the fileset is there. -/
theorem location_of_movedTo : ∃ entity, (movedTo "s3://copy").backend.rows.Holds logsSlot entity ∧
    entity.location? = some "s3://copy" ∧ ∃ location, entity.location? = some location ∧
      (Text.isBlank location = true →
        (∃ command ∈ [makeLake, makeHive, makeRaw, makeLogs, moveLogs "s3://copy"],
          command.SetsBackup location) ∧
        ∃ command ∈ [makeLake, makeHive, makeRaw, makeLogs, moveLogs "s3://copy"],
          command.SwitchesPrimary) := by
  obtain ⟨entity, hHolds, hThere⟩ :=
    @holds_of_load (movedTo "s3://copy") "s3://copy" (by decide +kernel)
  exact ⟨entity, hHolds, hThere, (performed_movedTo "s3://copy").location_of_fileset rfl hHolds⟩

/-- If this property was blank, the fileset is at a location that is blank. -/
theorem not_always_filled : ¬ ∀ (commands : List Command) (after : Store) (slot : Slot)
    (entity : Entity), after.Performed commands → slot.type = .fileset →
      after.backend.rows.Holds slot entity →
        ∃ location, entity.location? = some location ∧ Text.isBlank location = false := by
  intro hAll
  obtain ⟨entity, hHolds, hBlank⟩ := @holds_of_load (movedTo " ") " " (by decide +kernel)
  obtain ⟨location, hFound, hFilled⟩ :=
    hAll _ _ logsSlot entity (performed_movedTo " ") rfl hHolds
  cases Option.some.inj (hBlank.symm.trans hFound)
  revert hFilled
  decide

end Sample

end VersionedCatalog
