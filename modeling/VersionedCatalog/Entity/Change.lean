import VersionedCatalog.Entity
import VersionedCatalog.Text.Blank

/-! # Changes

An alteration is a list of changes, each applied to what the ones before it left. A change is
checked against the type of the entity first. Then it is made in place (`Change.edit`): it looks up
what it needs, among it columns and backup locations that must exist or must not exist yet, and
writes. What it has written when it fails stays written.
-/

namespace VersionedCatalog

inductive Change
  | setProperty (key value : String)
  | removeProperty (key : String)
  | updateComment (comment : String)
  | removeComment
  | rename (leaf : String)
  | updateLocation (location : String)
  | addBackup (key location : String)
  | updateBackup (key location : String)
  | removeBackup (key : String)
  | switchBackups (first second : String)
  | switchPrimary (key : String)
  | addColumn (column : Column)
  | deleteColumn (name : String) (ifExists : Bool)
  | updateColumnComment (name comment : String)
  deriving DecidableEq

def Change.text : Change → String
  | .setProperty _ _ => "set property"
  | .removeProperty _ => "remove property"
  | .updateComment _ => "update comment"
  | .removeComment => "remove comment"
  | .rename _ => "rename"
  | .updateLocation _ => "update primary storage location"
  | .addBackup _ _ => "add backup storage location"
  | .updateBackup _ _ => "update backup storage location"
  | .removeBackup _ => "remove backup storage location"
  | .switchBackups _ _ => "switch backup storage location"
  | .switchPrimary _ => "switch primary and backup storage location"
  | .addColumn _ => "add column"
  | .deleteColumn _ _ => "delete column"
  | .updateColumnComment _ _ => "update column comment"

inductive ChangeError
  | emptyKey
  | reservedKey
  | ownerRemoved
  | invalidName (leaf : String)
  | unsupported (change : Change) (type : EntityType)
  | blankLocation
  | backupKey (key : String)
  | emptyColumnName
  | backupExists (key : String) (name : Name)
  | backupMissing (key : String) (name : Name)
  | primaryMissing (name : Name)
  | columnExists (column : String)
  | columnMissing (column : String)
  | nameError (error : NameError)
  | noLocation (type : EntityType)
  | noColumns (type : EntityType)
  deriving DecidableEq

namespace ChangeError

/-- Whether a change is one that is never made, rather than one that was given badly. -/
def isUnsupported : ChangeError → Bool
  | .ownerRemoved => true
  | .unsupported _ _ => true
  | .noLocation _ => true
  | .noColumns _ => true
  | _ => false

def message : ChangeError → String
  | .emptyKey => "Property key cannot be empty"
  | .reservedKey => "Property lakemeta.identifier is reserved"
  | .ownerRemoved => "Property owner cannot be removed"
  | .invalidName leaf => s!"Invalid name '{leaf}'"
  | .unsupported change type => s!"Change '{change.text}' is not supported for {type.name}"
  | .blankLocation => "Storage location cannot be empty"
  | .backupKey key =>
    s!"Backup storage location key must start with {Entity.backupStem}: {key}"
  | .emptyColumnName => "Column name cannot be empty"
  | .backupExists key name =>
    s!"Backup storage location {key} already exists for fileset {name.text}"
  | .backupMissing key name =>
    s!"Backup storage location {key} does not exist for fileset {name.text}"
  | .primaryMissing name => s!"Fileset {name.text} has no primary storage location"
  | .columnExists column => s!"Column {column} already exists"
  | .columnMissing column => s!"Column {column} does not exist"
  | .nameError error => error.message
  | .noLocation type => s!"{type.name} has no storage location"
  | .noColumns type => s!"{type.name} has no columns"

end ChangeError

namespace Change

/-- The property that may be set but not removed. -/
def ownerKey : String := "owner"

def checkNotReserved (key : String) : Except ChangeError Unit :=
  if key = EntityId.propertyKey then .error .reservedKey else .ok ()

def checkType (change : Change) (actual required : EntityType) : Except ChangeError Unit :=
  if actual = required then .ok () else .error (.unsupported change actual)

def checkLocation (location : String) : Except ChangeError Unit :=
  if Text.isBlank location then .error .blankLocation else .ok ()

/-- A key of a backup location has something behind the stem. -/
def isBackupKey (key : String) : Bool :=
  let stem := Entity.backupStem.toList
  stem.isPrefixOf key.toList && stem.length < key.length

def checkBackupKey (key : String) : Except ChangeError Unit :=
  if isBackupKey key then .ok () else .error (.backupKey key)

/-- A leaf that is a whole name in the root namespace. -/
def isLeaf (leaf : String) : Bool :=
  match Name.parse leaf with
  | .ok name => name.scope.isRoot
  | .error _ => false

/-- Checks what does not depend on the entity but on its type. -/
def validate (change : Change) (type : EntityType) : Except ChangeError Unit := do
  match change with
  | .setProperty key _ =>
    if key.isEmpty then throw .emptyKey
    checkNotReserved key
  | .removeProperty key =>
    if key = ownerKey then throw .ownerRemoved
    checkNotReserved key
  | .updateComment _ => return
  | .removeComment => return
  | .rename leaf => if !isLeaf leaf then throw (.invalidName leaf)
  | .updateLocation location =>
    checkType change type .fileset
    checkLocation location
  | .addBackup key location =>
    checkType change type .fileset
    checkBackupKey key
    checkLocation location
  | .updateBackup key location =>
    checkType change type .fileset
    checkBackupKey key
    checkLocation location
  | .removeBackup key =>
    checkType change type .fileset
    checkBackupKey key
  | .switchBackups first second =>
    checkType change type .fileset
    checkBackupKey first
    checkBackupKey second
  | .switchPrimary key =>
    checkType change type .fileset
    checkBackupKey key
  | .addColumn column =>
    checkType change type .table
    if column.name.isEmpty then throw .emptyColumnName
  | .deleteColumn _ _ => checkType change type .table
  | .updateColumnComment _ _ => checkType change type .table

def hasColumn (name : String) (columns : List Column) : Bool :=
  columns.any fun column => column.name = name

def withoutColumn (name : String) (columns : List Column) : List Column :=
  columns.filter fun column => column.name ≠ name

/-- The columns with the comment of the first one of a name replaced. -/
def commentColumn (name comment : String) : List Column → List Column
  | [] => []
  | column :: rest =>
    if column.name = name then { column with comment := some comment } :: rest
    else column :: commentColumn name comment rest

end Change

/-- An edit reads an entity and writes over it, until it ends or fails. -/
abbrev Edit := ExceptT ChangeError (StateM Entity)

namespace Edit

/-- How an edit ends, and the entity afterwards. -/
def run (edit : Edit α) (entity : Entity) : Except ChangeError α × Entity :=
  StateT.run (ExceptT.run edit) entity

def backup (key : String) : Edit String := do
  let entity ← get
  match entity.properties.get? key with
  | some location => return location
  | none => throw (.backupMissing key entity.name)

/-- Gives a backup location that is there another text. The answer is the one that it had. -/
def replaceBackup (key location : String) : Edit String := do
  let old ← backup key
  modify fun entity => entity.withProperty key location
  return old

/-- Gives a fileset another primary location. The answer is the one that it had, if any. -/
def replaceLocation (location : String) : Edit (Option String) := do
  match (← get).kind with
  | .fileset _ old => do
    modify fun entity => entity.withLocation location
    return old
  | kind => throw (.noLocation kind.type)

def columns : Edit (List Column) := do
  match (← get).kind with
  | .table columns _ => return columns
  | kind => throw (.noColumns kind.type)

def setColumns (columns : List Column) : Edit Unit :=
  modify fun entity => entity.withColumns columns

end Edit

namespace Change

/-- What a change that passed its checks does to an entity. -/
def edit (change : Change) : Edit Unit := do
  match change with
  | .setProperty key value => modify fun entity => entity.withProperty key value
  | .removeProperty key => modify fun entity => entity.withoutProperty key
  | .updateComment comment => modify fun entity => { entity with comment := some comment }
  | .removeComment => modify fun entity => { entity with comment := none }
  | .rename leaf =>
    match (← get).name.withLeaf leaf with
    | .ok name => modify fun entity => { entity with name }
    | .error error => throw (.nameError error)
  | .updateLocation location => discard (Edit.replaceLocation location)
  | .addBackup key location =>
    let entity ← get
    if entity.properties.contains key then throw (.backupExists key entity.name)
    modify fun entity => entity.withProperty key location
  | .updateBackup key location => discard (Edit.replaceBackup key location)
  | .removeBackup key =>
    let _ ← Edit.backup key
    modify fun entity => entity.withoutProperty key
  | .switchBackups first second =>
    let firstLocation ← Edit.backup first
    let secondLocation ← Edit.replaceBackup second firstLocation
    discard (Edit.replaceBackup first secondLocation)
  | .switchPrimary key =>
    let location ← Edit.backup key
    -- the primary location is written over before it is known whether there was one
    match ← Edit.replaceLocation location with
    | some primary => discard (Edit.replaceBackup key primary)
    | none => throw (.primaryMissing (← get).name)
  | .addColumn column =>
    let columns ← Edit.columns
    if hasColumn column.name columns then throw (.columnExists column.name)
    Edit.setColumns (columns ++ [column])
  | .deleteColumn name ifExists =>
    let columns ← Edit.columns
    let kept := withoutColumn name columns
    Edit.setColumns kept
    if kept.length = columns.length && !ifExists then throw (.columnMissing name)
  | .updateColumnComment name comment =>
    let columns ← Edit.columns
    if !hasColumn name columns then throw (.columnMissing name)
    Edit.setColumns (commentColumn name comment columns)

/-- Applies a change: whether it succeeds, and the entity afterwards. -/
def apply (change : Change) (entity : Entity) : Except ChangeError Unit × Entity :=
  match change.validate entity.type with
  | .error error => (.error error, entity)
  | .ok () => change.edit.run entity

/-- Applies changes in order; the first that fails decides. -/
def applyAll : List Change → Entity → Except ChangeError Entity
  | [], entity => .ok entity
  | change :: rest, entity =>
    match change.apply entity with
    | (.ok (), changed) => applyAll rest changed
    | (.error error, _) => .error error

def validateAll (type : EntityType) : List Change → Except ChangeError Unit
  | [] => .ok ()
  | change :: rest => do
    change.validate type
    validateAll type rest

end Change

end VersionedCatalog
