import VersionedCatalog.Store.State

/-! # Reading a store

An entity is what its newest version says. It is found by its name, by its id through the index, or
by listing a namespace, which takes the newest version of everything in a range of keys. Reading
changes nothing.
-/

namespace VersionedCatalog

namespace Catalog

/-- The newest version under the stem of an entity. -/
def latest? (backend : Storage.Backend) (stem : Bytes) : Except StoreError (Option Version) := do
  match ← (backend.last stem).mapError .backend with
  | none => return none
  | some row => return some (← (Version.ofRow row).mapError .history)

/-- The newest version of every entity whose key starts with a stem. -/
def latestBelow (backend : Storage.Backend) (stem : Bytes) : Except StoreError (List Version) := do
  let rows ← (backend.scan stem).mapError .backend
  let versions ← (Version.ofRows rows).mapError .history
  return Version.newest versions

def liveBelow (backend : Storage.Backend) (stem : Bytes) : Except StoreError (List Version) := do
  return (← latestBelow backend stem).filter Version.isLive

def decode (type : EntityType) (version : Version) : Except StoreError Entity :=
  (Entity.decode type version.payload).mapError .payload

def decodeAll (type : EntityType) : List Version → Except StoreError (List Entity)
  | [] => .ok []
  | version :: rest => do
    let entity ← decode type version
    let others ← decodeAll type rest
    return entity :: others

/-- The newest version of an entity, if that is alive. -/
def live? (backend : Storage.Backend) (type : EntityType) (name : Name) :
    Except StoreError (Option Version) := do
  return (← latest? backend (Key.entity type name)).filter Version.isLive

/-- A live entity and the stamp of its newest version. -/
def entity? (backend : Storage.Backend) (type : EntityType) (name : Name) :
    Except StoreError (Option (Stamp × Entity)) := do
  match ← live? backend type name with
  | none => return none
  | some version => return some (version.stamp, ← decode type version)

/-- The stem that the index has for an id. -/
def indexed? (backend : Storage.Backend) (id : EntityId) : Except StoreError (Option Bytes) :=
  (backend.get (Key.id id)).mapError .backend

def decodeStem (stem : Bytes) : Except StoreError (EntityType × Name) :=
  (Key.decodeEntity stem).mapError .history

end Catalog

/-- What a version says of an entity. -/
inductive VersionState
  | live (entity : Entity)
  | tombstone
  | renamed (target : Name)
  deriving DecidableEq

namespace Store

def checkDepth (type : EntityType) (name : Name) : Except StoreError Unit :=
  if name.scope.depth = type.depth then .ok () else .error (.nameDepth type name)

def load (store : Store) (type : EntityType) (name : Name) : Except StoreError Entity := do
  store.ensureOpen
  checkDepth type name
  match ← Catalog.entity? store.backend type name with
  | some (_, entity) => return entity
  | none => throw (.missing type name)

/-- Whether `load` finds an entity. -/
def contains (store : Store) (type : EntityType) (name : Name) : Except StoreError Bool :=
  match store.load type name with
  | .ok _ => .ok true
  | .error error => if error.isMissing then .ok false else .error error

def loadById (store : Store) (id : EntityId) : Except StoreError Entity := do
  store.ensureOpen
  match ← Catalog.indexed? store.backend id with
  | none => throw (.missingId id)
  | some stem =>
    let (type, name) ← Catalog.decodeStem stem
    match ← Catalog.entity? store.backend type name with
    | some (_, entity) => if entity.id = id then return entity else throw (.missingId id)
    | none => throw (.missingId id)

/-- The live entities of a type directly in a namespace, in the order of their names. -/
def list (store : Store) (scope : Namespace) (type : EntityType) :
    Except StoreError (List Entity) := do
  store.ensureOpen
  if scope.depth ≠ type.depth then throw (.scopeDepth type scope)
  Catalog.decodeAll type (← Catalog.liveBelow store.backend (Key.children type scope))

def listTypes (store : Store) (scope : Namespace) :
    List EntityType → Except StoreError (List (EntityType × Name))
  | [] => .ok []
  | type :: rest => do
    let entities ← store.list scope type
    let others ← store.listTypes scope rest
    return entities.map (fun entity => (type, entity.name)) ++ others

/-- The names in a namespace, type by type. Where no type lives there is nothing to read. -/
def listChildren (store : Store) (scope : Namespace) :
    Except StoreError (List (EntityType × Name)) :=
  store.listTypes scope (EntityType.atDepth scope.depth)

def versionState (type : EntityType) (version : Version) : Except StoreError VersionState :=
  match version.flag with
  | .live => do return .live (← Catalog.decode type version)
  | .tombstone => .ok .tombstone
  | .renamed => do return .renamed (← (Version.renameTarget version.payload).mapError .history)

def versionStates (type : EntityType) :
    List Storage.Row → Except StoreError (List (Stamp × VersionState))
  | [] => .ok []
  | row :: rest => do
    let version ← (Version.ofRow row).mapError .history
    let state ← versionState type version
    let others ← versionStates type rest
    return (version.stamp, state) :: others

/-- Every version of an entity that is still there, oldest first. -/
def versions (store : Store) (type : EntityType) (name : Name) :
    Except StoreError (List (Stamp × VersionState)) := do
  store.ensureOpen
  checkDepth type name
  versionStates type (← (store.backend.scan (Key.entity type name)).mapError .backend)

end Store

end VersionedCatalog
