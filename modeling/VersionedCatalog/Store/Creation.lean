import VersionedCatalog.Store.Mutation

/-! # Creating entities

An entity is created below a live parent under a name that no live entity of its type has. A draft
that asks for an id gets it unless another live entity has it, and is answered with the entity that
is already there if the request was carried out before. A managed fileset without a location takes
one below that of its schema or its catalog.
-/

namespace VersionedCatalog

namespace Catalog

/-- The property of schemas and catalogs that says where their filesets are. -/
def locationKey : String := "location"

/-- Where filesets below an entity are, without blanks around it and slashes behind it. -/
def filesetRoot? (entity : Entity) : Option String :=
  match entity.properties.get? locationKey with
  | none => none
  | some location =>
    let root := String.ofList (Text.dropEnd (· = '/') (Text.trim location).toList)
    if root.isEmpty then none else some root

/-- Where the filesets of a catalog are, if the catalog is alive and says so. -/
def catalogRoot? (backend : Storage.Backend) (schema : Entity) :
    Except StoreError (Option String) := do
  match schema.name.parent? with
  | none => return none
  | some name =>
    match ← entity? backend .catalog name with
    | none => return none
    | some (_, catalog) => return filesetRoot? catalog

def resolveLocation (backend : Storage.Backend) (name : Name) (filesetType : FilesetType)
    (schema : Entity) : Except StoreError String := do
  if filesetType = .external then throw (.noExternalLocation name)
  match filesetRoot? schema with
  | some root => return s!"{root}/{name.leaf}"
  | none =>
    match ← catalogRoot? backend schema with
    | some root => return s!"{root}/{schema.name.leaf}/{name.leaf}"
    | none => throw (.noLocation name)

def isBlankLocation : Option String → Bool
  | none => true
  | some location => Text.isBlank location

/-- The kind of a new entity, with a location if it is a fileset. -/
def resolveKind (backend : Storage.Backend) (name : Name) (parent : Option Entity) (kind : Kind) :
    Except StoreError Kind :=
  match kind with
  | .fileset filesetType location =>
    if isBlankLocation location then
      match parent with
      | none => .error (.noSchema name)
      | some schema => do
        return .fileset filesetType (some (← resolveLocation backend name filesetType schema))
    else .ok kind
  | _ => .ok kind

/-- Checks that an id is free, belongs to the entity with the stem or to nobody who is alive. -/
def claimId (backend : Storage.Backend) (id : EntityId) (stem : Bytes) :
    Except StoreError Unit := do
  match ← indexed? backend id with
  | none => return
  | some owner =>
    if owner ≠ stem then
      let (type, name) ← decodeStem owner
      if (← entity? backend type name).isSome then throw (.idTaken id type name)

end Catalog

namespace Store

/-- The id that a draft asks for. -/
def requestedId (draft : Draft) : Except StoreError (Option EntityId) :=
  match draft.properties.get? EntityId.propertyKey with
  | none => .ok none
  | some text =>
    match EntityId.ofTag? text with
    | some id => .ok (some id)
    | none => .error (.tag text)

def parentOf (store : Store) (type : EntityType) (name : Name) :
    Except StoreError (Option Entity) :=
  match name.parent?, type.parent? with
  | some parent, some parentType => do return some (← store.load parentType parent)
  | _, _ => .ok none

/-- The answer to a request for a name that a live entity has. -/
def replay (type : EntityType) (name : Name) (requested : Option EntityId) (current : Version) :
    Except StoreError Entity := do
  let existing ← Catalog.decode type current
  if requested.isSome ∧ existing.taggedId? = requested then return existing
  throw (.taken type name)

/-- How many ids are drawn before giving up. -/
def idAttempts : Nat := 8

/-- Draws ids until one is not in the index. -/
def freeId : Nat → Action EntityId
  | 0 => throw (.noFreeId idAttempts)
  | attempts + 1 => do
    let id ← drawId
    let found ← Action.inspect fun store => Catalog.indexed? store.backend id
    if found.isNone then return id else freeId attempts

def chooseId (requested : Option EntityId) (stem : Bytes) : Action EntityId :=
  match requested with
  | some id => do
    Action.inspect fun store => Catalog.claimId store.backend id stem
    return id
  | none => freeId idAttempts

def encode (store : Store) (entity : Entity) : Except StoreError Bytes :=
  (entity.encode store.format).mapError .payload

/-- The row of a live version. -/
def putLive (store : Store) (stem : Bytes) (stamp : Stamp) (entity : Entity) :
    Except StoreError Storage.Op := do
  let payload ← store.encode entity
  return .put (Key.version stem stamp) (Version.encodeValue .live payload)

/-- The rows of a new entity: its version, its place in the index and the greatest id so far. -/
def creationBatch (store : Store) (stem : Bytes) (stamp : Stamp) (entity : Entity) :
    Except StoreError Storage.Batch := do
  let version ← store.putLive stem stamp entity
  let index := Storage.Op.put (Key.id entity.id) stem
  let raise := Storage.Op.put Key.watermark entity.id.bytes
  return if store.watermark < entity.id.word then [version, index, raise] else [version, index]

def prepareCreate (name : Name) (draft : Draft) : Action (Prepared Entity) := do
  let type := draft.type
  let stem := Key.entity type name
  let requested ← Action.inspect fun store => do
    store.ensureOpen
    checkDepth type name
    requestedId draft
  underLocks [name.path] fun ticket => do
    let parent ← Action.inspect fun store => store.parentOf type name
    let latest ← Action.inspect fun store => Catalog.latest? store.backend stem
    match latest.filter Version.isLive with
    | some current =>
      let existing ← Action.inspect fun _ => replay type name requested current
      return .settled existing
    | none =>
      let kind ← Action.inspect fun store =>
        Catalog.resolveKind store.backend name parent draft.kind
      let id ← chooseId requested stem
      let entity : Entity := {
        id, name, kind
        comment := draft.comment
        properties := id.addTo draft.properties
        audit := .created draft.creator (← get).clock }
      let stamp ← issueStamp (latest.map (·.stamp))
      let batch ← Action.inspect fun store => store.creationBatch stem stamp entity
      return .pending {
        batch
        ticket := some ticket
        assigned := some id
        upkeep := false
        answer := entity }

def create (name : Name) (draft : Draft) : Action Entity := complete (prepareCreate name draft)

end Store

end VersionedCatalog
