import VersionedCatalog.Store.Creation

/-! # Altering entities

The changes of an alteration are checked before anything is read, then applied together and written
as one version. A change of name moves the entity and everything alive below it: each gets a version
under its new name, a marker under its old one and a new place in the index, all with one stamp.
-/

namespace VersionedCatalog

/-- An entity on its way to another stem, with the latest stamp that its versions must be after. -/
structure Relocation where
  source : Bytes
  target : Bytes
  entity : Entity
  floor : Stamp
  deriving DecidableEq

namespace Catalog

/-- The later one of a stamp and the stamp of the newest version under a stem. -/
def floorAt (backend : Storage.Backend) (stem : Bytes) (stamp : Stamp) :
    Except StoreError Stamp := do
  match ← latest? backend stem with
  | some version => return version.stamp.later stamp
  | none => return stamp

/-- Moves what is alive below `source` to the same place below `target`. -/
def relocate (backend : Storage.Backend) (source target : Name) (type : EntityType)
    (version : Version) : Except StoreError Relocation := do
  let entity ← decode type version
  match entity.name.rebase? source target with
  | none => throw (.notBelow entity.name source)
  | some name =>
    let stem := Key.entity type name
    return {
      source := version.stem
      target := stem
      entity := { entity with name }
      floor := ← floorAt backend stem version.stamp }

def relocateAll (backend : Storage.Backend) (source target : Name) (type : EntityType) :
    List Version → Except StoreError (List Relocation)
  | [] => .ok []
  | version :: rest => do
    let first ← relocate backend source target type version
    let others ← relocateAll backend source target type rest
    return first :: others

/-- Moves everything alive in some ranges of descendants. -/
def relocateRanges (backend : Storage.Backend) (source target : Name) :
    List (EntityType × Bytes) → Except StoreError (List Relocation)
  | [] => .ok []
  | (type, stem) :: rest => do
    let versions ← liveBelow backend stem
    let moved ← relocateAll backend source target type versions
    let others ← relocateRanges backend source target rest
    return moved ++ others

/-- Moves an entity and everything alive below it, unless the new name is taken. -/
def relocateTree (backend : Storage.Backend) (name : Name) (stamp : Stamp) (entity : Entity)
    (target : Name) : Except StoreError (List Relocation) := do
  let type := entity.type
  let stem := Key.entity type target
  let found ← latest? backend stem
  if found.any Version.isLive then throw (.taken type target)
  let floor := match found with
    | some version => version.stamp.later stamp
    | none => stamp
  let others ← relocateRanges backend name target (Key.descendants type name)
  return ⟨Key.entity type name, stem, entity, floor⟩ :: others

end Catalog

namespace Relocation

/-- The latest of the stamps that some relocations must be after. -/
def latestFloor : List Relocation → Stamp
  | [] => .zero
  | relocation :: rest => relocation.floor.later (latestFloor rest)

/-- The rows of a move. -/
def ops (store : Store) (stamp : Stamp) (relocation : Relocation) :
    Except StoreError Storage.Batch := do
  let version ← store.putLive relocation.target stamp relocation.entity
  let goal := Utf8.encode relocation.entity.name.text
  return [
    version,
    .put (Key.version relocation.source stamp) (Version.encodeValue .renamed goal),
    .put (Key.id relocation.entity.id) relocation.target]

def batch (store : Store) (stamp : Stamp) :
    List Relocation → Except StoreError Storage.Batch
  | [] => .ok []
  | relocation :: rest => do
    let first ← relocation.ops store stamp
    let others ← batch store stamp rest
    return first ++ others

end Relocation

namespace Store

/-- The name after all changes of name in a list of changes. -/
def targetName (name : Name) : List Change → Name
  | [] => name
  | .rename leaf :: rest => targetName ⟨name.scope, leaf⟩ rest
  | _ :: rest => targetName name rest

def lockedPaths (name target : Name) : List Path :=
  if target = name then [name.path] else [name.path, target.path]

def loadForChange (store : Store) (type : EntityType) (name : Name) :
    Except StoreError (Stamp × Entity) := do
  match ← Catalog.entity? store.backend type name with
  | some found => return found
  | none => throw (.missing type name)

/-- The entity after all changes, with the time and the author of the alteration. -/
def changed (store : Store) (modifier : String) (changes : List Change) (entity : Entity) :
    Except StoreError Entity := do
  let entity ← (Change.applyAll changes entity).mapError .change
  return { entity with audit := entity.audit.touch modifier store.clock }

def prepareAlter (type : EntityType) (name : Name) (modifier : String) (changes : List Change) :
    Action (Prepared Entity) := do
  Action.inspect fun store => do
    store.ensureOpen
    checkDepth type name
    (Change.validateAll type changes).mapError .change
  let target := targetName name changes
  underLocks (lockedPaths name target) fun ticket => do
    let (stamp, current) ← Action.inspect fun store => store.loadForChange type name
    if changes.isEmpty then return .settled current
    let updated ← Action.inspect fun store => store.changed modifier changes current
    let pend := fun batch => Prepared.pending ⟨batch, some ticket, none, false, updated⟩
    if target = name then
      let issued ← issueStamp (some stamp)
      let version ← Action.inspect fun store =>
        store.putLive (Key.entity type name) issued updated
      return pend [version]
    else
      let moves ← Action.inspect fun store =>
        Catalog.relocateTree store.backend name stamp updated target
      let issued ← issueStamp (some (Relocation.latestFloor moves))
      let batch ← Action.inspect fun store => Relocation.batch store issued moves
      return pend batch

def alter (type : EntityType) (name : Name) (modifier : String) (changes : List Change) :
    Action Entity := complete (prepareAlter type name modifier changes)

end Store

end VersionedCatalog
