import VersionedCatalog.Store.Mutation

/-! # Dropping entities

A live entity is dropped by a tombstone, alone if nothing below it is alive, or with everything that
is, all with one stamp. The ids of what was dropped leave the index.
-/

namespace VersionedCatalog

/-- An entity that is to be dropped, by its newest version. -/
abbrev Doomed := EntityType × Version

namespace Catalog

/-- What is alive in some ranges of descendants. -/
def liveInRanges (backend : Storage.Backend) :
    List (EntityType × Bytes) → Except StoreError (List Doomed)
  | [] => .ok []
  | (type, stem) :: rest => do
    let versions ← liveBelow backend stem
    let others ← liveInRanges backend rest
    return versions.map (fun version => (type, version)) ++ others

/-- A live entity behind everything that is alive below it. -/
def doomed (backend : Storage.Backend) (type : EntityType) (name : Name) (cascade : Bool)
    (current : Version) : Except StoreError (List Doomed) := do
  let below ← liveInRanges backend (Key.descendants type name)
  if !below.isEmpty && !cascade then throw (.notEmpty type name)
  return below ++ [(type, current)]

def latestStamp : List Doomed → Stamp
  | [] => .zero
  | (_, version) :: rest => version.stamp.later (latestStamp rest)

def tombstones (stamp : Stamp) : List Doomed → Except StoreError Storage.Batch
  | [] => .ok []
  | (type, version) :: rest => do
    let entity ← decode type version
    let others ← tombstones stamp rest
    return .put (Key.version version.stem stamp) (Version.encodeValue .tombstone [])
      :: .delete (Key.id entity.id) :: others

end Catalog

namespace Store

def prepareDrop (type : EntityType) (name : Name) (cascade : Bool) : Action (Prepared Bool) := do
  Action.inspect fun store => do
    store.ensureOpen
    checkDepth type name
  underLocks [name.path] fun ticket => do
    match ← Action.inspect fun store => Catalog.live? store.backend type name with
    | none => return .settled false
    | some current =>
      let doomed ← Action.inspect fun store =>
        Catalog.doomed store.backend type name cascade current
      let stamp ← issueStamp (some (Catalog.latestStamp doomed))
      let batch ← Action.inspect fun _ => Catalog.tombstones stamp doomed
      return .pending ⟨batch, some ticket, none, false, true⟩

/-- Whether there was an entity to drop. -/
def drop (type : EntityType) (name : Name) (cascade : Bool) : Action Bool :=
  complete (prepareDrop type name cascade)

end Store

end VersionedCatalog
