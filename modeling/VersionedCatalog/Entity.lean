import VersionedCatalog.Entity.Kind
import VersionedCatalog.EntityId
import VersionedCatalog.Name

/-! # Entities

An entity has an id that stays, a name that may change, properties, an audit record and the
attributes of its kind. A draft is what a request to create an entity gives: the store adds the id,
the name and the times.
-/

namespace VersionedCatalog

/-- Who created an entity and who changed it last, with the times in milliseconds. -/
structure Audit where
  creator : String
  createTime : UInt64
  lastModifier : Option String
  lastModifiedTime : Option UInt64
  deriving DecidableEq

namespace Audit

def created (creator : String) (time : UInt64) : Audit := ⟨creator, time, none, none⟩

def touch (audit : Audit) (modifier : String) (time : UInt64) : Audit :=
  { audit with lastModifier := some modifier, lastModifiedTime := some time }

end Audit

structure Entity where
  id : EntityId
  name : Name
  comment : Option String
  properties : Properties
  audit : Audit
  kind : Kind
  deriving DecidableEq

namespace Entity

/-- The beginning of the keys under which filesets keep backup locations. -/
def backupStem : String := "backup-storage-location-"

def type (entity : Entity) : EntityType := entity.kind.type

/-- The id that the properties carry, if they carry a well-formed one. -/
def taggedId? (entity : Entity) : Option EntityId :=
  entity.properties.get? EntityId.propertyKey >>= EntityId.ofTag?

/-- The primary storage location of a fileset. -/
def location? (entity : Entity) : Option String :=
  match entity.kind with
  | .fileset _ location => location
  | _ => none

def columns (entity : Entity) : List Column :=
  match entity.kind with
  | .table columns _ => columns
  | _ => []

/-- The properties that hold backup locations; only filesets have them. -/
def backups (entity : Entity) : Properties :=
  if entity.type = .fileset then
    entity.properties.filter fun key _ => backupStem.toList.isPrefixOf key.toList
  else ∅

def withProperty (entity : Entity) (key value : String) : Entity :=
  { entity with properties := entity.properties.insert key value }

def withoutProperty (entity : Entity) (key : String) : Entity :=
  { entity with properties := entity.properties.erase key }

def withLocation (entity : Entity) (location : String) : Entity :=
  match entity.kind with
  | .fileset filesetType _ => { entity with kind := .fileset filesetType (some location) }
  | _ => entity

def withColumns (entity : Entity) (columns : List Column) : Entity :=
  match entity.kind with
  | .table _ partitioning => { entity with kind := .table columns partitioning }
  | _ => entity

end Entity

structure Draft where
  kind : Kind
  properties : Properties
  comment : Option String
  creator : String
  deriving DecidableEq

namespace Draft

def of (kind : Kind) : Draft := ⟨kind, ∅, none, "anonymous"⟩

def type (draft : Draft) : EntityType := draft.kind.type

/-- A draft with an id in its properties asks for this id, and creates nothing when repeated. -/
def withId (draft : Draft) (id : EntityId) : Draft :=
  { draft with properties := id.addTo draft.properties }

def withProperty (draft : Draft) (key value : String) : Draft :=
  { draft with properties := draft.properties.insert key value }

end Draft

end VersionedCatalog
