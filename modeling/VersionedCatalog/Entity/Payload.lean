import VersionedCatalog.Document.Reading
import VersionedCatalog.Entity
import VersionedCatalog.Frame

/-! # Entities as payloads

An entity is written as a record, and so are its name, its audit record and its kind, whose first
field is the type. Comments, properties, times of change and most attributes of kinds may be missing
when an entity is read back and then have their defaults. The type decides how the other fields of a
kind are read, so these are buffered first.
-/

namespace VersionedCatalog

namespace Properties

def toDocument (properties : Properties) : Document :=
  .dict (properties.entries.map fun entry => (.ofText entry.1, .ofText entry.2))

end Properties

namespace Name

def toDocument (name : Name) : Document :=
  .ofFields [
    ("namespace", .ofFields [("levels", .list (name.scope.levels.map .ofText))]),
    ("name", .ofText name.leaf)]

def readScope? (source : Source) (document : Document) : Option Namespace := do
  let fields ← Fields.ofDocument? source ["levels"] document
  let levels ← fields.required? "levels" (source.inner.list? source.inner.inner.text?)
  return ⟨levels⟩

def read? (source : Source) (document : Document) : Option Name := do
  let fields ← Fields.ofDocument? source ["namespace", "name"] document
  let scope ← fields.required? "namespace" (readScope? source.inner)
  let leaf ← fields.required? "name" source.inner.text?
  return ⟨scope, leaf⟩

end Name

namespace Audit

def toDocument (audit : Audit) : Document :=
  .ofFields [
    ("creator", .ofText audit.creator),
    ("create_time", .ofNat audit.createTime.toNat),
    ("last_modifier", .ofOption .ofText audit.lastModifier),
    ("last_modified_time", .ofOption (fun time => .ofNat time.toNat) audit.lastModifiedTime)]

def fieldNames : List String := ["creator", "create_time", "last_modifier", "last_modified_time"]

def read? (source : Source) (document : Document) : Option Audit := do
  let fields ← Fields.ofDocument? source fieldNames document
  let inner := source.inner
  let creator ← fields.required? "creator" inner.text?
  let createTime ← fields.required? "create_time" inner.word?
  let lastModifier ← fields.optional? "last_modifier" none (inner.option? inner.text?)
  let lastModifiedTime ← fields.optional? "last_modified_time" none (inner.option? inner.word?)
  return ⟨creator, createTime, lastModifier, lastModifiedTime⟩

end Audit

namespace CatalogType

def names : List (String × CatalogType) :=
  [("Relational", .relational), ("Fileset", .fileset), ("Messaging", .messaging)]

def name : CatalogType → String
  | .relational => "Relational"
  | .fileset => "Fileset"
  | .messaging => "Messaging"

end CatalogType

namespace FilesetType

def names : List (String × FilesetType) := [("Managed", .managed), ("External", .external)]

def name : FilesetType → String
  | .managed => "Managed"
  | .external => "External"

end FilesetType

namespace Column

def toDocument (column : Column) : Document :=
  .ofFields [
    ("name", .ofText column.name),
    ("data_type", .ofText column.dataType),
    ("comment", .ofOption .ofText column.comment),
    ("nullable", .bool column.nullable)]

def fieldNames : List String := ["name", "data_type", "comment", "nullable"]

def read? (source : Source) (document : Document) : Option Column := do
  let fields ← Fields.ofDocument? source fieldNames document
  let inner := source.inner
  let name ← fields.required? "name" inner.text?
  let dataType ← fields.required? "data_type" inner.text?
  let comment ← fields.optional? "comment" none (inner.option? inner.text?)
  let nullable ← fields.optional? "nullable" true inner.flag?
  return ⟨name, dataType, comment, nullable⟩

end Column

namespace Kind

def typeKey : String := "type"

def attributes : Kind → List (String × Document)
  | .metalake => []
  | .catalog catalogType provider =>
    [("catalog_type", .ofText catalogType.name), ("provider", .ofText provider)]
  | .schema => []
  | .table columns partitioning =>
    [("columns", .list (columns.map Column.toDocument)),
      ("partitioning", .list (partitioning.map .ofText))]
  | .fileset filesetType location =>
    [("fileset_type", .ofText filesetType.name),
      ("storage_location", .ofOption .ofText location)]

def toDocument (kind : Kind) : Document :=
  .ofFields ((typeKey, .ofText kind.type.name) :: kind.attributes)

/-- A type without attributes: fields of a dictionary are ignored, items of a list are not. -/
def readNothing? : Document → Option Unit
  | .dict _ => some ()
  | .list [] => some ()
  | _ => none

/-- Reads the buffered attributes of a type. -/
def readAttributes? (type : EntityType) (document : Document) : Option Kind := do
  let source := Source.buffered
  match type with
  | .metalake =>
    readNothing? document
    return .metalake
  | .catalog =>
    let fields ← Fields.ofDocument? source ["catalog_type", "provider"] document
    let catalogType ← fields.required? "catalog_type" (Source.variant? CatalogType.names)
    let provider ← fields.required? "provider" source.text?
    return .catalog catalogType provider
  | .schema =>
    readNothing? document
    return .schema
  | .table =>
    let fields ← Fields.ofDocument? source ["columns", "partitioning"] document
    let columns ← fields.optional? "columns" [] (source.list? (Column.read? source))
    let partitioning ← fields.optional? "partitioning" [] (source.list? source.text?)
    return .table columns partitioning
  | .fileset =>
    let fields ← Fields.ofDocument? source ["fileset_type", "storage_location"] document
    let filesetType ← fields.required? "fileset_type" (Source.variant? FilesetType.names)
    let location ← fields.optional? "storage_location" none (source.option? source.text?)
    return .fileset filesetType location

def isTypeKey : Document → Bool
  | .text value _ => value = typeKey
  | .bytes value _ => value = Utf8.encode typeKey
  | _ => false

/-- The type that the value of the type field names. -/
def readType? (source : Source) (document : Document) : Option EntityType := do
  let label ← source.label? document
  let name ← label.pick (EntityType.all.map EntityType.name)
  EntityType.ofName? name

/-- Whether a part of a kind can be buffered. -/
def isBufferable (source : Source) (document : Document) : Bool :=
  document.isPlain && document.height ≤ source.inner.room

def read? (source : Source) (document : Document) : Option Kind := do
  match document with
  | .dict entries =>
    let (tags, others) := entries.partition fun entry => isTypeKey entry.1
    match tags with
    | [tag] =>
      let type ← readType? source tag.2
      if !others.all fun entry => isBufferable source entry.1 && isBufferable source entry.2 then
        none
      readAttributes? type (.dict others)
    | _ => none
  | .list (tag :: others) =>
    let type ← readType? source tag
    if !others.all (isBufferable source) then none
    readAttributes? type (.list others)
  | _ => none

end Kind

namespace Entity

def toDocument (entity : Entity) : Document :=
  .ofFields [
    ("id", .ofNat entity.id.word.toNat),
    ("name", entity.name.toDocument),
    ("comment", .ofOption .ofText entity.comment),
    ("properties", Properties.toDocument entity.properties),
    ("audit", entity.audit.toDocument),
    ("kind", entity.kind.toDocument)]

def fieldNames : List String := ["id", "name", "comment", "properties", "audit", "kind"]

def read? (source : Source) (document : Document) : Option Entity := do
  let fields ← Fields.ofDocument? source fieldNames document
  let inner := source.inner
  let id ← fields.required? "id" inner.word?
  let name ← fields.required? "name" (Name.read? inner)
  let comment ← fields.optional? "comment" none (inner.option? inner.text?)
  let properties ← fields.optional? "properties" ∅ inner.texts?
  let audit ← fields.required? "audit" (Audit.read? inner)
  let kind ← fields.required? "kind" (Kind.read? inner)
  return ⟨⟨id⟩, name, comment, properties, audit, kind⟩

end Entity

/-- Why a payload gives no entity of the type it should. -/
inductive PayloadError
  | frame (error : FrameError)
  | type (expected found : EntityType)
  deriving DecidableEq

def PayloadError.message : PayloadError → String
  | .frame error => error.message
  | .type expected found => s!"expected {expected.name} payload, found {found.name}"

namespace Entity

def encode (format : Format) (entity : Entity) : Except PayloadError Bytes :=
  (Frame.encode format entity.toDocument).mapError .frame

/-- Reads an entity in whichever format it was written. -/
def decode (expected : EntityType) (frame : Bytes) : Except PayloadError Entity := do
  let entity ← (Frame.decode Entity.read? frame).mapError PayloadError.frame
  if entity.type = expected then return entity
  else throw (.type expected entity.type)

end Entity

end VersionedCatalog
