/-! # Kinds of entities

There are five types of entities in four layers. Every type but the first belongs to a parent type,
whose entities hold its own. A kind is a type with the attributes that only entities of this type
have.
-/

namespace VersionedCatalog

inductive EntityType
  | metalake
  | catalog
  | schema
  | table
  | fileset
  deriving DecidableEq

namespace EntityType

def all : List EntityType := [.metalake, .catalog, .schema, .table, .fileset]

def name : EntityType → String
  | .metalake => "Metalake"
  | .catalog => "Catalog"
  | .schema => "Schema"
  | .table => "Table"
  | .fileset => "Fileset"

/-- How many levels the namespaces have in which entities of a type live. -/
def depth : EntityType → Nat
  | .metalake => 0
  | .catalog => 1
  | .schema => 2
  | .table => 3
  | .fileset => 3

/-- The byte of a type in keys. -/
def code : EntityType → UInt8
  | .metalake => 1
  | .catalog => 2
  | .schema => 3
  | .table => 4
  | .fileset => 5

def ofCode? (code : UInt8) : Option EntityType := all.find? fun type => type.code = code

def ofName? (name : String) : Option EntityType := all.find? fun type => type.name = name

def parent? : EntityType → Option EntityType
  | .metalake => none
  | .catalog => some .metalake
  | .schema => some .catalog
  | .table => some .schema
  | .fileset => some .schema

def atDepth (depth : Nat) : List EntityType := all.filter fun type => type.depth = depth

/-- The types whose entities may lie below an entity of a type, shallow ones first. -/
def deeper (type : EntityType) : List EntityType :=
  all.filter fun other => type.depth < other.depth

theorem ofCode?_code (type : EntityType) : ofCode? type.code = some type := by
  cases type <;> rfl

theorem ofName?_name (type : EntityType) : ofName? type.name = some type := by
  cases type <;> rfl

end EntityType

inductive CatalogType
  | relational
  | fileset
  | messaging
  deriving DecidableEq

inductive FilesetType
  | managed
  | external
  deriving DecidableEq

structure Column where
  name : String
  dataType : String
  comment : Option String
  nullable : Bool
  deriving DecidableEq

inductive Kind
  | metalake
  | catalog (catalogType : CatalogType) (provider : String)
  | schema
  | table (columns : List Column) (partitioning : List String)
  | fileset (filesetType : FilesetType) (location : Option String)
  deriving DecidableEq

def Kind.type : Kind → EntityType
  | .metalake => .metalake
  | .catalog _ _ => .catalog
  | .schema => .schema
  | .table _ _ => .table
  | .fileset _ _ => .fileset

end VersionedCatalog
