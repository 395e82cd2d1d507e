import VersionedCatalog.Entity.Change
import VersionedCatalog.Entity.Payload
import VersionedCatalog.History.Version
import VersionedCatalog.Locks
import VersionedCatalog.Settings
import VersionedCatalog.Storage.Fault

/-! # Failures of the store

Every cause for which an operation of the store fails, with its text and the class that callers act
upon.
-/

namespace VersionedCatalog

inductive StoreError
  | invalidName (error : NameError)
  | tag (text : String)
  | settings (error : SettingsError)
  | nameDepth (type : EntityType) (name : Name)
  | scopeDepth (type : EntityType) (scope : Namespace)
  | change (error : ChangeError)
  | missing (type : EntityType) (name : Name)
  | missingId (id : EntityId)
  | taken (type : EntityType) (name : Name)
  | notEmpty (type : EntityType) (name : Name)
  | idTaken (id : EntityId) (type : EntityType) (name : Name)
  | noLocation (name : Name)
  | noExternalLocation (name : Name)
  | noSchema (name : Name)
  | payload (error : PayloadError)
  | history (error : HistoryError)
  | notBelow (child name : Name)
  | backend (fault : Storage.Fault)
  | skew (found : Stamp.Skew)
  | timeout (found : LockTimeout)
  | noMoreIds
  | noFreeId (attempts : Nat)
  deriving DecidableEq

namespace StoreError

inductive Class
  | notFound
  | alreadyExists
  | nonEmpty
  | invalidArgument
  | unsupportedOperation
  | serialization
  | backendUnavailable
  | conflict
  | idGeneration
  deriving DecidableEq

def toClass : StoreError → Class
  | .invalidName _ => .invalidArgument
  | .tag _ => .invalidArgument
  | .settings _ => .invalidArgument
  | .nameDepth _ _ => .invalidArgument
  | .scopeDepth _ _ => .invalidArgument
  | .change error => if error.isUnsupported then .unsupportedOperation else .invalidArgument
  | .missing _ _ => .notFound
  | .missingId _ => .notFound
  | .taken _ _ => .alreadyExists
  | .notEmpty _ _ => .nonEmpty
  | .idTaken _ _ _ => .invalidArgument
  | .noLocation _ => .invalidArgument
  | .noExternalLocation _ => .invalidArgument
  | .noSchema _ => .invalidArgument
  | .payload _ => .serialization
  | .history _ => .serialization
  | .notBelow _ _ => .serialization
  | .backend _ => .backendUnavailable
  | .skew _ => .conflict
  | .timeout _ => .conflict
  | .noMoreIds => .idGeneration
  | .noFreeId _ => .idGeneration

def Class.name : Class → String
  | .notFound => "NotFound"
  | .alreadyExists => "AlreadyExists"
  | .nonEmpty => "NonEmpty"
  | .invalidArgument => "InvalidArgument"
  | .unsupportedOperation => "UnsupportedOperation"
  | .serialization => "Serialization"
  | .backendUnavailable => "BackendUnavailable"
  | .conflict => "Conflict"
  | .idGeneration => "IdGeneration"

/-- What the message of a class starts with. -/
def Class.opening : Class → String
  | .serialization => "serialization error: "
  | .backendUnavailable => "backend unavailable: "
  | .conflict => "conflict: "
  | .idGeneration => "id generation failed: "
  | _ => ""

def cause : StoreError → String
  | .invalidName error => error.message
  | .tag text => s!"Invalid string identifier: {text}"
  | .settings error => error.message
  | .nameDepth type name =>
    let levels := Text.decimal type.depth
    s!"{type.name} identifier must have a namespace of {levels} levels, got '{name.text}'"
  | .scopeDepth type scope =>
    let levels := Text.decimal type.depth
    s!"{type.name} entities live in namespaces of {levels} levels, got '{scope.text}'"
  | .change error => error.message
  | .missing type name => s!"{type.name} {name.text} does not exist"
  | .missingId id => s!"Entity with id {id.text} does not exist"
  | .taken type name => s!"{type.name} {name.text} already exists"
  | .notEmpty type name => s!"{type.name} {name.text} is not empty"
  | .idTaken id type name => s!"Id {id.text} is already assigned to {type.name} {name.text}"
  | .noLocation name => s!"Storage location must be set for fileset: {name.text}"
  | .noExternalLocation name => s!"Storage location must be set for external fileset {name.text}"
  | .noSchema name => s!"Fileset {name.text} has no schema"
  | .payload error => error.message
  | .history error => error.message
  | .notBelow child name => s!"{child.text} is not below {name.text}"
  | .backend fault => fault.message
  | .skew found => found.message
  | .timeout found => found.message
  | .noMoreIds => "sequential id space exhausted"
  | .noFreeId attempts => s!"no unused id after {Text.decimal attempts} attempts"

def message (error : StoreError) : String := error.toClass.opening ++ error.cause

def isMissing (error : StoreError) : Bool := error.toClass = .notFound

end StoreError

end VersionedCatalog
