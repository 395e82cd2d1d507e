import VersionedCatalog.Document.Access
import VersionedCatalog.Entity.Change
import VersionedCatalog.Entity.Payload
import VersionedCatalog.Settings

/-! # Requests as documents

What a caller of a store asks for may come as a document: a draft of a new entity, a change, or
settings. A text with dots and a list of texts both give a name. A request that lacks a part or
holds something else in its place is none.
-/

namespace VersionedCatalog

/-- A name from its text or its path. -/
def Name.ofDocument? : Document → Option (Except NameError Name)
  | .text value _ => some (Name.parse value)
  | .list parts => do return Name.ofPath (← parts.mapM Document.asText?)
  | _ => none

/-- A namespace from its levels, of which the root has none. -/
def Namespace.ofDocument? (document : Document) : Option (Except NameError Namespace) := do
  let levels ← (← document.asItems?).mapM Document.asText?
  return if levels.isEmpty then .ok .root else Namespace.ofLevels levels

/-- A change, told by the field that names it. -/
def Change.ofDocument? (document : Document) : Option Change := do
  let text := fun name => document.text? name
  match ← text "change" with
  | "set_property" => return .setProperty (← text "key") (← text "value")
  | "remove_property" => return .removeProperty (← text "key")
  | "update_comment" => return .updateComment (← text "comment")
  | "remove_comment" => return .removeComment
  | "rename" => return .rename (← text "new_name")
  | "update_primary" => return .updateLocation (← text "location")
  | "add_backup" => return .addBackup (← text "key") (← text "location")
  | "update_backup" => return .updateBackup (← text "key") (← text "location")
  | "remove_backup" => return .removeBackup (← text "key")
  | "switch_backup" => return .switchBackups (← text "first") (← text "second")
  | "switch_primary" => return .switchPrimary (← text "key")
  | "add_column" => return .addColumn (← document.field? "column" >>= Column.read? .json)
  | "delete_column" =>
    return .deleteColumn (← text "name") ((document.bool? "if_exists").getD false)
  | "update_column_comment" => return .updateColumnComment (← text "name") (← text "comment")
  | _ => none

/-- Adds a property that is given as a list of its key and its value. -/
def Draft.withPair (draft : Draft) (pair : Document) : Draft :=
  match pair with
  | .list [.text key _, .text value _] => draft.withProperty key value
  | _ => draft

/-- A draft: its kind, and what else there is of properties, comment, creator, requested id and
further properties, in this order. -/
def Draft.ofDocument? (document : Document) : Option Draft := do
  let kind ← document.field? "kind" >>= Kind.read? .json
  let blank := Draft.of kind
  let properties := document.field? "properties" >>= Document.texts?
  let draft := { blank with
    properties := properties.getD ∅
    comment := document.text? "comment"
    creator := (document.text? "creator").getD blank.creator }
  let tagged := match document.nat? "sid" with
    | some id => draft.withId (.ofNat id)
    | none => draft
  return ((document.items? "then_properties").getD []).foldl Draft.withPair tagged

/-- A field that holds whole units of time, if it is there. -/
def spanField (document : Document) (name : String) (unit : Nat) : Option Span :=
  (document.nat? name).map fun n => ⟨n * unit⟩

/-- The settings that a document gives, with times in a unit of so many nanoseconds that the names
of their fields end in; what it does not give is as in `base`. -/
def Settings.ofDocument (document : Document) (unit : Nat × String) (base : Settings) :
    Except FrameError Settings := do
  let time := fun name present => (spanField document (name ++ unit.2) unit.1).getD present
  let format ← match document.text? "serde" <|> document.text? "format" with
    | some name => Format.ofName name
    | none => pure base.format
  return { base with
    format
    path := document.text? "path" <|> base.path
    skew := time "max_skew_" base.skew
    deleteAfter := time "delete_after_" base.deleteAfter
    sweepInterval := spanField document ("gc_interval_" ++ unit.2) unit.1 <|> base.sweepInterval
    lockTimeout := time "lock_timeout_" base.lockTimeout
    syncOnCommit := (document.bool? "sync").getD base.syncOnCommit
    idStrategy := match document.bool? "sequential" with
      | some true => .sequential
      | some false => .random
      | none => base.idStrategy }

end VersionedCatalog
