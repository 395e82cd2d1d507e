import VersionedCatalog.Storage.Backend
import VersionedCatalog.Store.Error

/-! # The state of a store

A store has its rows in a backend and remembers what they do not say: the stamp it gave out last,
the greatest id it has seen, where new ids come from, the locks that are held and whether it was
closed. The wall clock is a part of the state that only time moves.

An action changes the state and has an answer, or fails; what it changed before it failed stays
changed.
-/

namespace VersionedCatalog

structure Store where
  backend : Storage.Backend
  settings : Settings
  ids : IdSource
  clock : Millis
  lastStamp : Stamp
  locks : Locks
  watermark : UInt64
  closed : Bool
  deriving DecidableEq

abbrev Action := ExceptT StoreError (StateM Store)

namespace Action

def run (action : Action α) (store : Store) : Except StoreError α × Store :=
  StateT.run (ExceptT.run action) store

/-- Looks at the state and leaves it as it is. -/
def inspect (look : Store → Except StoreError α) : Action α := do
  let store ← get
  match look store with
  | .ok answer => return answer
  | .error error => throw error

end Action

namespace Store

/-- A store over a backend that nobody has used it for yet. -/
def fresh (backend : Storage.Backend) (settings : Settings) (ids : IdSource) (clock : Millis)
    (watermark : UInt64) : Store where
  backend := backend
  settings := settings
  ids := ids
  clock := clock
  lastStamp := .zero
  locks := .idle settings.lockTimeout
  watermark := watermark
  closed := false

def ensureOpen (store : Store) : Except StoreError Unit :=
  if store.closed then .error (.backend .closed) else .ok ()

def format (store : Store) : Format := store.settings.format

def setClock (store : Store) (time : Millis) : Store := { store with clock := time }

def release (store : Store) (ticket : Nat) : Store :=
  { store with locks := store.locks.release ticket }

/-- Gives out a stamp that is later than `latest` and than every stamp before. -/
def issueStamp (latest : Option Stamp) : Action Stamp := do
  let store ← get
  match Stamp.next store.settings.skewMillis store.clock store.lastStamp latest with
  | .error skew => throw (.skew skew)
  | .ok stamp =>
    set { store with lastStamp := stamp }
    return stamp

def drawId : Action EntityId := do
  let store ← get
  match store.ids.draw? with
  | none => throw .noMoreIds
  | some (id, ids) =>
    set { store with ids }
    return id

end Store

end VersionedCatalog
