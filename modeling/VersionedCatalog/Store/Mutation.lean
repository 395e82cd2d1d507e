import VersionedCatalog.Store.Reading

/-! # Two-step mutations

A mutation is prepared and then committed. Preparing takes the locks, does all the reading, draws id
and stamp and ends with a batch; or it ends without one, because it failed or because there is
nothing to write, and then the locks are given back. Committing writes the batch and gives the locks
back. What happens in between sees the state before the batch and meets the locks.
-/

namespace VersionedCatalog

structure Pending (α : Type) where
  batch : Storage.Batch
  /-- The locks to give back. -/
  ticket : Option Nat
  /-- An id that the batch gives to an entity. -/
  assigned : Option EntityId
  /-- Whether the write is followed by upkeep of locks and backend. -/
  upkeep : Bool
  answer : α
  deriving DecidableEq

inductive Prepared (α : Type)
  | settled (answer : α)
  | pending (change : Pending α)
  deriving DecidableEq

namespace Store

/-- Runs the reading part of a mutation under the locks of some paths. -/
def underLocks (paths : List Path) (body : Nat → Action (Prepared α)) : Action (Prepared α) := do
  let store ← get
  let (granted, locks) := store.locks.acquire paths
  set { store with locks }
  match granted with
  | .error timeout => throw (.timeout timeout)
  | .ok grant =>
    let release : Action Unit := modify fun store => store.release grant.ticket
    try
      let prepared ← body grant.ticket
      match prepared with
      | .settled _ => release
      | .pending _ => pure ()
      return prepared
    catch error =>
      release
      throw error

def releaseTicket (store : Store) : Option Nat → Store
  | some ticket => store.release ticket
  | none => store

def raiseWatermark (store : Store) : Option EntityId → Store
  | some id => { store with watermark := max store.watermark id.word }
  | none => store

/-- Forgets locks that nobody holds and lets the backend compact itself if it can. -/
def tidy (store : Store) : Store :=
  let backend := match store.backend.maintain with
    | .ok backend => backend
    | .error _ => store.backend
  { store with locks := store.locks.prune, backend }

def commit (change : Pending α) : Action α := do
  let store ← get
  match store.backend.write change.batch with
  | .error fault =>
    set (store.releaseTicket change.ticket)
    throw (.backend fault)
  | .ok backend =>
    let written := ({ store with backend }.raiseWatermark change.assigned).releaseTicket change.ticket
    set (if change.upkeep then written.tidy else written)
    return change.answer

/-- Both steps of a mutation with nothing in between. -/
def complete (prepare : Action (Prepared α)) : Action α := do
  match ← prepare with
  | .settled answer => return answer
  | .pending change => commit change

end Store

end VersionedCatalog
