import VersionedCatalog.Store.Mutation

/-! # Collecting old versions

A version expires when the one after it is written. A tombstone or marker that is the newest version
expires at once, a live newest version never. A version is removed once it has been expired for as
long as the retention says. The oldest versions of an entity are removed first, so what is left is
the end of its history.
-/

namespace VersionedCatalog

/-- What a pass over the rows finds. -/
structure Sweep where
  scanned : Nat
  expired : List Bytes
  purged : Nat
  deriving DecidableEq

namespace Sweep

def nothing : Sweep := ⟨0, [], 0⟩

def add (a b : Sweep) : Sweep := ⟨a.scanned + b.scanned, a.expired ++ b.expired, a.purged + b.purged⟩

/-- When a version expires and how long expired versions are kept. -/
structure Policy where
  now : Millis
  retention : Millis
  deriving DecidableEq

def Policy.isOver (policy : Policy) (since : Millis) : Bool :=
  policy.retention ≤ policy.now.since since

/-- Whether a newest version is removed: live ones are not. -/
def newestExpired (policy : Policy) (stamp : Stamp) (value : Bytes) :
    Except HistoryError Bool := do
  let (flag, _) ← Version.decodeValue value
  return flag ≠ .live && policy.isOver stamp.millis

/-- The keys of the removable versions among all versions of an entity, oldest first. -/
def expiredOf (policy : Policy) : List (Stamp × Storage.Row) → Except HistoryError (List Bytes)
  | [] => .ok []
  | (stamp, key, value) :: rest =>
    match rest with
    | [] => do return if ← newestExpired policy stamp value then [key] else []
    | (successor, _) :: _ => do
      let others ← expiredOf policy rest
      return if policy.isOver successor.millis then key :: others else others

/-- What a pass finds among all versions of an entity. -/
def ofEntity (policy : Policy) (versions : List (Stamp × Storage.Row)) :
    Except HistoryError Sweep := do
  let expired ← expiredOf policy versions
  return ⟨versions.length, expired, if expired.length = versions.length then 1 else 0⟩

/-- Goes on with rows behind some versions of an entity. -/
def continueEntity (policy : Policy) (stem : Bytes) (versions : List (Stamp × Storage.Row)) :
    List Storage.Row → Except HistoryError Sweep
  | [] => ofEntity policy versions
  | row :: rest => do
    let (next, stamp) ← Key.split row.1
    if next = stem then continueEntity policy stem (versions ++ [(stamp, row)]) rest
    else
      let first ← ofEntity policy versions
      let others ← continueEntity policy next [(stamp, row)] rest
      return first.add others

def ofRows (policy : Policy) : List Storage.Row → Except HistoryError Sweep
  | [] => .ok nothing
  | row :: rest => do
    let (stem, stamp) ← Key.split row.1
    continueEntity policy stem [(stamp, row)] rest

def ofTypes (policy : Policy) (backend : Storage.Backend) :
    List EntityType → Except StoreError Sweep
  | [] => .ok nothing
  | type :: rest => do
    let rows ← (backend.scan [type.code]).mapError .backend
    let first ← (ofRows policy rows).mapError .history
    let others ← ofTypes policy backend rest
    return first.add others

/-- A pass over all rows of a backend. -/
def ofBackend (policy : Policy) (backend : Storage.Backend) : Except StoreError Sweep :=
  ofTypes policy backend EntityType.all

def removed (sweep : Sweep) : Nat := sweep.expired.length

def batch (sweep : Sweep) : Storage.Batch := sweep.expired.map .delete

end Sweep

namespace Store

def policyAt (store : Store) (now : Millis) : Sweep.Policy :=
  ⟨now, store.settings.retentionMillis⟩

/-- Prepares a pass as if the clock read `now`. -/
def prepareSweep (now : Millis) : Action (Prepared Sweep) := do
  let sweep ← Action.inspect fun store => Sweep.ofBackend (store.policyAt now) store.backend
  if sweep.expired.isEmpty then
    modify tidy
    return .settled sweep
  else return .pending ⟨sweep.batch, none, none, true, sweep⟩

/-- Prepares a pass at the time of the clock, unless the store is closed. -/
def prepareCollect : Action (Prepared Sweep) := do
  Action.inspect ensureOpen
  prepareSweep (← get).clock

def sweepAt (now : Millis) : Action Sweep := complete (prepareSweep now)

def collect : Action Sweep := complete prepareCollect

end Store

end VersionedCatalog
