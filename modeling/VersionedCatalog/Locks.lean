import VersionedCatalog.Name
import VersionedCatalog.OrderedMap
import VersionedCatalog.Span

/-! # Locks on paths

A change locks the paths it is about exclusively and everything above them shared, the empty path at
the root included. So changes of one path, or of a path and one below it, exclude each other, and
others do not. The locks of one request are taken in the order of their paths, and if one of them is
not granted within the timeout, those already taken are given back.

A node is kept for every path that was ever asked for until pruning removes those nobody holds.
-/

namespace VersionedCatalog

abbrev Path := List String

/-- The paths that a request locks, and whether exclusively. -/
abbrev LockPlan := OrderedMap Path Bool

namespace LockPlan

/-- The paths above a path, from the root on. -/
def above : Path → List Path
  | [] => []
  | part :: rest => [] :: (above rest).map (part :: ·)

def addShared (plan : LockPlan) (path : Path) : LockPlan :=
  if plan.contains path then plan else plan.insert path false

def addTarget (plan : LockPlan) (target : Path) : LockPlan :=
  ((above target).foldl addShared plan).insert target true

def ofTargets (targets : List Path) : LockPlan := targets.foldl addTarget ∅

def exclusiveCount (plan : LockPlan) : Nat := plan.entries.countP fun lock => lock.2

end LockPlan

/-- Locks that were granted together, under the number of their ticket. -/
structure Grant where
  ticket : Nat
  plan : LockPlan
  deriving DecidableEq

structure Locks where
  nodes : OrderedMap Path Unit
  grants : List Grant
  nextTicket : Nat
  timeout : Span
  deriving DecidableEq

/-- A lock that was not granted in time. -/
structure LockTimeout where
  path : Path
  after : Span
  deriving DecidableEq

def LockTimeout.message (timeout : LockTimeout) : String :=
  s!"timed out after {timeout.after.text} waiting for lock on '{dotted timeout.path}'"

namespace Locks

def idle (timeout : Span) : Locks := ⟨∅, [], 0, timeout⟩

def holds (locks : Locks) (path : Path) : Bool :=
  locks.grants.any fun grant => grant.plan.contains path

def holdsExclusively (locks : Locks) (path : Path) : Bool :=
  locks.grants.any fun grant => grant.plan.get? path = some true

def isBlocked (locks : Locks) (path : Path) (exclusive : Bool) : Bool :=
  if exclusive then locks.holds path else locks.holdsExclusively path

def track (locks : Locks) (plan : LockPlan) : Locks :=
  { locks with nodes := plan.keys.foldl (fun nodes path => nodes.insert path ()) locks.nodes }

/-- Grants the locks of some targets, unless one of them is held in a way that excludes it. -/
def acquire (locks : Locks) (targets : List Path) : Except LockTimeout Grant × Locks :=
  let plan := LockPlan.ofTargets targets
  let locks := locks.track plan
  match plan.entries.find? fun lock => locks.isBlocked lock.1 lock.2 with
  | some blocked => (.error ⟨blocked.1, locks.timeout⟩, locks)
  | none =>
    let grant : Grant := ⟨locks.nextTicket, plan⟩
    (.ok grant, { locks with grants := grant :: locks.grants, nextTicket := locks.nextTicket + 1 })

def release (locks : Locks) (ticket : Nat) : Locks :=
  { locks with grants := locks.grants.filter fun grant => grant.ticket ≠ ticket }

/-- Forgets the nodes that nobody holds. -/
def prune (locks : Locks) : Locks :=
  { locks with nodes := locks.nodes.filter fun path _ => locks.holds path }

def nodeCount (locks : Locks) : Nat := locks.nodes.size

end Locks

end VersionedCatalog
