import VersionedCatalog.Locks

/-! # Locks as nodes of a table

Behind every path that was asked for there is a node, which one may have alone or any number may
share. A request finds or makes the nodes of all its paths and then takes them one by one, in the
order of the paths; if one cannot be had, those taken before are given back, the last one first. A
node lives as long as the table leads to it or a grant has it. Pruning makes the table forget the
nodes that no grant has, so a path may lead to another node later.

`Locks` tells from the grants alone what this table tells from its nodes.
-/

namespace VersionedCatalog

/-- What a node is to others: shared by some, or taken by one. Nobody has a node that none share. -/
inductive Node
  | shared (readers : Nat)
  | exclusive
  deriving DecidableEq

namespace Node

def free : Node := .shared 0

/-- The node once it is taken, unless who has it excludes that. -/
def take? : Node → Bool → Option Node
  | .shared 0, true => some .exclusive
  | .shared readers, false => some (.shared (readers + 1))
  | _, _ => none

def give : Node → Bool → Node
  | .exclusive, true => free
  | .shared readers, false => .shared (readers - 1)
  | node, _ => node

end Node

/-- A lock of a path on the node that was behind it. -/
structure NodeLock where
  path : Path
  node : Nat
  exclusive : Bool
  deriving DecidableEq

/-- Locks that were granted together, the one that was taken last first. -/
structure NodeGrant where
  ticket : Nat
  held : List NodeLock
  deriving DecidableEq

/-- Nodes have numbers, which are given out once. -/
structure LockTable where
  nodes : OrderedMap Path Nat
  states : Nat → Node
  nextNode : Nat
  grants : List NodeGrant
  nextTicket : Nat
  timeout : Span

namespace LockTable

def idle (timeout : Span) : LockTable := ⟨∅, fun _ => .free, 0, [], 0, timeout⟩

def setNode (states : Nat → Node) (number : Nat) (node : Node) : Nat → Node :=
  fun other => if other = number then node else states other

/-- The node behind a path, which is made if there is none. -/
def reach (table : LockTable) (path : Path) : Nat × LockTable :=
  match table.nodes.get? path with
  | some node => (node, table)
  | none => (table.nextNode, { table with
      nodes := table.nodes.insert path table.nextNode
      states := setNode table.states table.nextNode .free
      nextNode := table.nextNode + 1 })

def reachAll : List (Path × Bool) → LockTable → List NodeLock × LockTable
  | [], table => ([], table)
  | (path, exclusive) :: rest, table =>
    let (node, reached) := table.reach path
    let (others, left) := reachAll rest reached
    (⟨path, node, exclusive⟩ :: others, left)

def give (states : Nat → Node) (lock : NodeLock) : Nat → Node :=
  setNode states lock.node ((states lock.node).give lock.exclusive)

def giveAll (states : Nat → Node) (held : List NodeLock) : Nat → Node := held.foldl give states

/-- Takes nodes one by one, or gives back what was taken and tells for which path it failed. -/
def takeAll : List NodeLock → (Nat → Node) → List NodeLock →
    Except Path (List NodeLock) × (Nat → Node)
  | [], states, held => (.ok held, states)
  | lock :: rest, states, held =>
    match (states lock.node).take? lock.exclusive with
    | some node => takeAll rest (setNode states lock.node node) (lock :: held)
    | none => (.error lock.path, giveAll states held)

def acquire (table : LockTable) (targets : List Path) : Except LockTimeout NodeGrant × LockTable :=
  let (locks, reached) := reachAll (LockPlan.ofTargets targets).entries table
  match takeAll locks reached.states [] with
  | (.error path, states) => (.error ⟨path, reached.timeout⟩, { reached with states })
  | (.ok held, states) =>
    let grant : NodeGrant := ⟨reached.nextTicket, held⟩
    (.ok grant, { reached with
      states, grants := grant :: reached.grants, nextTicket := reached.nextTicket + 1 })

def release (table : LockTable) (ticket : Nat) : LockTable :=
  let returned := table.grants.filter fun grant => grant.ticket = ticket
  { table with
    states := giveAll table.states (returned.flatMap (·.held))
    grants := table.grants.filter fun grant => grant.ticket ≠ ticket }

/-- Whether a grant keeps a node alive. -/
def isHeld (table : LockTable) (node : Nat) : Bool :=
  table.grants.any fun grant => grant.held.any fun lock => lock.node = node

def prune (table : LockTable) : LockTable :=
  { table with nodes := table.nodes.filter fun _ node => table.isHeld node }

def nodeCount (table : LockTable) : Nat := table.nodes.size

end LockTable

end VersionedCatalog
