import VersionedCatalog.Proofs.NodeLocks
import VersionedCatalog.Store.Error

/-! # Histories of locks

One thread locks targets, gives locks back and prunes, in any order. A table of nodes then answers
as the locks do that only know who was granted what (`LockTable.Shows.follow`). So the answers can
be told from the guards that are held (`LockTable.Serves`): a lock is granted exactly if its targets
lie apart from those of every guard, whatever was refused or pruned before
(`LockTable.serves_after`).
-/

namespace VersionedCatalog

/-- What a grant says of paths: its ticket, and the paths in the order in which they are locked. -/
def Grant.form (grant : Grant) : Nat × List (Path × Bool) := (grant.ticket, grant.plan.entries)

def NodeLock.form (lock : NodeLock) : Path × Bool := (lock.path, lock.exclusive)

def NodeGrant.form (grant : NodeGrant) : Nat × List (Path × Bool) :=
  (grant.ticket, grant.held.reverse.map (·.form))

namespace LockTable

/-- Whether the table leads to a node for the path of a lock. -/
def LeadsTo (table : LockTable) (lock : NodeLock) : Prop :=
  table.nodes.get? lock.path = some lock.node

/-- A table whose nodes are those that some locks make of their paths. -/
structure Shows (table : LockTable) (locks : Locks) : Prop where
  paths : ∀ path, table.nodes.contains path = locks.nodes.contains path
  known : ∀ path node, table.nodes.get? path = some node → node < table.nextNode
  apart : ∀ path other node, table.nodes.get? path = some node →
    table.nodes.get? other = some node → path = other
  states : ∀ path node, table.nodes.get? path = some node →
    table.states node = Locks.nodeOf locks.grants path
  grants : table.grants.map (·.form) = locks.grants.map (·.form)
  held : ∀ grant ∈ table.grants, ∀ lock ∈ grant.held, table.LeadsTo lock
  nextTicket : table.nextTicket = locks.nextTicket
  timeout : table.timeout = locks.timeout

theorem shows_idle (timeout : Span) : (idle timeout).Shows (.idle timeout) :=
  ⟨fun _ => rfl, nofun, nofun, nofun, rfl, nofun, rfl, rfl⟩

/-- Two forms of one grant have the same paths. -/
theorem get?_of_form {held : NodeGrant} {grant : Grant} (hForm : held.form = grant.form)
    {path : Path} {exclusive : Bool} : grant.plan.get? path = some exclusive ↔
      ∃ lock ∈ held.held, lock.path = path ∧ lock.exclusive = exclusive := by
  have hPlan : held.held.reverse.map (·.form) = grant.plan.entries := (Prod.mk.inj hForm).2
  rw [OrderedMap.get?_eq_some_iff, ← hPlan, List.mem_map]
  simp only [List.mem_reverse, NodeLock.form, Prod.mk.injEq]

/-- Nodes that are reached for the paths of a plan are different. -/
theorem nodup_of_reached {table : LockTable} {locks : List NodeLock} {plan : LockPlan}
    (hApart : ∀ path other node, table.nodes.get? path = some node →
      table.nodes.get? other = some node → path = other)
    (hPlan : locks.map (·.form) = plan.entries) (hReached : ∀ lock ∈ locks, table.LeadsTo lock) :
    (locks.map (·.node)).Nodup := by
  have hAscending := plan.ascending
  rw [← hPlan, List.pairwise_map] at hAscending
  refine List.pairwise_map.mpr (hAscending.imp_of_mem fun {a b} hA hB hLess hSame => ?_)
  have hEq : a.path = b.path := hApart _ _ b.node (hSame ▸ hReached a hA) (hReached b hB)
  have hLater : a.path < b.path := hLess
  rw [hEq] at hLater
  exact StrictLinear.lt_irrefl _ hLater

namespace Shows

variable {table : LockTable} {locks : Locks} (hShows : table.Shows locks)
include hShows

theorem exists_held {grant : Grant} (hGrant : grant ∈ locks.grants) :
    ∃ held ∈ table.grants, held.form = grant.form := by
  have hForm : grant.form ∈ table.grants.map (·.form) :=
    hShows.grants ▸ List.mem_map.mpr ⟨grant, hGrant, rfl⟩
  exact List.mem_map.mp hForm

/-- Nobody has a path that the table does not know. -/
theorem free_of_unknown {path : Path} (hNone : table.nodes.get? path = none) :
    ∀ grant ∈ locks.grants, grant.plan.get? path = none := by
  intro grant hGrant
  refine Option.eq_none_iff_forall_ne_some.mpr fun exclusive hPlan => ?_
  obtain ⟨held, hHeld, hForm⟩ := hShows.exists_held hGrant
  obtain ⟨lock, hLock, rfl, _⟩ := (get?_of_form hForm).mp hPlan
  have hReached := hShows.held held hHeld lock hLock
  rw [LeadsTo, hNone] at hReached
  cases hReached

/-! ### Reaching nodes -/

/-- A table that knows one path more and otherwise leads to the same nodes. -/
theorem insert {path : Path} (hNone : table.nodes.get? path = none) :
    ({ table with
      nodes := table.nodes.insert path table.nextNode
      states := setNode table.states table.nextNode .free
      nextNode := table.nextNode + 1 } : LockTable).Shows
        { locks with nodes := locks.nodes.insert path () } := by
  have hCases : ∀ {other : Path} {node : Nat},
      (table.nodes.insert path table.nextNode).get? other = some node →
        (other = path ∧ node = table.nextNode) ∨
          (table.nodes.get? other = some node ∧ node < table.nextNode) := by
    intro other node hSome
    rw [OrderedMap.get?_insert] at hSome
    split at hSome
    next hEq => cases hSome; exact Or.inl ⟨hEq, rfl⟩
    next => exact Or.inr ⟨hSome, hShows.known other node hSome⟩
  refine ⟨fun other => ?_, fun other node hSome => ?_, fun a b node hA hB => ?_,
    fun other node hSome => ?_, hShows.grants, fun grant hGrant lock hLock => ?_,
    hShows.nextTicket, hShows.timeout⟩
  · have hOld := hShows.paths other
    simp only [OrderedMap.contains, OrderedMap.get?_insert] at hOld ⊢
    split
    next => rfl
    next => exact hOld
  · rcases hCases hSome with ⟨_, rfl⟩ | ⟨_, hLess⟩
    · exact Nat.lt_succ_self _
    · exact Nat.lt_succ_of_lt hLess
  · rcases hCases hA with ⟨rfl, hNode⟩ | ⟨hFoundA, hLessA⟩ <;>
      rcases hCases hB with ⟨rfl, hSame⟩ | ⟨hFoundB, hLessB⟩
    · rfl
    · omega
    · omega
    · exact hShows.apart a b node hFoundA hFoundB
  · rcases hCases hSome with ⟨rfl, rfl⟩ | ⟨hKnown, hLess⟩
    · exact (setNode_self ..).trans (Locks.nodeOf_of_free (hShows.free_of_unknown hNone)).symm
    · exact (setNode_of_ne (Nat.ne_of_lt hLess) ..).trans (hShows.states other node hKnown)
  · have hReached := hShows.held grant hGrant lock hLock
    have hOther : lock.path ≠ path := fun hEq => by
      rw [LeadsTo, hEq, hNone] at hReached
      cases hReached
    exact (OrderedMap.get?_insert ..).trans ((if_neg hOther).trans hReached)

/-- A path that is asked for has a node then, and no other path gets another one. -/
theorem reach (path : Path) :
    (table.reach path).2.Shows { locks with nodes := locks.nodes.insert path () } ∧
      (table.reach path).2.nodes.get? path = some (table.reach path).1 ∧
      ∀ lock, table.LeadsTo lock → (table.reach path).2.LeadsTo lock := by
  rw [LockTable.reach]
  cases hFound : table.nodes.get? path with
  | some number =>
    refine ⟨⟨fun other => ?_, hShows.known, hShows.apart, hShows.states, hShows.grants,
      hShows.held, hShows.nextTicket, hShows.timeout⟩, hFound, fun _ => id⟩
    have hOld := hShows.paths other
    simp only [OrderedMap.contains, OrderedMap.get?_insert] at hOld ⊢
    by_cases hEq : other = path
    · rw [if_pos hEq, hEq, hFound]
      rfl
    · rw [if_neg hEq, hOld]
  | none =>
    refine ⟨hShows.insert hFound, (OrderedMap.get?_insert ..).trans (if_pos rfl), ?_⟩
    intro lock hLeads
    have hOther : lock.path ≠ path := fun hEq => by
      rw [LeadsTo, hEq, hFound] at hLeads
      cases hLeads
    exact (OrderedMap.get?_insert ..).trans ((if_neg hOther).trans hLeads)

end Shows

theorem reachAll_shows (entries : List (Path × Bool)) {table : LockTable} {locks : Locks}
    (hShows : table.Shows locks) :
    (reachAll entries table).2.Shows { locks with
      nodes := (entries.map (·.1)).foldl (fun nodes path => nodes.insert path ()) locks.nodes } ∧
      (reachAll entries table).1.map (·.form) = entries ∧
      (∀ lock ∈ (reachAll entries table).1, (reachAll entries table).2.LeadsTo lock) ∧
      ∀ lock, table.LeadsTo lock → (reachAll entries table).2.LeadsTo lock := by
  induction entries generalizing table locks with
  | nil => exact ⟨hShows, rfl, nofun, fun _ => id⟩
  | cons entry rest ih =>
    obtain ⟨path, exclusive⟩ := entry
    obtain ⟨hReached, hNode, hMore⟩ := hShows.reach path
    obtain ⟨hRest, hForms, hLeads, hKept⟩ := ih hReached
    refine ⟨hRest, congrArg ((path, exclusive) :: ·) hForms, ?_, fun lock hLock =>
      hKept lock (hMore lock hLock)⟩
    exact List.forall_mem_cons.mpr ⟨hKept ⟨path, _, exclusive⟩ hNode, hLeads⟩

/-! ### The same answers -/

namespace Shows

variable {table : LockTable} {locks : Locks} (hShows : table.Shows locks)
include hShows

/-- A lock cannot be had exactly if its path is blocked. -/
theorem take?_eq_none_iff {lock : NodeLock} (hLeads : table.LeadsTo lock) :
    (table.states lock.node).take? lock.exclusive = none ↔
      locks.isBlocked lock.path lock.exclusive = true := by
  rw [hShows.states _ _ hLeads]
  exact locks.take?_nodeOf_eq_none_iff _ _

/-- A path that leads to a node is one of a grant exactly if the grant has a lock on the node. -/
theorem lock_cases {held : NodeGrant} {grant : Grant} (hForm : held.form = grant.form)
    (hLeads : ∀ lock ∈ held.held, table.LeadsTo lock) {path : Path} {node : Nat}
    (hNode : table.nodes.get? path = some node) :
    (∃ lock ∈ held.held, lock.node = node ∧ grant.plan.get? path = some lock.exclusive) ∨
      (grant.plan.get? path = none ∧ node ∉ held.held.map (·.node)) := by
  cases hPlan : grant.plan.get? path with
  | some exclusive =>
    obtain ⟨lock, hLock, rfl, rfl⟩ := (get?_of_form hForm).mp hPlan
    exact Or.inl ⟨lock, hLock, Option.some.inj ((hLeads lock hLock).symm.trans hNode), rfl⟩
  | none =>
    refine Or.inr ⟨rfl, fun hMem => ?_⟩
    obtain ⟨lock, hLock, rfl⟩ := List.mem_map.mp hMem
    have hPath := hShows.apart _ _ _ (hLeads lock hLock) hNode
    rw [(get?_of_form hForm).mpr ⟨lock, hLock, hPath, rfl⟩] at hPlan
    cases hPlan

/-- Once a grant that fits has taken its nodes, the table shows the locks with this grant. -/
theorem grant {taken : List NodeLock} {grant : Grant}
    (hFits : ∀ other ∈ locks.grants, grant.Fits other)
    (hForms : taken.map (·.form) = grant.plan.entries) (hLeads : ∀ lock ∈ taken, table.LeadsTo lock)
    {left : Nat → Node}
    (hTaken : ∀ lock ∈ taken,
      (table.states lock.node).take? lock.exclusive = some (left lock.node))
    (hKept : ∀ node, node ∉ taken.map (·.node) → left node = table.states node) {next : Nat} :
    ({ table with
      states := left
      grants := ⟨grant.ticket, taken.reverse⟩ :: table.grants
      nextTicket := next } : LockTable).Shows
        { locks with grants := grant :: locks.grants, nextTicket := next } := by
  have hForm : NodeGrant.form ⟨grant.ticket, taken.reverse⟩ = grant.form := by
    rw [NodeGrant.form, Grant.form, List.reverse_reverse, hForms]
  have hHeld : ∀ lock ∈ taken.reverse, table.LeadsTo lock := fun lock hLock =>
    hLeads lock (List.mem_reverse.mp hLock)
  refine ⟨hShows.paths, hShows.known, hShows.apart, fun path node hNode => ?_, ?_,
    List.forall_mem_cons.mpr ⟨hHeld, hShows.held⟩, rfl, hShows.timeout⟩
  · have hOld := hShows.states path node hNode
    rcases hShows.lock_cases hForm hHeld hNode with ⟨lock, hLock, rfl, hPlan⟩ | ⟨hPlan, hNot⟩
    · have hTake := hTaken lock (List.mem_reverse.mp hLock)
      rw [hOld, Locks.take?_nodeOf hFits hPlan] at hTake
      exact (Option.some.inj hTake).symm
    · rw [Locks.nodeOf_cons_of_not_mem hPlan, ← hOld]
      exact hKept node (by simpa using hNot)
  · rw [List.map_cons, List.map_cons, hForm, hShows.grants]

theorem acquire (targets : List Path) :
    (table.acquire targets).1.map (·.form) = (locks.acquire targets).1.map (·.form) ∧
      (table.acquire targets).2.Shows (locks.acquire targets).2 := by
  obtain ⟨hTracked, hForms, hLeads, _⟩ :=
    reachAll_shows (LockPlan.ofTargets targets).entries hShows
  have hAcquire := locks.acquire_eq targets
  rw [LockTable.acquire]
  generalize reachAll (LockPlan.ofTargets targets).entries table = reached at *
  obtain ⟨taken, reached⟩ := reached
  have hNodup := nodup_of_reached hTracked.apart hForms hLeads
  have hOutcome := @outcome_takeAll taken hNodup reached.states
    (fun lock => locks.isBlocked lock.path lock.exclusive)
    (fun lock hLock => hTracked.take?_eq_none_iff (hLeads lock hLock)) []
  have hFind : (LockPlan.ofTargets targets).entries.find? (fun lock =>
      locks.isBlocked lock.1 lock.2) = (taken.find? fun lock =>
        locks.isBlocked lock.path lock.exclusive).map (·.form) := by
    rw [← hForms, List.find?_map]
    rfl
  rw [hFind] at hAcquire
  simp only
  generalize hTake : takeAll taken reached.states [] = attempt at hOutcome
  obtain ⟨outcome, left⟩ := attempt
  cases hBlocked : taken.find? fun lock => locks.isBlocked lock.path lock.exclusive with
  | some blocked =>
    rw [hBlocked] at hAcquire hOutcome
    cases hOutcome
    have hLeft : left = reached.states := states_of_takeAll_error hTake
    have hTimeout : reached.timeout = locks.timeout := hTracked.timeout
    rw [hAcquire, hLeft]
    refine ⟨?_, hTracked⟩
    simp only [Except.map, Option.map_some, hTimeout]
    rfl
  | none =>
    rw [hBlocked] at hAcquire hOutcome
    rw [List.append_nil] at hOutcome
    cases hOutcome
    obtain ⟨hTaken, hKept⟩ := states_of_takeAll_ok hNodup hTake
    have hFits := Locks.fits_of_acquire hAcquire
    have hTicket : reached.nextTicket = locks.nextTicket := hTracked.nextTicket
    rw [hAcquire]
    simp only [Option.map_none, hTicket]
    refine ⟨?_, hTracked.grant hFits hForms hLeads hTaken hKept⟩
    simp only [Except.map, NodeGrant.form, Grant.form, List.reverse_reverse]
    rw [hForms]

theorem forms_filter (p : Nat → Bool) :
    (table.grants.filter fun grant => p grant.ticket).map (·.form) =
      (locks.grants.filter fun grant => p grant.ticket).map (·.form) := by
  have hForms := congrArg (List.filter fun form => p form.1) hShows.grants
  rwa [List.filter_map, List.filter_map] at hForms

/-- What is given back no longer counts. -/
theorem release (hOrderly : locks.IsOrderly) (ticket : Nat) :
    (table.release ticket).Shows (locks.release ticket) := by
  have hPerm := locks.grants_release_perm ticket
  have hReturned := hShows.forms_filter fun other => other = ticket
  refine ⟨hShows.paths, hShows.known, hShows.apart, fun path node hNode => ?_,
    hShows.forms_filter fun other => other ≠ ticket,
    fun grant hGrant => hShows.held grant (List.mem_filter.mp hGrant).1, hShows.nextTicket,
    hShows.timeout⟩
  have hOld := (hShows.states path node hNode).trans (Locks.nodeOf_perm hPerm.symm path)
  rw [LockTable.release]
  rcases hOrderly.returned ticket with hNone | ⟨grant, hOne, hFits⟩
  · rw [hNone] at hReturned hOld
    rw [List.map_eq_nil_iff.mp hReturned]
    exact hOld
  · rw [hOne] at hReturned hOld
    obtain ⟨held, hHeld, hForm⟩ := List.map_eq_singleton_iff.mp hReturned
    have hMem : held ∈ table.grants := by
      have hIn : held ∈ table.grants.filter fun grant => grant.ticket = ticket :=
        hHeld ▸ List.mem_singleton.mpr rfl
      exact (List.mem_filter.mp hIn).1
    have hLeads := hShows.held held hMem
    have hNodup : (held.held.map (·.node)).Nodup := by
      have hReversed := nodup_of_reached hShows.apart (Prod.mk.inj hForm).2
        fun lock hLock => hLeads lock (List.mem_reverse.mp hLock)
      rwa [List.map_reverse, List.nodup_reverse] at hReversed
    obtain ⟨hGiven, hOthers⟩ := giveAll_eq hNodup table.states
    simp only [hHeld, List.flatMap_singleton]
    rcases hShows.lock_cases hForm hLeads hNode with ⟨lock, hLock, rfl, hPlan⟩ | ⟨hPlan, hNot⟩
    · rw [hGiven lock hLock, hOld]
      exact Node.give_of_take? (Locks.take?_nodeOf hFits hPlan)
    · rw [hOthers node hNot, hOld]
      exact Locks.nodeOf_cons_of_not_mem hPlan _

/-- A node is kept alive exactly if a grant has its path. -/
theorem isHeld_iff {path : Path} {node : Nat} (hNode : table.nodes.get? path = some node) :
    table.isHeld node = true ↔ locks.holds path = true := by
  simp only [isHeld, Locks.holds, List.any_eq_true, decide_eq_true_eq]
  constructor
  · rintro ⟨held, hHeld, lock, hLock, rfl⟩
    have hForm : held.form ∈ locks.grants.map (·.form) :=
      hShows.grants ▸ List.mem_map.mpr ⟨held, hHeld, rfl⟩
    obtain ⟨grant, hGrant, hSame⟩ := List.mem_map.mp hForm
    have hPath := hShows.apart _ _ _ (hShows.held held hHeld lock hLock) hNode
    have hPlan := (get?_of_form hSame.symm).mpr ⟨lock, hLock, hPath, rfl⟩
    exact ⟨grant, hGrant, by rw [OrderedMap.contains, hPlan]; rfl⟩
  · rintro ⟨grant, hGrant, hHas⟩
    obtain ⟨exclusive, hPlan⟩ := Option.isSome_iff_exists.mp hHas
    obtain ⟨held, hHeld, hForm⟩ := hShows.exists_held hGrant
    obtain ⟨lock, hLock, rfl, _⟩ := (get?_of_form hForm).mp hPlan
    have hSame := (hShows.held held hHeld lock hLock).symm.trans hNode
    exact ⟨held, hHeld, lock, hLock, Option.some.inj hSame⟩

/-- The table forgets the paths that nobody has. -/
theorem prune : table.prune.Shows locks.prune := by
  have hKnown : ∀ {path : Path} {node : Nat}, table.prune.nodes.get? path = some node →
      table.nodes.get? path = some node := fun hSome => by
    rw [LockTable.prune, OrderedMap.get?_filter] at hSome
    exact (Option.filter_eq_some_iff.mp hSome).1
  refine ⟨fun path => ?_, fun path node hNode => hShows.known path node (hKnown hNode),
    fun a b node hA hB => hShows.apart a b node (hKnown hA) (hKnown hB),
    fun path node hNode => hShows.states path node (hKnown hNode), hShows.grants,
    fun grant hGrant lock hLock => ?_, hShows.nextTicket, hShows.timeout⟩
  · have hOld := hShows.paths path
    simp only [OrderedMap.contains, LockTable.prune, Locks.prune, OrderedMap.get?_filter] at hOld ⊢
    cases hNode : table.nodes.get? path with
    | none =>
      rw [hNode] at hOld
      have hUnknown : locks.nodes.get? path = none :=
        Option.not_isSome_iff_eq_none.mp (by rw [← hOld]; decide)
      rw [hUnknown]
      rfl
    | some node =>
      rw [hNode] at hOld
      obtain ⟨found, hFound⟩ := Option.isSome_iff_exists.mp hOld.symm
      rw [hFound, Option.isSome_filter, Option.isSome_filter]
      simp only [Option.any_some]
      exact Bool.eq_iff_iff.mpr (hShows.isHeld_iff hNode)
  · have hReached := hShows.held grant hGrant lock hLock
    have hHeld : table.isHeld lock.node = true :=
      List.any_eq_true.mpr ⟨grant, hGrant, List.any_eq_true.mpr ⟨lock, hLock, decide_eq_true rfl⟩⟩
    rw [LeadsTo, LockTable.prune, OrderedMap.get?_filter, hReached, Option.filter_some_pos hHeld]

theorem nodeCount_eq : table.nodeCount = locks.nodeCount := by
  have hKeys : ∀ {ν : Type} (m : OrderedMap Path ν), m.keys.Nodup := fun m => by
    refine List.pairwise_map.mpr (m.ascending.imp fun {a b} hLess hSame => ?_)
    rw [hSame] at hLess
    exact StrictLinear.lt_irrefl _ hLess
  have hMem : ∀ {ν : Type} (m : OrderedMap Path ν) (path : Path),
      path ∈ m.keys ↔ m.contains path = true := fun m path => by
    rw [OrderedMap.contains, Option.isSome_iff_exists, OrderedMap.keys, List.mem_map]
    simp only [OrderedMap.get?_eq_some_iff, Prod.exists, exists_and_right, exists_eq_right]
  have hPerm : table.nodes.keys.Perm locks.nodes.keys := by
    refine (List.perm_ext_iff_of_nodup (hKeys _) (hKeys _)).mpr fun path => ?_
    rw [hMem, hMem, hShows.paths path]
  have hLength := hPerm.length_eq
  rwa [OrderedMap.keys, OrderedMap.keys, List.length_map, List.length_map] at hLength

end Shows

end LockTable

/-! ### Calls and answers -/

/-- What one thread asks for. A lock that is blocked times out, as nobody else gives it back. -/
inductive LockCall
  | lock (targets : List Path)
  | release (ticket : Nat)
  | prune
  deriving DecidableEq

inductive LockAnswer
  | granted (ticket : Nat) (locks : List (Path × Bool))
  | refused (timeout : LockTimeout)
  | released
  | pruned (count : Nat)
  deriving DecidableEq

namespace LockAnswer

def ofOutcome : Except LockTimeout (Nat × List (Path × Bool)) → LockAnswer
  | .ok (ticket, locks) => .granted ticket locks
  | .error timeout => .refused timeout

/-- Whether an answer is to the call of a lock. -/
def isDecision : LockAnswer → Bool
  | .granted _ _ => true
  | .refused _ => true
  | _ => false

end LockAnswer

/-- A guard that somebody holds: its ticket, and the targets that were asked for. -/
structure LockGuard where
  ticket : Nat
  targets : List Path
  deriving DecidableEq

def LockGuard.grant (guard : LockGuard) : Grant := ⟨guard.ticket, .ofTargets guard.targets⟩

/-- The guards that are held after a call. -/
def LockCall.carry (call : LockCall) (answer : LockAnswer) (guards : List LockGuard) :
    List LockGuard :=
  match call, answer with
  | .lock targets, .granted ticket _ => ⟨ticket, targets⟩ :: guards
  | .release ticket, _ => guards.filter fun guard => guard.ticket ≠ ticket
  | _, _ => guards

/-- The guards that are held after some calls that were answered. -/
def LockGuard.after : List LockCall → List LockAnswer → List LockGuard → List LockGuard
  | call :: calls, answer :: answers, guards => after calls answers (call.carry answer guards)
  | _, _, guards => guards

namespace LockTable

def answer (table : LockTable) : LockCall → LockAnswer × LockTable
  | .lock targets =>
    let (outcome, after) := table.acquire targets
    (.ofOutcome (outcome.map (·.form)), after)
  | .release ticket => (.released, table.release ticket)
  | .prune => (.pruned (table.nodeCount - table.prune.nodeCount), table.prune)

def follow : List LockCall → LockTable → List LockAnswer × LockTable
  | [], table => ([], table)
  | call :: rest, table =>
    let (first, after) := table.answer call
    let (others, last) := follow rest after
    (first :: others, last)

/-- The answers to the calls of locks among some calls. -/
def decisions (table : LockTable) (calls : List LockCall) : List LockAnswer :=
  (follow calls table).1.filter LockAnswer.isDecision

end LockTable

namespace Locks

def answer (locks : Locks) : LockCall → LockAnswer × Locks
  | .lock targets =>
    let (outcome, after) := locks.acquire targets
    (.ofOutcome (outcome.map (·.form)), after)
  | .release ticket => (.released, locks.release ticket)
  | .prune => (.pruned (locks.nodeCount - locks.prune.nodeCount), locks.prune)

def follow : List LockCall → Locks → List LockAnswer × Locks
  | [], locks => ([], locks)
  | call :: rest, locks =>
    let (first, after) := locks.answer call
    let (others, last) := follow rest after
    (first :: others, last)

variable {locks : Locks} {guards : List LockGuard}

theorem IsOrderly.answer (hOrderly : locks.IsOrderly) (call : LockCall) :
    (locks.answer call).2.IsOrderly := by
  cases call with
  | lock targets => exact hOrderly.acquire rfl
  | release ticket => exact hOrderly.release ticket
  | prune => exact ⟨hOrderly.fits, hOrderly.tickets, hOrderly.numbered⟩

/-! ### What guards tell of locks -/

theorem holds_iff_of_guards (hGuards : locks.grants = guards.map (·.grant)) {path : Path} :
    locks.holds path = true ↔ ∃ guard ∈ guards, ∃ target ∈ guard.targets, path <+: target := by
  rw [holds, hGuards, List.any_map, List.any_eq_true]
  exact exists_congr fun guard => and_congr_right fun _ => LockPlan.contains_iff

theorem holdsExclusively_iff_of_guards (hGuards : locks.grants = guards.map (·.grant))
    {path : Path} :
    locks.holdsExclusively path = true ↔ ∃ guard ∈ guards, path ∈ guard.targets := by
  rw [holdsExclusively, hGuards, List.any_map, List.any_eq_true]
  refine exists_congr fun guard => and_congr_right fun _ => ?_
  exact decide_eq_true_iff.trans LockPlan.get?_eq_true_iff

/-- What is blocked for some targets are paths on which one of them meets one of a guard. -/
theorem not_isBlocked_iff_of_guards (hGuards : locks.grants = guards.map (·.grant))
    (targets : List Path) :
    (∀ path exclusive, (LockPlan.ofTargets targets).get? path = some exclusive →
        locks.isBlocked path exclusive = false) ↔
      ∀ guard ∈ guards, AreApart targets guard.targets := by
  constructor
  · intro hOpen guard hGuard target hTarget other hOther
    constructor
    · intro hPrefix
      have hFree : locks.holds target = false :=
        hOpen target true (LockPlan.get?_eq_true_iff.mpr hTarget)
      rw [(holds_iff_of_guards hGuards).mpr ⟨guard, hGuard, other, hOther, hPrefix⟩] at hFree
      cases hFree
    · intro hPrefix
      have hIn := LockPlan.contains_iff.mpr ⟨target, hTarget, hPrefix⟩
      obtain ⟨exclusive, hLock⟩ := Option.isSome_iff_exists.mp hIn
      have hFree := hOpen other exclusive hLock
      have hAlone := (holdsExclusively_iff_of_guards hGuards).mpr ⟨guard, hGuard, hOther⟩
      have hHolds := (holds_iff_of_guards hGuards).mpr
        ⟨guard, hGuard, other, hOther, List.prefix_rfl⟩
      cases exclusive <;> simp [isBlocked, hAlone, hHolds] at hFree
  · intro hApart path exclusive hLock
    cases exclusive with
    | true =>
      refine Bool.eq_false_iff.mpr fun hHolds => ?_
      obtain ⟨guard, hGuard, other, hOther, hPrefix⟩ := (holds_iff_of_guards hGuards).mp hHolds
      have hTarget := LockPlan.get?_eq_true_iff.mp hLock
      exact (hApart guard hGuard path hTarget other hOther).1 hPrefix
    | false =>
      refine Bool.eq_false_iff.mpr fun hAlone => ?_
      obtain ⟨guard, hGuard, hOther⟩ := (holdsExclusively_iff_of_guards hGuards).mp hAlone
      have hIn : (LockPlan.ofTargets targets).contains path = true := by
        rw [OrderedMap.contains, hLock]
        rfl
      obtain ⟨target, hTarget, hPrefix⟩ := LockPlan.contains_iff.mp hIn
      exact (hApart guard hGuard target hTarget path hOther).2 hPrefix

/-- The locks of some targets are granted exactly if these lie apart from those of all guards. -/
theorem acquire_of_guards (hGuards : locks.grants = guards.map (·.grant)) (targets : List Path) :
    ((∀ guard ∈ guards, AreApart targets guard.targets) ∧
      locks.acquire targets = (.ok ⟨locks.nextTicket, .ofTargets targets⟩,
        { locks.track (.ofTargets targets) with
          grants := ⟨locks.nextTicket, .ofTargets targets⟩ :: locks.grants
          nextTicket := locks.nextTicket + 1 })) ∨
    ((¬ ∀ guard ∈ guards, AreApart targets guard.targets) ∧
      ∃ timeout, locks.acquire targets = (.error timeout, locks.track (.ofTargets targets))) := by
  rw [← not_isBlocked_iff_of_guards hGuards, acquire_eq]
  cases hFind : (LockPlan.ofTargets targets).entries.find? fun lock =>
      locks.isBlocked lock.1 lock.2 with
  | none =>
    refine Or.inl ⟨fun path exclusive hLock => ?_, rfl⟩
    have hNot := List.find?_eq_none.mp hFind (path, exclusive)
      ((OrderedMap.get?_eq_some_iff ..).mp hLock)
    exact Bool.eq_false_iff.mpr hNot
  | some lock =>
    refine Or.inr ⟨fun hOpen => ?_, _, rfl⟩
    have hFree := hOpen lock.1 lock.2
      ((OrderedMap.get?_eq_some_iff ..).mpr (List.mem_of_find?_eq_some hFind))
    rw [List.find?_some hFind] at hFree
    cases hFree

/-- Guards tell who was granted what, from one call to the next. -/
theorem grants_answer (hGuards : locks.grants = guards.map (·.grant)) (call : LockCall) :
    (locks.answer call).2.grants = (call.carry (locks.answer call).1 guards).map (·.grant) := by
  cases call with
  | lock targets =>
    rw [answer]
    rcases acquire_of_guards hGuards targets with ⟨_, hGranted⟩ | ⟨_, timeout, hRefused⟩
    · rw [hGranted, hGuards]
      rfl
    · rw [hRefused]
      exact hGuards
  | release ticket =>
    simp only [answer, release, LockCall.carry, hGuards, List.filter_map]
    rfl
  | prune => exact hGuards

theorem grants_follow (calls : List LockCall) {locks : Locks} {guards : List LockGuard}
    (hGuards : locks.grants = guards.map (·.grant)) :
    (follow calls locks).2.grants =
      (LockGuard.after calls (follow calls locks).1 guards).map (·.grant) := by
  induction calls generalizing locks guards with
  | nil => exact hGuards
  | cons call rest ih => exact ih (grants_answer hGuards call)

/-- No decision depends on the nodes that are known. -/
theorem decisions_nodes (calls : List LockCall) (locks : Locks) (nodes : OrderedMap Path Unit) :
    (follow calls { locks with nodes }).1.filter LockAnswer.isDecision =
      (follow calls locks).1.filter LockAnswer.isDecision := by
  induction calls generalizing locks nodes with
  | nil => rfl
  | cons call rest ih =>
    cases call with
    | lock targets =>
      have hBoth := acquire_eq locks targets
      have hOther := acquire_eq { locks with nodes } targets
      have hSame : ∀ path exclusive,
          ({ locks with nodes } : Locks).isBlocked path exclusive = locks.isBlocked path exclusive :=
        fun _ _ => rfl
      simp only [hSame] at hOther
      simp only [follow, answer, hBoth, hOther]
      cases (LockPlan.ofTargets targets).entries.find? fun lock =>
          locks.isBlocked lock.1 lock.2 with
      | some lock => exact congrArg (_ :: ·) (ih (locks.track _) _)
      | none => exact congrArg (_ :: ·) (ih { locks.track _ with grants := _, nextTicket := _ } _)
    | release ticket => exact ih (locks.release ticket) nodes
    | prune => exact (ih locks _).trans (ih locks _).symm

end Locks

/-! ### Whole histories -/

namespace LockTable

namespace Shows

variable {table : LockTable} {locks : Locks}

theorem answer (hShows : table.Shows locks) (hOrderly : locks.IsOrderly) (call : LockCall) :
    (table.answer call).1 = (locks.answer call).1 ∧
      (table.answer call).2.Shows (locks.answer call).2 := by
  cases call with
  | lock targets =>
    obtain ⟨hSame, hAfter⟩ := hShows.acquire targets
    exact ⟨congrArg LockAnswer.ofOutcome hSame, hAfter⟩
  | release ticket => exact ⟨rfl, hShows.release hOrderly ticket⟩
  | prune =>
    refine ⟨?_, hShows.prune⟩
    rw [LockTable.answer, Locks.answer, hShows.nodeCount_eq, hShows.prune.nodeCount_eq]

/-- A table of nodes gives the answers of the locks that it shows, call by call. -/
theorem follow (calls : List LockCall) {table : LockTable} {locks : Locks}
    (hShows : table.Shows locks) (hOrderly : locks.IsOrderly) :
    (LockTable.follow calls table).1 = (Locks.follow calls locks).1 ∧
      (LockTable.follow calls table).2.Shows (Locks.follow calls locks).2 ∧
        (Locks.follow calls locks).2.IsOrderly := by
  induction calls generalizing table locks with
  | nil => exact ⟨rfl, hShows, hOrderly⟩
  | cons call rest ih =>
    obtain ⟨hFirst, hAfter⟩ := hShows.answer hOrderly call
    obtain ⟨hOthers, hLast⟩ := ih hAfter (hOrderly.answer call)
    exact ⟨congr (congrArg List.cons hFirst) hOthers, hLast⟩

theorem decisions (hShows : table.Shows locks) (hOrderly : locks.IsOrderly)
    (calls : List LockCall) :
    table.decisions calls = (Locks.follow calls locks).1.filter LockAnswer.isDecision :=
  congrArg (List.filter LockAnswer.isDecision) (hShows.follow calls hOrderly).1

end Shows

/-- Whether some locks are those of targets: each target alone, and all that is above one shared. -/
def AreOf (targets : List Path) (locks : List (Path × Bool)) : Prop :=
  ∀ path, ((path, true) ∈ locks ↔ path ∈ targets) ∧
    ((path, false) ∈ locks ↔ path ∉ targets ∧ ∃ target ∈ targets, path <+: target)

/-- A table of locks while some guards are held. -/
structure Serves (table : LockTable) (guards : List LockGuard) : Prop where
  granted_iff : ∀ targets,
    (∃ ticket locks, (table.answer (.lock targets)).1 = .granted ticket locks) ↔
      ∀ guard ∈ guards, AreApart targets guard.targets
  granted : ∀ targets ticket locks, (table.answer (.lock targets)).1 = .granted ticket locks →
    AreOf targets locks
  held : List.Forall₂ (fun grant guard => grant.ticket = guard.ticket ∧
    AreOf guard.targets (grant.held.map (·.form))) table.grants guards
  refused : ∀ targets timeout, (table.answer (.lock targets)).1 = .refused timeout →
    (StoreError.timeout timeout).toClass = .conflict ∧
      (table.answer (.lock targets)).2.grants = table.grants ∧
      (∀ path node, table.nodes.get? path = some node →
        (table.answer (.lock targets)).2.nodes.get? path = some node ∧
          (table.answer (.lock targets)).2.states node = table.states node) ∧
      ∀ calls, (table.answer (.lock targets)).2.decisions calls = table.decisions calls
  decided : ∀ targets, (table.answer (.lock targets)).1.isDecision = true
  pruned : (∀ path node, table.prune.nodes.get? path = some node ↔
      table.nodes.get? path = some node ∧
        ∃ guard ∈ guards, ∃ target ∈ guard.targets, path <+: target) ∧
    table.prune.grants = table.grants ∧ table.prune.states = table.states ∧
      ∀ calls, table.prune.decisions calls = table.decisions calls

/-- Reaching nodes makes new ones at most. -/
theorem reachAll_grants (entries : List (Path × Bool)) (table : LockTable) :
    (reachAll entries table).2.grants = table.grants := by
  induction entries generalizing table with
  | nil => rfl
  | cons entry rest ih =>
    have hReach : (table.reach entry.1).2.grants = table.grants := by
      unfold reach
      split <;> rfl
    exact (ih _).trans hReach

/-- A lock that is refused leaves every grant as it is, and every node behind its path. -/
theorem Shows.refused {table : LockTable} {locks : Locks} (hShows : table.Shows locks)
    {targets : List Path} {timeout : LockTimeout}
    (hRefused : (table.answer (.lock targets)).1 = .refused timeout) :
    (table.answer (.lock targets)).2.grants = table.grants ∧
      ∀ path node, table.nodes.get? path = some node →
        (table.answer (.lock targets)).2.nodes.get? path = some node := by
  obtain ⟨_, _, _, hKept⟩ := reachAll_shows (LockPlan.ofTargets targets).entries hShows
  have hGrants := reachAll_grants (LockPlan.ofTargets targets).entries table
  rw [LockTable.answer, LockTable.acquire] at hRefused ⊢
  generalize reachAll (LockPlan.ofTargets targets).entries table = reached at *
  simp only at hRefused ⊢
  split at hRefused
  next => exact ⟨hGrants, fun path node hNode => hKept ⟨path, node, true⟩ hNode⟩
  next => cases hRefused

theorem areOf_ofTargets (targets : List Path) :
    AreOf targets (LockPlan.ofTargets targets).entries := by
  intro path
  have hAlone := @LockPlan.get?_eq_true_iff targets path
  have hAny := @LockPlan.contains_iff targets path
  rw [← hAny, ← hAlone, ← OrderedMap.get?_eq_some_iff, ← OrderedMap.get?_eq_some_iff,
    OrderedMap.contains]
  refine ⟨Iff.rfl, ?_⟩
  cases (LockPlan.ofTargets targets).get? path with
  | none => simp
  | some exclusive => cases exclusive <;> simp

variable {table : LockTable} {locks : Locks} {guards : List LockGuard}

theorem Shows.serves (hShows : table.Shows locks) (hOrderly : locks.IsOrderly)
    (hGuards : locks.grants = guards.map (·.grant)) : table.Serves guards := by
  have hDecided : ∀ targets, ((∀ guard ∈ guards, AreApart targets guard.targets) ∧
      (table.answer (.lock targets)).1 =
        .granted locks.nextTicket (LockPlan.ofTargets targets).entries) ∨
      ((¬ ∀ guard ∈ guards, AreApart targets guard.targets) ∧ ∃ timeout,
        (table.answer (.lock targets)).1 = .refused timeout ∧
          (locks.answer (.lock targets)).2 = locks.track (.ofTargets targets)) := fun targets => by
    have hSame := (hShows.answer hOrderly (.lock targets)).1
    rw [Locks.answer] at hSame ⊢
    rcases Locks.acquire_of_guards hGuards targets with ⟨hApart, hGranted⟩ |
      ⟨hNot, timeout, hRefused⟩
    · rw [hGranted] at hSame
      exact Or.inl ⟨hApart, hSame⟩
    · rw [hRefused] at hSame ⊢
      exact Or.inr ⟨hNot, timeout, hSame, rfl⟩
  refine ⟨fun targets => ?_, fun targets ticket taken hGranted => ?_, ?_,
    fun targets timeout hRefused => ?_, fun targets => ?_, fun path node => ?_, rfl, rfl, ?_⟩
  · rcases hDecided targets with ⟨hApart, hAnswer⟩ | ⟨hNot, timeout, hAnswer, _⟩
    · exact ⟨fun _ => hApart, fun _ => ⟨_, _, hAnswer⟩⟩
    · refine ⟨fun ⟨ticket, taken, hGranted⟩ => ?_, fun hApart => absurd hApart hNot⟩
      rw [hAnswer] at hGranted
      cases hGranted
  · rcases hDecided targets with ⟨_, hAnswer⟩ | ⟨_, timeout, hAnswer, _⟩ <;>
      rw [hAnswer] at hGranted <;> cases hGranted
    exact areOf_ofTargets targets
  · have hForms := hShows.grants
    rw [hGuards, List.map_map, ← List.forall₂_eq_eq_eq, List.forall₂_map_left_iff,
      List.forall₂_map_right_iff] at hForms
    refine hForms.imp fun grant guard hForm => ⟨(Prod.mk.inj hForm).1, ?_⟩
    have hHeld : grant.held.reverse.map (·.form) = (LockPlan.ofTargets guard.targets).entries :=
      (Prod.mk.inj hForm).2
    intro path
    have hPath := areOf_ofTargets guard.targets path
    rwa [← hHeld, List.map_reverse, List.mem_reverse, List.mem_reverse] at hPath
  · rcases hDecided targets with ⟨_, hAnswer⟩ | ⟨_, _, _, hLocks⟩
    · rw [hAnswer] at hRefused
      cases hRefused
    · obtain ⟨_, hAfter⟩ := hShows.answer hOrderly (.lock targets)
      obtain ⟨hGrants, hKept⟩ := hShows.refused hRefused
      refine ⟨rfl, hGrants, fun path node hNode => ⟨hKept path node hNode, ?_⟩, fun calls => ?_⟩
      · rw [hAfter.states path node (hKept path node hNode), hShows.states path node hNode, hLocks]
        rfl
      · rw [hAfter.decisions (hOrderly.answer _) calls, hShows.decisions hOrderly calls, hLocks]
        exact locks.decisions_nodes calls _
  · rcases hDecided targets with ⟨_, hAnswer⟩ | ⟨_, timeout, hAnswer, _⟩ <;> rw [hAnswer] <;> rfl
  · rw [LockTable.prune, OrderedMap.get?_filter, Option.filter_eq_some_iff]
    refine and_congr_right fun hNode => ?_
    rw [hShows.isHeld_iff hNode, Locks.holds_iff_of_guards hGuards]
  · intro calls
    rw [hShows.prune.decisions (hOrderly.answer .prune) calls, hShows.decisions hOrderly calls]
    exact locks.decisions_nodes calls _

/-- After any calls of one thread, the answers of a table are told by the guards that are held, and
they have been those of the locks that know nothing but grants. -/
theorem serves_after (timeout : Span) (calls : List LockCall) :
    (follow calls (idle timeout)).2.Serves
        (LockGuard.after calls (follow calls (idle timeout)).1 []) ∧
      (follow calls (idle timeout)).1 = (Locks.follow calls (.idle timeout)).1 ∧
      (follow calls (idle timeout)).2.Shows (Locks.follow calls (.idle timeout)).2 := by
  obtain ⟨hSame, hShows, hOrderly⟩ :=
    (shows_idle timeout).follow calls (Locks.isOrderly_idle timeout)
  have hGuards : (Locks.follow calls (.idle timeout)).2.grants =
      (LockGuard.after calls (Locks.follow calls (.idle timeout)).1 []).map (·.grant) :=
    Locks.grants_follow calls rfl
  rw [← hSame] at hGuards
  exact ⟨hShows.serves hOrderly hGuards, hSame, hShows⟩

end LockTable

end VersionedCatalog
