import VersionedCatalog.Locks.Nodes
import VersionedCatalog.Proofs.Locking
import VersionedCatalog.Proofs.Plans

/-! # Nodes tell what grants tell

A node is in the state that the grants make of its path (`Locks.nodeOf`): a grant takes it when the
grant is added and gives it back when the grant is gone. A table shows some locks (`LockTable.Shows`)
if this holds of every node that it leads to, and if it still leads to the nodes that grants have.
Then both answer alike (`Shows.acquire`, `Shows.release`, `Shows.prune`), although a table reads and
writes nothing but nodes.
-/

namespace VersionedCatalog

/-! ### One node -/

namespace Node

/-- Giving back what was taken leaves a node as it was. -/
theorem give_of_take? {node taken : Node} {exclusive : Bool}
    (hTake : node.take? exclusive = some taken) : taken.give exclusive = node := by
  cases node with
  | exclusive => cases exclusive <;> cases hTake
  | shared readers =>
    cases exclusive with
    | false => cases readers <;> cases hTake <;> rfl
    | true => cases readers <;> cases hTake; rfl

end Node

/-- Two grants of which neither has alone what the other one has too. -/
def Grant.Fits (a b : Grant) : Prop :=
  ∀ path, (a.plan.get? path = some true → b.plan.get? path = none) ∧
    (b.plan.get? path = some true → a.plan.get? path = none)

theorem Grant.Fits.symm {a b : Grant} (hFits : a.Fits b) : b.Fits a := fun path =>
  ⟨(hFits path).2, (hFits path).1⟩

namespace Locks

/-- The node that some grants make of a path. -/
def nodeOf (grants : List Grant) (path : Path) : Node :=
  if grants.any fun grant => grant.plan.get? path = some true then .exclusive
  else .shared (grants.countP fun grant => grant.plan.contains path)

theorem nodeOf_perm {grants others : List Grant} (hPerm : grants.Perm others) (path : Path) :
    nodeOf grants path = nodeOf others path := by
  rw [nodeOf, nodeOf, hPerm.any_eq, hPerm.countP_eq]

theorem nodeOf_of_free {grants : List Grant} {path : Path}
    (hFree : ∀ grant ∈ grants, grant.plan.get? path = none) : nodeOf grants path = .free := by
  have hNobody : (grants.any fun grant => grant.plan.get? path = some true) = false := by
    refine List.any_eq_false.mpr fun grant hGrant => ?_
    simp [hFree grant hGrant]
  have hNone : (grants.countP fun grant => grant.plan.contains path) = 0 := by
    refine List.countP_eq_zero.mpr fun grant hGrant => ?_
    simp [OrderedMap.contains, hFree grant hGrant]
  rw [nodeOf, hNobody, hNone]
  rfl

theorem nodeOf_cons_of_not_mem {grant : Grant} {path : Path} (hNone : grant.plan.get? path = none)
    (grants : List Grant) : nodeOf (grant :: grants) path = nodeOf grants path := by
  have hNot : ¬ grant.plan.contains path = true := by simp [OrderedMap.contains, hNone]
  rw [nodeOf, nodeOf, List.any_cons, List.countP_cons, if_neg hNot]
  simp [hNone]

/-- A grant that fits the others takes the nodes of its paths. -/
theorem take?_nodeOf {grant : Grant} {grants : List Grant}
    (hFits : ∀ other ∈ grants, grant.Fits other) {path : Path} {exclusive : Bool}
    (hLock : grant.plan.get? path = some exclusive) :
    (nodeOf grants path).take? exclusive = some (nodeOf (grant :: grants) path) := by
  cases exclusive with
  | true =>
    rw [nodeOf_of_free fun other hOther => (hFits other hOther path).1 hLock, nodeOf, List.any_cons]
    simp [hLock, Node.free, Node.take?]
  | false =>
    have hNobody : (grants.any fun other => other.plan.get? path = some true) = false := by
      refine List.any_eq_false.mpr fun other hOther hAlone => ?_
      have hNone := (hFits other hOther path).2 (of_decide_eq_true hAlone)
      rw [hLock] at hNone
      cases hNone
    have hHas : grant.plan.contains path = true := by simp [OrderedMap.contains, hLock]
    rw [nodeOf, nodeOf, List.any_cons, hNobody, List.countP_cons, if_pos hHas]
    simp [hLock, Node.take?]

/-- A node cannot be taken exactly if the grants block its path. -/
theorem take?_nodeOf_eq_none_iff (locks : Locks) (path : Path) (exclusive : Bool) :
    (nodeOf locks.grants path).take? exclusive = none ↔ locks.isBlocked path exclusive = true := by
  have hNode : nodeOf locks.grants path = if locks.holdsExclusively path then .exclusive
      else .shared (locks.grants.countP fun grant => grant.plan.contains path) := rfl
  rw [hNode, isBlocked]
  by_cases hAlone : locks.holdsExclusively path = true
  · have hHolds : locks.holds path = true := by
      obtain ⟨grant, hGrant, hLock⟩ := List.any_eq_true.mp hAlone
      refine List.any_eq_true.mpr ⟨grant, hGrant, ?_⟩
      rw [OrderedMap.contains, of_decide_eq_true hLock]
      rfl
    rw [if_pos hAlone]
    cases exclusive <;> simp [Node.take?, hAlone, hHolds]
  · rw [if_neg hAlone]
    cases exclusive with
    | false => simp [Node.take?, hAlone]
    | true =>
      have hCount : locks.holds path = true ↔
          0 < locks.grants.countP fun grant => grant.plan.contains path := by
        rw [List.countP_pos_iff, holds, List.any_eq_true]
      rw [if_pos rfl, hCount]
      cases locks.grants.countP fun grant => grant.plan.contains path <;> simp [Node.take?]

/-- What holds of locks that are only acquired, released and pruned. -/
structure IsOrderly (locks : Locks) : Prop where
  fits : locks.grants.Pairwise Grant.Fits
  tickets : locks.grants.Pairwise fun a b => a.ticket ≠ b.ticket
  numbered : locks.AreNumbered

theorem isOrderly_idle (timeout : Span) : (idle timeout).IsOrderly :=
  ⟨.nil, .nil, areNumbered_of_idle rfl⟩

variable {locks after : Locks} {targets : List Path}

theorem fits_of_acquire {grant : Grant} (hOk : locks.acquire targets = (.ok grant, after)) :
    ∀ other ∈ locks.grants, grant.Fits other := by
  obtain ⟨rfl, _⟩ := acquire_eq_ok hOk
  intro other hOther path
  have hOpen : ∀ {exclusive : Bool}, (LockPlan.ofTargets targets).get? path = some exclusive →
      locks.isBlocked path exclusive = false := fun hLock => not_isBlocked_of_acquire hOk hLock
  constructor
  · intro hAlone
    have hFree : locks.holds path = false := hOpen hAlone
    have hNot := List.any_eq_false.mp hFree other hOther
    simpa [OrderedMap.contains] using hNot
  · intro hAlone
    refine Option.eq_none_iff_forall_ne_some.mpr fun exclusive hLock => ?_
    have hOthers : locks.holdsExclusively path = true :=
      List.any_eq_true.mpr ⟨other, hOther, decide_eq_true hAlone⟩
    have hHolds : locks.holds path = true := by
      refine List.any_eq_true.mpr ⟨other, hOther, ?_⟩
      rw [OrderedMap.contains, hAlone]
      rfl
    have hFree := hOpen hLock
    cases exclusive <;> simp [isBlocked, hOthers, hHolds] at hFree

theorem IsOrderly.acquire (hOrderly : locks.IsOrderly) {granted : Except LockTimeout Grant}
    (hAcquire : locks.acquire targets = (granted, after)) : after.IsOrderly := by
  have hNumbered := hOrderly.numbered.acquire hAcquire
  cases granted with
  | error timeout =>
    obtain ⟨hGrants, _⟩ := acquire_eq_error hAcquire
    exact ⟨hGrants ▸ hOrderly.fits, hGrants ▸ hOrderly.tickets, hNumbered⟩
  | ok grant =>
    obtain ⟨hGrant, hGrants, _⟩ := acquire_eq_ok hAcquire
    refine ⟨?_, ?_, hNumbered⟩ <;> rw [hGrants] <;> refine List.pairwise_cons.mpr ⟨?_, ?_⟩
    · exact fits_of_acquire hAcquire
    · exact hOrderly.fits
    · intro other hOther hSame
      have hLess := hOrderly.numbered other hOther
      rw [← hSame, hGrant] at hLess
      exact Nat.lt_irrefl _ hLess
    · exact hOrderly.tickets

theorem IsOrderly.release (hOrderly : locks.IsOrderly) (ticket : Nat) :
    (locks.release ticket).IsOrderly :=
  ⟨hOrderly.fits.filter _, hOrderly.tickets.filter _, hOrderly.numbered.release ticket⟩

theorem grants_release_perm (locks : Locks) (ticket : Nat) :
    ((locks.grants.filter fun grant => grant.ticket = ticket) ++
      (locks.release ticket).grants).Perm locks.grants := by
  have hSplit := List.filter_append_perm (fun grant : Grant => decide (grant.ticket = ticket))
    locks.grants
  simpa [release] using hSplit

/-- A ticket belongs to one grant at most. -/
theorem IsOrderly.returned (hOrderly : locks.IsOrderly) (ticket : Nat) :
    (locks.grants.filter fun grant => grant.ticket = ticket) = [] ∨
      ∃ grant, (locks.grants.filter fun grant => grant.ticket = ticket) = [grant] ∧
        ∀ other ∈ (locks.release ticket).grants, grant.Fits other := by
  have hAll : ∀ grant ∈ locks.grants.filter fun grant => grant.ticket = ticket,
      grant.ticket = ticket := fun grant hMem => of_decide_eq_true (List.mem_filter.mp hMem).2
  have hDistinct := hOrderly.tickets.filter fun grant => decide (grant.ticket = ticket)
  have hFits := ((grants_release_perm locks ticket).pairwise_iff
    fun hFits => Grant.Fits.symm hFits).mpr hOrderly.fits
  generalize (locks.grants.filter fun grant => grant.ticket = ticket) = returned at *
  match returned with
  | [] => exact Or.inl rfl
  | [grant] => exact Or.inr ⟨grant, rfl, (List.pairwise_cons.mp hFits).1⟩
  | first :: second :: rest =>
    have hNe := (List.pairwise_cons.mp hDistinct).1 second List.mem_cons_self
    exact absurd ((hAll first List.mem_cons_self).trans
      (hAll second (List.mem_cons_of_mem _ List.mem_cons_self)).symm) hNe

end Locks

/-! ### Taking nodes -/

namespace LockTable

theorem setNode_self (states : Nat → Node) (number : Nat) (node : Node) :
    setNode states number node number = node := if_pos rfl

theorem setNode_of_ne {number other : Nat} (hNe : other ≠ number) (states : Nat → Node)
    (node : Node) : setNode states number node other = states other := if_neg hNe

theorem ne_of_fresh {lock other : NodeLock} {rest : List NodeLock}
    (hFresh : lock.node ∉ rest.map (·.node)) (hOther : other ∈ rest) : other.node ≠ lock.node :=
  fun hEq => hFresh (List.mem_map.mpr ⟨other, hOther, hEq⟩)

/-- Taking a node and giving it back changes nothing. -/
theorem give_setNode {states : Nat → Node} {lock : NodeLock} {node : Node}
    (hTake : (states lock.node).take? lock.exclusive = some node) :
    give (setNode states lock.node node) lock = states := by
  funext other
  rw [give, setNode_self, Node.give_of_take? hTake]
  by_cases hEq : other = lock.node
  · rw [hEq, setNode_self]
  · rw [setNode_of_ne hEq, setNode_of_ne hEq]

/-- Where one node cannot be had, all that were taken are given back. -/
theorem states_of_takeAll_error {locks : List NodeLock} {states left : Nat → Node}
    {held : List NodeLock} {path : Path}
    (hTake : takeAll locks states held = (.error path, left)) : left = giveAll states held := by
  induction locks generalizing states held with
  | nil => cases hTake
  | cons lock rest ih =>
    rw [takeAll] at hTake
    cases hNode : (states lock.node).take? lock.exclusive with
    | none => rw [hNode] at hTake; cases hTake; rfl
    | some node =>
      rw [hNode] at hTake
      rw [ih hTake, giveAll, List.foldl_cons, give_setNode hNode]
      rfl

/-- Of nodes that are different the first that is blocked fails, and otherwise all are held. -/
theorem outcome_takeAll {locks : List NodeLock} (hNodup : (locks.map (·.node)).Nodup)
    {states : Nat → Node} {blocked : NodeLock → Bool}
    (hBlocked : ∀ lock ∈ locks,
      (states lock.node).take? lock.exclusive = none ↔ blocked lock = true) (held : List NodeLock) :
    (takeAll locks states held).1 =
      match locks.find? blocked with
      | some lock => .error lock.path
      | none => .ok (locks.reverse ++ held) := by
  induction locks generalizing states held with
  | nil => rfl
  | cons lock rest ih =>
    obtain ⟨hFresh, hRest⟩ := List.nodup_cons.mp hNodup
    obtain ⟨hHere, hOthers⟩ := List.forall_mem_cons.mp hBlocked
    rw [takeAll, List.find?_cons]
    cases hNode : (states lock.node).take? lock.exclusive with
    | none => rw [hHere.mp hNode]
    | some node =>
      have hOpen : blocked lock = false := by
        rw [hNode] at hHere
        simpa using hHere
      have hKept : ∀ other ∈ rest, (setNode states lock.node node other.node).take?
          other.exclusive = none ↔ blocked other = true := fun other hOther => by
        rw [setNode_of_ne (ne_of_fresh hFresh hOther)]
        exact hOthers other hOther
      rw [hOpen, List.reverse_cons, List.append_assoc, List.singleton_append]
      exact ih hRest hKept (lock :: held)

/-- Once all nodes are held, each is taken and the others are as before. -/
theorem states_of_takeAll_ok {locks : List NodeLock} (hNodup : (locks.map (·.node)).Nodup)
    {states left : Nat → Node} {held taken : List NodeLock}
    (hTake : takeAll locks states held = (.ok taken, left)) :
    (∀ lock ∈ locks, (states lock.node).take? lock.exclusive = some (left lock.node)) ∧
      ∀ node, node ∉ locks.map (·.node) → left node = states node := by
  induction locks generalizing states held with
  | nil => cases hTake; exact ⟨nofun, fun _ _ => rfl⟩
  | cons lock rest ih =>
    obtain ⟨hFresh, hRest⟩ := List.nodup_cons.mp hNodup
    rw [takeAll] at hTake
    cases hNode : (states lock.node).take? lock.exclusive with
    | none => rw [hNode] at hTake; cases hTake
    | some node =>
      rw [hNode] at hTake
      obtain ⟨hTaken, hOthers⟩ := ih hRest hTake
      refine ⟨List.forall_mem_cons.mpr ⟨?_, fun other hOther => ?_⟩, fun other hOther => ?_⟩
      · rw [hOthers lock.node hFresh, setNode_self, hNode]
      · rw [← hTaken other hOther, setNode_of_ne (ne_of_fresh hFresh hOther)]
      · rw [List.map_cons, List.mem_cons, not_or] at hOther
        rw [hOthers other hOther.2, setNode_of_ne hOther.1]

/-- Nodes that are different are given back one by one. -/
theorem giveAll_eq {held : List NodeLock} (hNodup : (held.map (·.node)).Nodup)
    (states : Nat → Node) :
    (∀ lock ∈ held, giveAll states held lock.node = (states lock.node).give lock.exclusive) ∧
      ∀ node, node ∉ held.map (·.node) → giveAll states held node = states node := by
  induction held generalizing states with
  | nil => exact ⟨nofun, fun _ _ => rfl⟩
  | cons lock rest ih =>
    obtain ⟨hFresh, hRest⟩ := List.nodup_cons.mp hNodup
    obtain ⟨hGiven, hOthers⟩ := ih hRest (give states lock)
    refine ⟨List.forall_mem_cons.mpr ⟨?_, fun other hOther => ?_⟩, fun other hOther => ?_⟩
    · exact (hOthers lock.node hFresh).trans (setNode_self ..)
    · rw [← setNode_of_ne (ne_of_fresh hFresh hOther) states, ← give]
      exact hGiven other hOther
    · rw [List.map_cons, List.mem_cons, not_or] at hOther
      exact (hOthers other hOther.2).trans (setNode_of_ne hOther.1 ..)

end LockTable

end VersionedCatalog
