import VersionedCatalog.Locks

/-! # What the locks exclude

A plan locks its targets exclusively and every path above them (`LockPlan.get?_eq_true_iff`,
`LockPlan.contains_iff`). So the locks of some targets are granted only if none of these is on the
way to a target of a grant that is held, nor the other way round (`Locks.acquire_eq_ok`), and what
is held at one time lies apart.
-/

namespace VersionedCatalog

/-- Two sets of paths of which none is on the way to one of the other set. -/
def AreApart (paths others : List Path) : Prop :=
  ∀ path ∈ paths, ∀ other ∈ others, ¬ path <+: other ∧ ¬ other <+: path

theorem AreApart.symm {paths others : List Path} (hApart : AreApart paths others) :
    AreApart others paths := fun other hOther path hPath =>
  ⟨(hApart path hPath other hOther).2, (hApart path hPath other hOther).1⟩

namespace LockPlan

theorem mem_above_iff {path other : Path} :
    other ∈ above path ↔ other <+: path ∧ other ≠ path := by
  induction path generalizing other with
  | nil => simp [above]
  | cons part rest ih =>
    rw [above, List.mem_cons, List.mem_map]
    constructor
    · rintro (rfl | ⟨shorter, hMem, rfl⟩)
      · exact ⟨List.nil_prefix, by simp⟩
      · obtain ⟨hPrefix, hNe⟩ := ih.mp hMem
        exact ⟨(List.prefix_cons_inj part).mpr hPrefix, fun hEq => hNe (List.cons.inj hEq).2⟩
    · rintro ⟨hPrefix, hNe⟩
      cases other with
      | nil => exact Or.inl rfl
      | cons first shorter =>
        obtain ⟨rfl, hRest⟩ := List.cons_prefix_cons.mp hPrefix
        exact Or.inr ⟨shorter, ih.mpr ⟨hRest, fun hEq => hNe (by rw [hEq])⟩, rfl⟩

theorem contains_iff_ne_none {plan : LockPlan} {path : Path} :
    plan.contains path = true ↔ plan.get? path ≠ none := by
  rw [OrderedMap.contains, Option.isSome_iff_ne_none]

theorem get?_addShared (plan : LockPlan) (path other : Path) :
    (plan.addShared path).get? other =
      if other = path ∧ plan.get? path = none then some false else plan.get? other := by
  rw [addShared]
  split
  next hHas =>
    rw [contains_iff_ne_none] at hHas
    rw [if_neg fun hBoth => hHas hBoth.2]
  next hNot =>
    rw [contains_iff_ne_none, Decidable.not_not] at hNot
    rw [OrderedMap.get?_insert]
    simp only [hNot, and_true]

theorem get?_foldl_addShared (paths : List Path) (plan : LockPlan) (other : Path) :
    (paths.foldl addShared plan).get? other =
      if other ∈ paths ∧ plan.get? other = none then some false else plan.get? other := by
  induction paths generalizing plan with
  | nil => simp
  | cons path rest ih =>
    rw [List.foldl_cons, ih, get?_addShared]
    by_cases hEq : other = path
    · subst hEq
      cases hHere : plan.get? other <;> simp
    · simp [hEq]

/-- A target is locked exclusively, a path above it at least shared. -/
theorem get?_addTarget (plan : LockPlan) (target other : Path) :
    (plan.addTarget target).get? other =
      if other = target then some true
      else if other <+: target ∧ plan.get? other = none then some false else plan.get? other := by
  rw [addTarget, OrderedMap.get?_insert]
  split
  next => rfl
  next hNe =>
    rw [get?_foldl_addShared]
    simp [mem_above_iff, hNe]

theorem get?_foldl_addTarget (targets : List Path) (plan : LockPlan) (path : Path) :
    ((targets.foldl addTarget plan).get? path = some true ↔
      path ∈ targets ∨ plan.get? path = some true) ∧
    ((targets.foldl addTarget plan).get? path ≠ none ↔
      (∃ target ∈ targets, path <+: target) ∨ plan.get? path ≠ none) := by
  induction targets generalizing plan with
  | nil => simp
  | cons target rest ih =>
    obtain ⟨hExclusive, hAny⟩ := ih (plan.addTarget target)
    rw [List.foldl_cons, hExclusive, hAny, get?_addTarget]
    by_cases hEq : path = target
    · simp [hEq]
    · by_cases hShared : path <+: target ∧ plan.get? path = none
      · simp [hEq, hShared]
      · rw [if_neg hEq, if_neg hShared]
        constructor
        · simp [hEq]
        · have hPrefix : path <+: target → plan.get? path ≠ none := fun hOn hNone =>
            hShared ⟨hOn, hNone⟩
          constructor
          · rintro (⟨other, hMem, hOn⟩ | hSome)
            · exact Or.inl ⟨other, List.mem_cons_of_mem _ hMem, hOn⟩
            · exact Or.inr hSome
          · rintro (⟨other, hMem, hOn⟩ | hSome)
            · rcases List.mem_cons.mp hMem with rfl | hMem
              · exact Or.inr (hPrefix hOn)
              · exact Or.inl ⟨other, hMem, hOn⟩
            · exact Or.inr hSome

variable {targets : List Path} {path : Path}

theorem get?_eq_true_iff : (ofTargets targets).get? path = some true ↔ path ∈ targets := by
  have hFold := (get?_foldl_addTarget targets ∅ path).1
  rw [OrderedMap.get?_empty] at hFold
  rw [ofTargets]
  simpa using hFold

theorem contains_iff :
    (ofTargets targets).contains path = true ↔ ∃ target ∈ targets, path <+: target := by
  have hFold := (get?_foldl_addTarget targets ∅ path).2
  rw [OrderedMap.get?_empty] at hFold
  rw [contains_iff_ne_none, ofTargets]
  simpa using hFold

end LockPlan

namespace Locks

variable {locks after : Locks} {targets : List Path}

theorem acquire_eq (locks : Locks) (targets : List Path) :
    locks.acquire targets =
      match (LockPlan.ofTargets targets).entries.find? fun lock => locks.isBlocked lock.1 lock.2 with
      | some blocked =>
        (.error ⟨blocked.1, locks.timeout⟩, locks.track (LockPlan.ofTargets targets))
      | none =>
        let grant : Grant := ⟨locks.nextTicket, .ofTargets targets⟩
        (.ok grant, { locks.track (LockPlan.ofTargets targets) with
          grants := grant :: locks.grants
          nextTicket := locks.nextTicket + 1 }) := rfl

theorem not_isBlocked_of_acquire {grant : Grant}
    (hOk : locks.acquire targets = (.ok grant, after)) {path : Path} {exclusive : Bool}
    (hLock : (LockPlan.ofTargets targets).get? path = some exclusive) :
    locks.isBlocked path exclusive = false := by
  rw [acquire_eq] at hOk
  split at hOk
  next => cases hOk
  next hNone =>
    have hMem := (OrderedMap.get?_eq_some_iff _ path exclusive).mp hLock
    simpa using List.find?_eq_none.mp hNone (path, exclusive) hMem

/-- Locks that are granted lie apart from those of every grant that is held. -/
theorem acquire_eq_ok {grant : Grant} (hOk : locks.acquire targets = (.ok grant, after)) :
    grant = ⟨locks.nextTicket, .ofTargets targets⟩ ∧ after.grants = grant :: locks.grants ∧
      after.nextTicket = locks.nextTicket + 1 ∧
      ∀ held ∈ locks.grants, ∀ others, held.plan = .ofTargets others →
        AreApart targets others := by
  have hBlocked := @not_isBlocked_of_acquire locks after targets grant hOk
  have hState : grant = ⟨locks.nextTicket, .ofTargets targets⟩ ∧
      after.grants = grant :: locks.grants ∧ after.nextTicket = locks.nextTicket + 1 := by
    rw [acquire_eq] at hOk
    split at hOk
    next => cases hOk
    next => cases hOk; exact ⟨rfl, rfl, rfl⟩
  refine ⟨hState.1, hState.2.1, hState.2.2, fun held hHeld others hPlan => ?_⟩
  intro target hTarget other hOther
  have hFree := hBlocked (LockPlan.get?_eq_true_iff.mpr hTarget)
  have hNotHeld : ¬ target <+: other := fun hPrefix => by
    have hIn : held.plan.contains target = true := by
      rw [hPlan]
      exact LockPlan.contains_iff.mpr ⟨other, hOther, hPrefix⟩
    have hAny : locks.holds target = true := List.any_eq_true.mpr ⟨held, hHeld, hIn⟩
    rw [isBlocked, if_pos rfl, hAny] at hFree
    cases hFree
  refine ⟨hNotHeld, fun hPrefix => ?_⟩
  -- the other target is in the plan, and so it would have to be free of exclusive locks at least
  have hIn := LockPlan.contains_iff_ne_none.mp
    (LockPlan.contains_iff.mpr ⟨target, hTarget, hPrefix⟩)
  obtain ⟨exclusive, hLock⟩ := Option.ne_none_iff_exists'.mp hIn
  have hHeldOther : held.plan.get? other = some true := by
    rw [hPlan]
    exact LockPlan.get?_eq_true_iff.mpr hOther
  have hOtherFree := hBlocked hLock
  cases exclusive with
  | true =>
    have hAny : locks.holds other = true := by
      refine List.any_eq_true.mpr ⟨held, hHeld, ?_⟩
      rw [OrderedMap.contains, hHeldOther]
      rfl
    rw [isBlocked, if_pos rfl, hAny] at hOtherFree
    cases hOtherFree
  | false =>
    have hAny : locks.holdsExclusively other = true :=
      List.any_eq_true.mpr ⟨held, hHeld, decide_eq_true hHeldOther⟩
    rw [isBlocked, if_neg (by decide), hAny] at hOtherFree
    cases hOtherFree

/-- Whether locks are granted now. -/
def AreFree (locks : Locks) (targets : List Path) : Prop := (locks.acquire targets).1.isOk = true

instance (locks : Locks) (targets : List Path) : Decidable (locks.AreFree targets) :=
  inferInstanceAs (Decidable (_ = _))

theorem AreFree.exists_acquire (hFree : locks.AreFree targets) :
    ∃ grant after, locks.acquire targets = (.ok grant, after) := by
  unfold AreFree at hFree
  generalize locks.acquire targets = acquired at hFree ⊢
  obtain ⟨granted, after⟩ := acquired
  cases granted with
  | error timeout => cases hFree
  | ok grant => exact ⟨grant, after, rfl⟩

/-- Where nothing is held every lock is granted. -/
theorem areFree_of_idle (hGrants : locks.grants = []) (targets : List Path) :
    locks.AreFree targets := by
  have hFree : ∀ path exclusive, locks.isBlocked path exclusive = false := fun path exclusive => by
    rw [isBlocked, holds, holdsExclusively, hGrants]
    exact ite_self _
  have hNone : ((LockPlan.ofTargets targets).entries.find?
      fun lock => locks.isBlocked lock.1 lock.2) = none :=
    List.find?_eq_none.mpr fun lock _ => by rw [hFree]; exact Bool.false_ne_true
  rw [AreFree, acquire_eq, hNone]
  rfl

theorem acquire_eq_error {timeout : LockTimeout}
    (hError : locks.acquire targets = (.error timeout, after)) :
    after.grants = locks.grants ∧ after.nextTicket = locks.nextTicket := by
  rw [acquire_eq] at hError
  split at hError
  next => cases hError; exact ⟨rfl, rfl⟩
  next => cases hError

theorem mem_grants_release {grant : Grant} {ticket : Nat} :
    grant ∈ (locks.release ticket).grants ↔ grant ∈ locks.grants ∧ grant.ticket ≠ ticket := by
  simp [release]

/-- A ticket that nobody had gives back nothing but its own grant. -/
theorem grants_release_cons {grant : Grant} {grants : List Grant}
    (hGrants : locks.grants = grant :: grants) (hFresh : ∀ held ∈ grants, held.ticket ≠ grant.ticket) :
    (locks.release grant.ticket).grants = grants := by
  rw [release, hGrants, List.filter_cons_of_neg (by simp)]
  exact List.filter_eq_self.mpr fun held hHeld => decide_eq_true (hFresh held hHeld)

end Locks

end VersionedCatalog
