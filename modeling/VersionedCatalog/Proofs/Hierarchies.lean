import VersionedCatalog.Proofs.Runs
import VersionedCatalog.Store.Reading

/-! # Live entities have live parents

In the rows that a run leaves every live entity but a metalake has a live parent. So there is
nothing to list in a namespace whose entity is not live (`Store.list_of_not_live`), and a change of
name, which looks at the new name of the root alone, writes over no live entity anywhere in the
subtree (`Store.rename_eq_ok`).
-/

namespace VersionedCatalog

open Storage (Rows Backend Call)
open VersionedCatalog.Action

/-- The parent of a slot in a namespace has the path of the namespace. -/
theorem Slot.path_of_scope {parent slot : Slot} (hParent : parent.IsParentOf slot)
    {levels : List String} (hDepth : levels.length = slot.type.depth)
    (hInside : levels <+: slot.path) : parent.path = levels := by
  have hPath := hParent.path_eq
  have hAbove : parent.path <+: slot.path := ⟨_, hPath.symm⟩
  have hLength : parent.path.length = levels.length := by
    have hLonger := congrArg List.length hPath
    rw [slot.length_path, List.length_append, List.length_singleton] at hLonger
    omega
  exact (List.prefix_of_prefix_length_le hAbove hInside (Nat.le_of_eq hLength)).eq_of_length hLength

namespace Store

/-- Nothing lives in a namespace whose entity is not live. -/
theorem list_of_not_live {store : Store} (hSound : store.backend.rows.IsSound)
    (hSteady : store.IsSteady) (hOpen : store.closed = false) {scope : Namespace}
    {type : EntityType} (hType : type ≠ .metalake) (hDepth : scope.depth = type.depth)
    (hDead : ∀ owner : Slot, owner.path = scope.levels → ¬ store.backend.rows.IsLive owner) :
    store.list scope type = .ok [] := by
  have hShaped := hSound.shaped
  have hLength : scope.levels.length ≤ type.depth + 1 := by
    have hLevels : scope.levels.length = type.depth := hDepth
    omega
  obtain ⟨versions, hVersions⟩ := Catalog.exists_liveBelow hShaped type scope.levels
  rw [Backend.permit_of_open (hSteady.isOpen hOpen) hSteady.faults] at hVersions
  have hNone : versions = [] := by
    refine List.eq_nil_iff_forall_not_mem.mpr fun version hMem => ?_
    obtain ⟨slot, rfl, hInside, hNewest, hLive⟩ :=
      (Catalog.mem_liveBelow_iff hShaped hLength hVersions version).mp hMem
    obtain ⟨parent, hParent, hParentLive⟩ := hSound.isRooted slot ⟨version, hNewest, hLive⟩ hType
    exact hDead parent (Slot.path_of_scope hParent hDepth hInside) hParentLive
  have hEnsure := ensureOpen_eq_ok_iff.mpr hOpen
  simp [list, hEnsure, hDepth, Key.children, hVersions, hNone, Catalog.decodeAll]

/-- A move to a slot overwrites nothing alive: nothing at the slot or below it was live, and no slot
that is live in another version than before was live before. -/
structure Lands (before after : Rows) (target : Slot) : Prop where
  free : ∀ slot : Slot, slot = target ∨ slot.IsBelow target → ¬ before.IsLive slot
  fresh : ∀ slot : Slot, after.IsLive slot → after.newest? slot ≠ before.newest? slot →
    ¬ before.IsLive slot

/-- A change of name that succeeds moves a subtree to a slot that is not live, and the answer is what
its root is there. -/
theorem rename_moves {store after : Store} (hGrants : store.locks.grants = [])
    (hSound : store.backend.rows.IsSound) (hBefore : store.InTime) (hAfter : after.InTime)
    {type : EntityType} {name : Name} (hValid : name.IsValid) {modifier : String}
    {changes : List Change} (hMoved : targetName name changes ≠ name) {reply : Reply}
    (hRun : (Command.mutate (.alter type name modifier changes)).perform.run store =
      (.ok reply, after)) :
    ∃ source target payload moves, source.type = type ∧ source.name = name ∧
      target.name = targetName name changes ∧
      IsRelocation store.backend.rows source target payload moves ∧
      Turn.AreReady store.backend.rows after.lastStamp (Turn.moveAll payload moves) ∧
      after.backend.rows = store.backend.rows.apply
        (Turn.batch after.lastStamp (Turn.moveAll payload moves) none) ∧
      (∀ move ∈ moves, move.resident.slot = source → reply = .entity move.entity) ∧
      after.closed = store.closed := by
  have hChanges : changes ≠ [] := fun hNil => hMoved (by rw [hNil]; rfl)
  have hCompletes := Command.completes _ hGrants hRun
  generalize hOutcome : Except.ok reply = outcome at hCompletes
  cases hCompletes with
  | failed leaves => cases hOutcome
  | settled prepared leaves =>
    obtain ⟨answer, hFound, _⟩ := Mutation.settled_of_map prepared
    obtain ⟨change, hPending⟩ := (prepareAlter_eq_ok hFound).mpr hChanges
    cases hPending
  | @written change middle _ backend prepared write keeps isOpen closed grants stamp =>
    obtain ⟨found, hFound, rfl⟩ := Mutation.pending_of_map prepared
    rw [InTime, stamp] at hAfter
    obtain ⟨source, target, payload, moves, rfl, rfl, hName, hRelocation, _, hBatch, hIssues,
      hRoot⟩ := prepareAlter_moves hSound.shaped hFound hMoved
    have hReady := (@Mutation.Does.relocate _ _ _ _ _ modifier _ hRelocation hName).areReady hSound
      hIssues hBefore hAfter
    refine ⟨source, target, payload, moves, rfl, rfl, hName, hRelocation, stamp ▸ hReady, ?_,
      fun move hMove hSource => ?_, closed⟩
    · rw [keeps.rows, (Backend.write_eq_ok write).1, Pending.map, hBatch, stamp]
    · rw [hRoot move hMove hSource]
      exact Except.ok.inj hOutcome

/-- A change of name lands where nothing lives. -/
theorem rename_eq_ok {store after : Store} (hGrants : store.locks.grants = [])
    (hSound : store.backend.rows.IsSound) (hBefore : store.InTime) (hAfter : after.InTime)
    {type : EntityType} {name : Name} (hValid : name.IsValid) {modifier : String}
    {changes : List Change} (hMoved : targetName name changes ≠ name) {reply : Reply}
    (hRun : (Command.mutate (.alter type name modifier changes)).perform.run store =
      (.ok reply, after)) :
    ∃ target : Slot, target.type = type ∧ target.name = targetName name changes ∧
      Lands store.backend.rows after.backend.rows target := by
  obtain ⟨source, target, payload, moves, rfl, rfl, hName, hRelocation, hReady, hRows, _⟩ :=
    rename_moves hGrants hSound hBefore hAfter hValid hMoved hRun
  refine ⟨target, hRelocation.type, hName, fun slot hSlot => ?_, fun slot hLive hChanged => ?_⟩
  · rcases hSlot with rfl | hBelow
    · exact hRelocation.dead
    · exact hSound.not_isLive_below hBelow hRelocation.dead
  · rw [hRows] at hLive hChanged
    by_cases hWritten : slot ∈ Turn.written (Turn.moveAll payload moves)
    · obtain ⟨move, hMove, hEq⟩ := Turn.mem_written_moveAll_iff.mp hWritten
      rcases hEq with rfl | rfl
      · exact (hReady.fits _ (List.mem_map.mpr ⟨move, hMove, rfl⟩)).2.1
      · exact absurd hLive (Turn.not_isLive_source hSound.shaped hReady hMove)
    · exact absurd (hReady.newest?_other hSound.shaped hWritten) hChanged

/-- Every live entity but a metalake has a live parent, wherever a run leads. -/
theorem Reachable.live_parents {store : Store} (hReached : Reachable InTime store) :
    store.backend.rows.IsRooted ∧
    (∀ (scope : Namespace) (type : EntityType), store.closed = false → type ≠ .metalake →
      scope.depth = type.depth →
      (∀ owner : Slot, owner.path = scope.levels → ¬ store.backend.rows.IsLive owner) →
      store.list scope type = .ok []) ∧
    ∀ (type : EntityType) (name : Name) (modifier : String) (changes : List Change)
      (faults : List Call) (reply : Reply) (after : Store), name.IsValid →
      targetName name changes ≠ name →
      (Command.mutate (.alter type name modifier changes)).perform.runDuring faults store =
        (.ok reply, after) → after.InTime →
      ∃ target : Slot, target.type = type ∧ target.name = targetName name changes ∧
        Lands store.backend.rows after.backend.rows target := by
  have hSound := hReached.isSound
  have hSteady := hReached.isSteady
  refine ⟨hSound.isRooted, fun scope type hOpen hType hDepth hDead => ?_, ?_⟩
  · exact list_of_not_live hSound hSteady hOpen hType hDepth hDead
  · intro type name modifier changes faults reply after hValid hMoved hRun hAfter
    obtain ⟨left, hRan, rfl⟩ := runDuring_eq hRun
    have hGrants : (store.withFaults faults).locks.grants = [] := hSteady.grants
    have hBefore : (store.withFaults faults).InTime := hReached.allowed
    have hLeft : left.InTime := hAfter
    exact rename_eq_ok hGrants hSound hBefore hLeft hValid hMoved hRan

end Store

/-- In the store of the sample the parent of the catalog is live, there is nothing in a metalake
that does not exist, and the metalake can get its name. -/
theorem Sample.live_parents_store :
    (∃ parent : Slot, parent.IsParentOf hiveSlot ∧ store.backend.rows.IsLive parent) ∧
    store.list ⟨["sea"]⟩ .catalog = .ok [] ∧
    ∃ target : Slot, target.path = ["sea"] ∧
      Store.Lands store.backend.rows (renameLake.perform.runDuring [] store).2.backend.rows target := by
  obtain ⟨hRooted, hList, hRename⟩ := reachable_store.live_parents
  have hLive : store.backend.rows.IsLive hiveSlot := by decide +kernel
  have hEmpty : ∀ owner : Slot, owner.path = ["sea"] → ¬ store.backend.rows.IsLive owner := by
    intro owner hPath
    have hOwner : seaSlot = owner := Slot.eq_of_path_of_depth hPath.symm (by decide)
    rw [← hOwner]
    decide +kernel
  have hOk : (renameLake.perform.runDuring [] store).1.isOk = true := by decide +kernel
  obtain ⟨reply, hReply⟩ := Outcome.exists_of_isOk hOk
  have hRan : renameLake.perform.runDuring [] store =
      (.ok reply, (renameLake.perform.runDuring [] store).2) := by
    rw [← hReply]
  obtain ⟨target, _, hName, hLands⟩ := hRename .metalake lake "me" [.rename "sea"] [] reply _
    (by decide +kernel) (by decide +kernel) hRan (by decide +kernel)
  refine ⟨hRooted hiveSlot hLive (by decide), hList ⟨["sea"]⟩ .catalog (by decide +kernel) (by decide)
    rfl hEmpty, target, ?_, hLands⟩
  rw [Slot.path, hName]
  rfl

end VersionedCatalog
