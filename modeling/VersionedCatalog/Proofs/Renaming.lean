import VersionedCatalog.Proofs.Hierarchies
import VersionedCatalog.Proofs.Reads

/-! # What a change of name answers

Everything alive below an entity moves with it, in one batch with one stamp. This stamp is later
than every version that was under the old names and under the new ones, so all reads follow: the
entities are under their new names and are found there by their ids, the old names are missing, and
both histories end with the move (`Store.HasMoved`). A name that nothing moves from or to is read as
before, and if something is live under the new name of the root nothing is written
(`Store.Reachable.renames`).
-/

namespace VersionedCatalog

open Storage (Rows Backend Call)
open VersionedCatalog.Action

/-- What moves from below one slot to another has the name that moving its name gives. -/
theorem Move.Leads.rebase {rows : Rows} {source target : Slot} {move : Move}
    (hLeads : move.Leads rows source target) (hBelow : move.resident.slot.IsBelow source) :
    move.resident.slot.name.rebase? source.name target.name = some move.target.name := by
  obtain ⟨rest, hRest, hTarget⟩ := hLeads.place
  refine Name.rebase?_eq_some_iff.mpr ⟨rest, fun hNil => hBelow.2 ?_, hRest, hTarget⟩
  rw [hRest, hNil, List.append_nil]

namespace Store

/-- What a store answers about an entity that moved from one name to another one with a stamp. -/
structure HasMoved (store : Store) (type : EntityType) (source target : Name) (stamp : Stamp)
    (entity : Entity) : Prop where
  loads : store.load type target = .ok entity
  found : store.loadById entity.id = .ok entity
  gone : store.load type source = .error (.missing type source)
  marked : ∃ earlier, store.versions type source = .ok (earlier ++ [(stamp, .renamed target)])
  lives : ∃ earlier, store.versions type target = .ok (earlier ++ [(stamp, .live entity)])

/-- Whether something alive was under a name, or comes to be there, when an entity moves from
`source` to `target` with everything alive below it. -/
def Relocates (store : Store) (type : EntityType) (source target : Name) (other : EntityType)
    (place : Name) : Prop :=
  (other = type ∧ (place = source ∨ place = target)) ∨
    ∃ below entity goal, source.isAncestorOf below = true ∧
      store.load other below = .ok entity ∧ below.rebase? source target = some goal ∧
      (place = below ∨ place = goal)

section
variable {rows : Rows} {source target : Slot} {payload : Entity → Bytes} {moves : List Move}
  (hRelocation : IsRelocation rows source target payload moves)
include hRelocation

/-- The reads follow every move. -/
theorem hasMoved_of_move {after : Store} {stamp : Stamp} (hShaped : rows.IsShaped)
    (hReady : Turn.AreReady rows stamp (Turn.moveAll payload moves))
    (hRows : after.backend.rows =
      rows.apply (Turn.batch stamp (Turn.moveAll payload moves) none))
    (hSound : after.backend.rows.IsSound) (hSteady : after.IsSteady)
    (hOpen : after.closed = false) {move : Move} (hMove : move ∈ moves) :
    after.HasMoved move.resident.slot.type move.resident.slot.name move.target.name stamp
      move.entity := by
  have hTurn : move.turn payload ∈ Turn.moveAll payload moves := List.mem_map.mpr ⟨move, hMove, rfl⟩
  have hWriting := (hReady.fits _ hTurn).2.2.2
  have hLive : after.backend.rows.newest? move.target =
      some ⟨move.target.stem, stamp, .live, payload move.entity⟩ := by
    rw [hRows]
    exact hReady.newest?_written hShaped (List.mem_flatMap.mpr ⟨_, hTurn, List.mem_cons_self⟩)
  have hMarker : after.backend.rows.newest? move.resident.slot =
      some ⟨move.resident.slot.stem, stamp, .renamed, Utf8.encode move.target.name.text⟩ := by
    rw [hRows]
    exact hReady.newest?_written hShaped
      (List.mem_flatMap.mpr ⟨_, hTurn, List.mem_cons_of_mem _ List.mem_cons_self⟩)
  have hHolds : after.backend.rows.Holds move.target move.entity :=
    ⟨_, hLive, rfl, hWriting.decoded⟩
  have hDead : ¬ after.backend.rows.IsLive move.resident.slot := by
    rw [hRows]
    exact Turn.not_isLive_source hShaped hReady hMove
  have hType := (hRelocation.leads move hMove).type
  refine ⟨?_, loadById_of_holds hSound hSteady hOpen hHolds,
    load_of_not_live hSound.shaped hSteady hOpen hDead, ?_, ?_⟩
  · rw [← hType]
    exact load_of_holds hSound.shaped hSteady hOpen hHolds
  · refine exists_versions_last hSound.shaped hSteady hOpen hMarker ?_
    simp [versionState, Version.renameTarget_text move.target.valid]
  · rw [← hType]
    refine exists_versions_last hSound.shaped hSteady hOpen hLive ?_
    simp [versionState, Catalog.decode, hWriting.decoded]

/-- What is alive below the root moves, and nothing changes but its name. -/
theorem exists_move_below {slot : Slot} (hBelow : slot.IsBelow source) {entity : Entity}
    (hHolds : rows.Holds slot entity) :
    ∃ move ∈ moves, move.resident.slot = slot ∧
      slot.name.rebase? source.name target.name = some move.target.name ∧
      move.entity = { entity with name := move.target.name } := by
  obtain ⟨new, hGoes⟩ := Slot.exists_goes (Or.inr hBelow) hRelocation.type
  obtain ⟨move, hMove, rfl, rfl, _⟩ := hRelocation.exists_move hGoes hHolds
  have hLeads := hRelocation.leads move hMove
  exact ⟨move, hMove, rfl, hLeads.rebase hBelow,
    hLeads.kept fun hRoot => hBelow.2 (congrArg Slot.path hRoot).symm⟩

/-- The root moves to the target with the id that it has. -/
theorem exists_move_root {entity : Entity} (hHolds : rows.Holds source entity) :
    ∃ move ∈ moves, move.resident.slot = source ∧ move.target = target ∧
      move.entity.id = entity.id := by
  obtain ⟨move, hMove, hSlot, rfl, hTarget⟩ :=
    hRelocation.exists_move (.root hRelocation.type) hHolds
  exact ⟨move, hMove, hSlot, hTarget, (hRelocation.leads move hMove).id⟩

end

/-- A slot that the moves write in is one that something moves from or to. -/
theorem relocates_of_written {store : Store} (hFormed : store.backend.rows.IsShaped)
    (hSteady : store.IsSteady) (hOpen : store.closed = false) {source target : Slot}
    {payload : Entity → Bytes} {moves : List Move}
    (hRelocation : IsRelocation store.backend.rows source target payload moves) {slot : Slot}
    (hSlot : slot ∈ Turn.written (Turn.moveAll payload moves)) :
    store.Relocates source.type source.name target.name slot.type slot.name := by
  obtain ⟨move, hMove, hPlace⟩ := Turn.mem_written_moveAll_iff.mp hSlot
  have hResident : move.resident ∈ moves.map (·.resident) := List.mem_map.mpr ⟨move, hMove, rfl⟩
  have hHolds := (hRelocation.subtree.lives _ hResident).holds
  have hLeads := hRelocation.leads move hMove
  have hType : slot.type = move.resident.slot.type := by
    rcases hPlace with rfl | rfl
    · exact hLeads.type
    · rfl
  rcases hRelocation.subtree.inside _ hResident with hRoot | hBelow
  · have hTarget := ((hRelocation.goes hMove).root_iff hRelocation.type).mp hRoot
    refine Or.inl ⟨by rw [hType, hRoot], ?_⟩
    rcases hPlace with rfl | rfl
    · exact Or.inr (by rw [hTarget])
    · exact Or.inl (by rw [hRoot])
  · refine Or.inr ⟨move.resident.slot.name, move.resident.entity, move.target.name,
      Slot.isAncestorOf_iff_isBelow.mpr hBelow, ?_, hLeads.rebase hBelow, ?_⟩
    · rw [hType]
      exact load_of_holds hFormed hSteady hOpen hHolds
    · rcases hPlace with rfl | rfl
      · exact Or.inr rfl
      · exact Or.inl rfl

end Store

/-! ### A name that is taken -/

/-- Nothing moves to a slot that is live. -/
theorem Catalog.relocateTree_of_live {backend : Backend} {allowed : Stamp → Prop}
    {known : EntityId → Prop} (hFormed : backend.rows.IsFormed allowed known)
    (hMay : backend.permit .last = .ok ()) {target : Slot} (hLive : backend.rows.IsLive target)
    {entity : Entity} (hType : entity.type = target.type) (name : Name) (stamp : Stamp) :
    relocateTree backend name stamp entity target.name =
      .error (.taken target.type target.name) := by
  obtain ⟨version, hNewest, hFlag⟩ := hLive
  have hLatest := latest?_eq hFormed target
  rw [hMay, hNewest, Slot.stem] at hLatest
  simp [relocateTree, hType, hLatest, hFlag]

namespace Store

/-- Changes that lead to a name under which something is live are refused, if they can be made. -/
theorem exists_refused {store : Store} {allowed : Stamp → Prop} {known : EntityId → Prop}
    (hFormed : store.backend.rows.IsFormed allowed known) (hSteady : store.IsSteady)
    (hOpen : store.closed = false) {type : EntityType} {name : Name} {before occupant updated : Entity}
    (hLoad : store.load type name = .ok before) {changes : List Change}
    (hMoved : targetName name changes ≠ name)
    (hTaken : store.load type (targetName name changes) = .ok occupant)
    (hUpdated : Change.applyAll changes before = .ok updated) (modifier : String) :
    ∃ after, (prepareAlter type name modifier changes).run store =
      (.error (.taken type (targetName name changes)), after) := by
  have hMay : store.backend.permit .last = .ok () :=
    Backend.permit_of_open (hSteady.isOpen hOpen) hSteady.faults .last
  have hEnsure := ensureOpen_eq_ok_iff.mpr hOpen
  obtain ⟨source, rfl, rfl, hHolds⟩ := slot_of_load hFormed hLoad
  obtain ⟨target, hType, hName, hOccupied⟩ := slot_of_load hFormed hTaken
  have hBefore : before.type = source.type := (name_of_load hFormed hLoad).2
  have hDepth : checkDepth source.type source.name = .ok () := if_pos source.fits
  have hValidate := Change.validateAll_of_applyAll hUpdated
  rw [hBefore] at hValidate
  have hSome : changes.isEmpty = false := by
    cases changes with
    | nil => exact absurd rfl hMoved
    | cons change rest => rfl
  obtain ⟨ticket, locks, hLocked⟩ := @exists_locked Entity store _
    (Locks.areFree_of_idle hSteady.grants (lockedPaths source.name (targetName source.name changes)))
  obtain ⟨stamp, hEntity⟩ := Catalog.entity?_of_holds hFormed hHolds
  rw [hMay] at hEntity
  have hFound : ({ store with locks } : Store).loadForChange source.type source.name =
      .ok (stamp, before) := by
    simp [loadForChange, hEntity]
  let touched : Entity := { updated with audit := updated.audit.touch modifier store.clock }
  have hChanged : ({ store with locks } : Store).changed modifier changes before = .ok touched := by
    simp [changed, hUpdated, touched]
  have hTarget : touched.type = target.type := by
    have hKept := (Change.applyAll_eq_ok hUpdated).1.type
    exact hKept.trans (hBefore.trans hType.symm)
  have hRelocate := Catalog.relocateTree_of_live hFormed hMay (.of_holds hOccupied) hTarget
    source.name stamp
  rw [hType, hName] at hRelocate
  refine ⟨({ store with locks } : Store).release ticket, ?_⟩
  rw [prepareAlter, run_inspect_bind_of_ok (a := ()) (by simp [hEnsure, hDepth, hValidate]), hLocked,
    run_inspect_bind_of_ok hFound]
  simp only [hSome, Bool.false_eq_true, if_false]
  rw [run_inspect_bind_of_ok hChanged, if_neg hMoved, run_inspect_bind_of_error hRelocate]

/-! ### Runs -/

/-- A command that alters answers the entity. -/
theorem perform_alter {store after : Store} {type : EntityType} {name : Name} {modifier : String}
    {changes : List Change} {faults : List Call} {entity : Entity}
    (hRun : (alter type name modifier changes).runDuring faults store = (.ok entity, after)) :
    (Command.mutate (.alter type name modifier changes)).perform.runDuring faults store =
      (.ok (.entity entity), after) := by
  show (do return Reply.entity (← alter type name modifier changes) : Action Reply).runDuring faults
    store = _
  rw [runDuring_bind_pure, hRun]
  rfl

/-- Altering in time is a step of a run. -/
theorem Reachable.altered {store after : Store} (hReached : Reachable InTime store) {type : EntityType}
    {name : Name} (hValid : name.IsValid) {modifier : String} {changes : List Change}
    {faults : List Call} {entity : Entity}
    (hRun : (alter type name modifier changes).runDuring faults store = (.ok entity, after))
    (hAfter : after.InTime) : Reachable InTime after :=
  hReached.call (.mutate (.alter type name modifier changes)) faults hValid (perform_alter hRun) hAfter

/-- A change of name in a run: what moves, what is written, and the state that comes of it. -/
theorem Reachable.exists_relocation {store : Store} (hReached : Reachable InTime store) {source : Slot}
    {modifier : String} {changes : List Change}
    (hMoved : targetName source.name changes ≠ source.name) {faults : List Call} {entity : Entity}
    {after : Store}
    (hRun : (alter source.type source.name modifier changes).runDuring faults store =
      (.ok entity, after)) (hAfter : after.InTime) :
    Reachable InTime after ∧ after.closed = store.closed ∧ ∃ target payload moves,
      target.name = targetName source.name changes ∧
      IsRelocation store.backend.rows source target payload moves ∧
      Turn.AreReady store.backend.rows after.lastStamp (Turn.moveAll payload moves) ∧
      after.backend.rows = store.backend.rows.apply
        (Turn.batch after.lastStamp (Turn.moveAll payload moves) none) ∧
      ∀ move ∈ moves, move.resident.slot = source → move.entity = entity := by
  have hRan := perform_alter hRun
  have hThere := hReached.altered source.valid hRun hAfter
  obtain ⟨left, hLeft, rfl⟩ := runDuring_eq hRan
  obtain ⟨hGrants, _, _⟩ := hReached.isSteady.withFaults faults
  have hSound : (store.withFaults faults).backend.rows.IsSound := hReached.isSound
  have hBefore : (store.withFaults faults).InTime := hReached.allowed
  have hStill : left.InTime := hAfter
  obtain ⟨found, target, payload, moves, hType, hName, hGoal, hRelocation, hReady, hRows, hRoot,
    hClosed⟩ := rename_moves hGrants hSound hBefore hStill source.valid hMoved hLeft
  cases Slot.eq_of_parts hType hName
  exact ⟨hThere, hClosed, target, payload, moves, hGoal, hRelocation, hReady, hRows,
    fun move hMove hSame => (Reply.entity.inj (hRoot move hMove hSame)).symm⟩

/-- **A change of name.**  If it succeeds, the entity and everything alive below it have moved with one
stamp, the entity as it was answered and what is below with another name, and everything else loads
as before. If something is live under the new name and the changes can be made, they are refused and
nothing is written. -/
theorem Reachable.renames {store : Store} (hReached : Reachable InTime store) {type : EntityType}
    {name : Name} {before : Entity} (hLoad : store.load type name = .ok before) (modifier : String)
    {changes : List Change} (hMoved : targetName name changes ≠ name) :
    (∀ (faults : List Call) (entity : Entity) (after : Store),
      (alter type name modifier changes).runDuring faults store = (.ok entity, after) →
      after.InTime →
      ∃ stamp, entity.id = before.id ∧
        after.HasMoved type name (targetName name changes) stamp entity ∧
        (∀ deeper below found, name.isAncestorOf below = true →
          store.load deeper below = .ok found →
          ∃ goal, below.rebase? name (targetName name changes) = some goal ∧
            after.HasMoved deeper below goal stamp { found with name := goal }) ∧
        ∀ other place, ¬ store.Relocates type name (targetName name changes) other place →
          after.load other place = store.load other place) ∧
    ∀ occupant updated : Entity, store.load type (targetName name changes) = .ok occupant →
      Change.applyAll changes before = .ok updated →
      ∃ after, (alter type name modifier changes).runDuring [] store =
        (.error (.taken type (targetName name changes)), after) ∧
        after.backend = store.backend := by
  have hSteady := hReached.isSteady
  have hShaped := hReached.isSound.shaped
  have hOpen := open_of_load hLoad
  refine ⟨fun faults entity after hRun hAfter => ?_, fun occupant updated hTaken hUpdated => ?_⟩
  · obtain ⟨source, rfl, rfl, hHolds⟩ := slot_of_load hShaped hLoad
    obtain ⟨hThere, hClosed, target, payload, moves, hGoal, hRelocation, hReady, hRows, hRoot⟩ :=
      hReached.exists_relocation hMoved hRun hAfter
    have hAll : ∀ move ∈ moves, after.HasMoved move.resident.slot.type move.resident.slot.name
        move.target.name after.lastStamp move.entity := fun move hMove =>
      hasMoved_of_move hRelocation hShaped hReady hRows hThere.isSound hThere.isSteady
        (hClosed.trans hOpen) hMove
    rw [← hGoal]
    obtain ⟨root, hMem, hSlot, hTarget, hId⟩ := exists_move_root hRelocation hHolds
    have hAnswer := hRoot root hMem hSlot
    refine ⟨after.lastStamp, hAnswer ▸ hId, ?_, fun deeper below found hAbove hFound => ?_,
      fun other place hOther => ?_⟩
    · have hRootMoved := hAll root hMem
      rwa [hSlot, hTarget, hAnswer] at hRootMoved
    · obtain ⟨slot, rfl, rfl, hFoundHere⟩ := slot_of_load hShaped hFound
      obtain ⟨move, hMove, hResident, hRebase, hEntity⟩ := exists_move_below hRelocation
        (Slot.isAncestorOf_iff_isBelow.mp hAbove) hFoundHere
      have hMoveMoved := hAll move hMove
      rw [hResident, hEntity] at hMoveMoved
      exact ⟨_, hRebase, hMoveMoved⟩
    · refine load_congr hSteady hThere.isSteady hClosed hShaped hThere.isSound.shaped ?_
      rintro slot rfl rfl
      rw [hRows]
      exact hReady.newest?_other hShaped fun hWritten =>
        hOther (relocates_of_written hShaped hSteady hOpen hRelocation hWritten)
  · obtain ⟨left, hLeft⟩ :=
      exists_refused hShaped hSteady hOpen hLoad hMoved hTaken hUpdated modifier
    refine ⟨left.withFaults [], ?_, ?_⟩
    · rw [runDuring, withFaults_nil hSteady, alter, run_complete, hLeft]
    · have hStays := (prepares_alter type name modifier changes store left _
        (Locks.areNumbered_of_idle hSteady.grants) hLeft).1
      have hSame : (left.withFaults []).backend = (store.withFaults []).backend := by
        rw [withFaults, withFaults, hStays.backend]
      rw [hSame, withFaults_nil hSteady]

end Store

/-! ### A metalake with a catalog in it gets another name -/

namespace Sample

def sea : Name := ⟨.root, "sea"⟩

def bay : Name := ⟨.root, "bay"⟩

def makeSea : Command := .mutate (.create sea (.of .metalake))

/-- A store with two metalakes and a catalog in one of them. -/
def coast : Store := (makeSea.perform.runDuring [] store).2

theorem reachable_coast : Store.Reachable Store.InTime coast :=
  reachable_store.call makeSea [] (by decide +kernel) (Prod.eta _).symm (by decide +kernel)

def alterLake (leaf : String) : Except StoreError Entity × Store :=
  (Store.alter .metalake lake "me" [.rename leaf]).runDuring [] coast

/-- The metalake takes its catalog along to a free name and does not get the name of the other one. -/
theorem renames_coast :
    (∃ stamp entity after found,
      alterLake "bay" = (.ok entity, after) ∧
      after.HasMoved .metalake lake bay stamp entity ∧
      coast.load .catalog hive = .ok found ∧
      after.HasMoved .catalog hive ⟨⟨["bay"]⟩, "hive"⟩ stamp
        { found with name := ⟨⟨["bay"]⟩, "hive"⟩ }) ∧
    ∃ after, alterLake "sea" = (.error (.taken .metalake sea), after) ∧
      after.backend = coast.backend := by
  have hLake : (coast.load .metalake lake).isOk = true := by decide +kernel
  have hHive : (coast.load .catalog hive).isOk = true := by decide +kernel
  have hSea : (coast.load .metalake sea).isOk = true := by decide +kernel
  obtain ⟨before, hLoad⟩ := Outcome.exists_of_isOk hLake
  obtain ⟨found, hFound⟩ := Outcome.exists_of_isOk hHive
  obtain ⟨occupant, hTaken⟩ := Outcome.exists_of_isOk hSea
  constructor
  · have hOk : (alterLake "bay").1.isOk = true := by decide +kernel
    obtain ⟨entity, hEntity⟩ := Outcome.exists_of_isOk hOk
    have hRan : alterLake "bay" = (.ok entity, (alterLake "bay").2) := by rw [← hEntity]
    obtain ⟨stamp, _, hMoved, hBelow, _⟩ := (reachable_coast.renames hLoad "me"
      (by decide +kernel)).1 [] entity _ hRan (by decide +kernel)
    obtain ⟨goal, hGoal, hAlong⟩ := hBelow .catalog hive found (by decide +kernel) hFound
    have hName : hive.rebase? lake bay = some ⟨⟨["bay"]⟩, "hive"⟩ := by decide +kernel
    cases hName.symm.trans hGoal
    exact ⟨stamp, entity, _, found, hRan, hMoved, hFound, hAlong⟩
  · have hLeaf : Change.isLeaf "sea" = true := by decide +kernel
    have hUpdated : Change.applyAll [.rename "sea"] before =
        .ok { before with name := ⟨before.name.scope, "sea"⟩ } := by
      simp [Change.applyAll, Change.apply, Change.validate, Change.run_rename hLeaf, hLeaf]
    exact (reachable_coast.renames hLoad "me" (by decide +kernel)).2 occupant _ hTaken hUpdated

end Sample

end VersionedCatalog
