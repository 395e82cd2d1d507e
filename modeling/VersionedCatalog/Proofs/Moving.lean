import Mathlib.Data.List.Forall2
import VersionedCatalog.Proofs.Changes
import VersionedCatalog.Proofs.Plans
import VersionedCatalog.Proofs.Subtrees

/-! # Moving a subtree

A change of name moves the residents of a subtree to the same places below another slot. The
destinations are never looked at but for the first: nothing is live below a slot that is not
(`Rows.IsSound.not_isLive_below`), so they are free. The moves are turns that are ready together
(`Turn.areReady_moveAll`), and relocating a tree makes such moves of all its residents
(`Catalog.relocateTree_eq_ok`).
-/

namespace VersionedCatalog

open Storage (Rows Backend)

/-- A resident on its way to another slot, with the entity that will be there. -/
structure Move where
  resident : Resident
  target : Slot
  entity : Entity
  floor : Stamp

namespace Move

def relocation (move : Move) : Relocation :=
  ⟨move.resident.slot.stem, move.target.stem, move.entity, move.floor⟩

def turn (payload : Entity → Bytes) (move : Move) : Turn :=
  .move move.resident.slot move.target move.resident.entity move.entity (payload move.entity)

/-- A move from below one slot to the same place below another one. -/
structure Leads (rows : Rows) (source target : Slot) (move : Move) : Prop where
  place : ∃ rest, move.resident.slot.path = source.path ++ rest ∧
    move.target.path = target.path ++ rest
  type : move.target.type = move.resident.slot.type
  id : move.entity.id = move.resident.entity.id
  kind : move.entity.type = move.target.type
  name : move.entity.name = move.target.name
  tagged : move.entity.properties.get? EntityId.propertyKey = some move.entity.id.tag
  after : move.resident.version.stamp.rank ≤ move.floor.rank
  afterTarget : ∀ version, rows.newest? move.target = some version →
    version.stamp.rank ≤ move.floor.rank
  found : move.floor = move.resident.version.stamp ∨
    ∃ version, rows.newest? move.target = some version ∧ move.floor = version.stamp
  kept : move.resident.slot ≠ source →
    move.entity = { move.resident.entity with name := move.target.name }

/-- Moving goes from one subtree to the same place in another one. -/
theorem Leads.goes {rows : Rows} {source target : Slot} {move : Move}
    (hLeads : move.Leads rows source target)
    (hInside : move.resident.slot.IsIn source) : Slot.Goes source target move.resident.slot move.target :=
  ⟨hInside, hLeads.type, hLeads.place⟩

end Move

theorem Move.Leads.allowed_floor {allowed : Stamp → Prop} {known : EntityId → Prop} {rows : Rows}
    (hFormed : rows.IsFormed allowed known) {source target : Slot} {move : Move}
    (hLeads : move.Leads rows source target) (hLives : move.resident.Lives rows) :
    allowed move.floor := by
  rcases hLeads.found with hEq | ⟨version, hNewest, hEq⟩
  · rw [hEq]
    exact Rows.allowed_of_newest? hFormed hLives.newest
  · rw [hEq]
    exact Rows.allowed_of_newest? hFormed hNewest

/-- The moves of a whole subtree to a slot of the same namespace that is not live, with payloads
that can be read. -/
structure IsRelocation (rows : Rows) (source target : Slot) (payload : Entity → Bytes)
    (moves : List Move) : Prop where
  type : target.type = source.type
  scope : target.name.scope = source.name.scope
  apart : target ≠ source
  dead : ¬ rows.IsLive target
  subtree : IsSubtree rows source (moves.map (·.resident))
  leads : ∀ move ∈ moves, move.Leads rows source target
  decoded : ∀ move ∈ moves,
    Entity.decode move.entity.type (payload move.entity) = .ok move.entity

namespace IsRelocation

variable {rows : Rows} {source target : Slot} {payload : Entity → Bytes} {moves : List Move}
  (hRelocation : IsRelocation rows source target payload moves)
include hRelocation

theorem lives {move : Move} (hMove : move ∈ moves) : move.resident.Lives rows :=
  hRelocation.subtree.lives _ (List.mem_map.mpr ⟨move, hMove, rfl⟩)

theorem goes {move : Move} (hMove : move ∈ moves) :
    Slot.Goes source target move.resident.slot move.target :=
  (hRelocation.leads move hMove).goes
    (hRelocation.subtree.inside _ (List.mem_map.mpr ⟨move, hMove, rfl⟩))

theorem floor_ne_last (hShaped : rows.IsShaped) : ∀ move ∈ moves, move.floor ≠ .last :=
  fun move hMove => (hRelocation.leads move hMove).allowed_floor hShaped (hRelocation.lives hMove)

/-- Everything that is held in the subtree moves. -/
theorem exists_move {old new : Slot} {before : Entity} (hGoes : Slot.Goes source target old new)
    (hHolds : rows.Holds old before) :
    ∃ move ∈ moves, move.resident.slot = old ∧ move.resident.entity = before ∧
      move.target = new := by
  obtain ⟨resident, hResident, rfl⟩ :=
    hRelocation.subtree.complete old hGoes.inside (.of_holds hHolds)
  obtain ⟨move, hMove, rfl⟩ := List.mem_map.mp hResident
  exact ⟨move, hMove, rfl, (hRelocation.lives hMove).holds.entity_eq hHolds,
    hGoes.eq (hRelocation.goes hMove)⟩

end IsRelocation

namespace Turn

def moveAll (payload : Entity → Bytes) (moves : List Move) : List Turn :=
  moves.map (Move.turn payload)

theorem written_moveAll (payload : Entity → Bytes) (moves : List Move) :
    written (moveAll payload moves) =
      moves.flatMap fun move => [move.target, move.resident.slot] := by
  induction moves with
  | nil => rfl
  | cons move rest ih =>
    exact congrArg (fun slots => move.target :: move.resident.slot :: slots) ih

theorem mem_written_moveAll_iff {payload : Entity → Bytes} {moves : List Move} {slot : Slot} :
    slot ∈ written (moveAll payload moves) ↔
      ∃ move ∈ moves, slot = move.target ∨ slot = move.resident.slot := by
  simp [written_moveAll]

theorem nodup_flatMap_pair {α β : Type} {f g : α → β} {l : List α} (hF : (l.map f).Nodup)
    (hG : (l.map g).Nodup) (hApart : ∀ a ∈ l, ∀ b ∈ l, f a ≠ g b) :
    (l.flatMap fun a => [f a, g a]).Nodup := by
  induction l with
  | nil => exact List.nodup_nil
  | cons a rest ih =>
    rw [List.map_cons, List.nodup_cons] at hF hG
    have hRest := ih hF.2 hG.2 fun b hB c hC =>
      hApart b (List.mem_cons_of_mem _ hB) c (List.mem_cons_of_mem _ hC)
    have hNotIn : ∀ x, (∀ b ∈ rest, x ≠ f b ∧ x ≠ g b) →
        x ∉ rest.flatMap fun a => [f a, g a] := by
      intro x hX hMem
      obtain ⟨b, hB, hIn⟩ := List.mem_flatMap.mp hMem
      rcases List.mem_cons.mp hIn with hEq | hIn
      · exact (hX b hB).1 hEq
      · exact (hX b hB).2 (List.mem_singleton.mp hIn)
    rw [List.flatMap_cons, List.cons_append, List.singleton_append, List.nodup_cons,
      List.nodup_cons, List.mem_cons]
    refine ⟨?_, hNotIn _ fun b hB => ⟨fun hEq => ?_, fun hEq => ?_⟩, hRest⟩
    · rintro (hEq | hMem)
      · exact hApart a List.mem_cons_self a List.mem_cons_self hEq
      · refine hNotIn _ (fun b hB => ⟨fun hEq => ?_, ?_⟩) hMem
        · exact hF.1 (hEq ▸ List.mem_map.mpr ⟨b, hB, rfl⟩)
        · exact hApart a List.mem_cons_self b (List.mem_cons_of_mem _ hB)
    · exact hApart b (List.mem_cons_of_mem _ hB) a List.mem_cons_self hEq.symm
    · exact hG.1 (hEq ▸ List.mem_map.mpr ⟨b, hB, rfl⟩)

section
variable {rows : Rows} {source target : Slot} {moves : List Move}
  (hType : source.type = target.type)
include hType

/-- Two subtrees of one type do not meet. -/
theorem target_ne_source (hNe : target ≠ source) {a b : Move} (hA : a.Leads rows source target)
    (hB : b.Leads rows source target) : a.target ≠ b.resident.slot := by
  intro hEq
  obtain ⟨_, _, hGoal⟩ := hA.place
  obtain ⟨_, hPath, _⟩ := hB.place
  rw [hEq, hPath] at hGoal
  have hLength : source.path.length = target.path.length := by
    rw [source.length_path, target.length_path, hType]
  exact hNe (Slot.eq_of_path hType (List.append_inj hGoal hLength).1).symm

omit hType in
/-- A moved child is a child of its moved parent. -/
theorem isParentOf_moved {above below : Move} (hAbove : above.Leads rows source target)
    (hBelow : below.Leads rows source target)
    (hParent : above.resident.slot.IsParentOf below.resident.slot) {parent : Slot}
    (hTarget : parent.IsParentOf below.target) : parent = above.target := by
  obtain ⟨rest, hPath, hGoal⟩ := hAbove.place
  obtain ⟨longer, hLongPath, hLongGoal⟩ := hBelow.place
  have hMore : longer = rest ++ [below.resident.slot.name.leaf] := by
    rw [hParent.path_eq, hPath, List.append_assoc] at hLongPath
    exact (List.append_cancel_left hLongPath).symm
  have hSplit : above.target.path ++ [below.resident.slot.name.leaf] =
      parent.path ++ [below.target.name.leaf] := by
    rw [← hTarget.path_eq, hLongGoal, hMore, hGoal, List.append_assoc]
  have hSame := (List.append_inj' hSplit rfl).1
  have hUpper : parent.type.depth < 3 := by
    have hLayer := hTarget.isBelow.depth_lt
    have hLimit := below.target.type.depth_le
    omega
  exact Slot.eq_of_path_of_depth hSame.symm hUpper

omit hType in
theorem depth_le_of_mem_written (hSubtree : IsSubtree rows source (moves.map (·.resident)))
    (hLeads : ∀ move ∈ moves, move.Leads rows source target) {payload : Entity → Bytes} {slot : Slot}
    (hSlot : slot ∈ written (moveAll payload moves)) : source.type.depth ≤ slot.type.depth := by
  obtain ⟨move, hMove, hEq⟩ := mem_written_moveAll_iff.mp hSlot
  have hSame : slot.type = move.resident.slot.type := by
    rcases hEq with rfl | rfl
    · exact (hLeads move hMove).type
    · rfl
  rw [hSame]
  rcases hSubtree.inside _ (List.mem_map.mpr ⟨move, hMove, rfl⟩) with hRoot | hBelow
  · exact Nat.le_of_eq (by rw [hRoot])
  · exact Nat.le_of_lt hBelow.depth_lt

/-- The parent of a slot that is moved to is moved to as well, or it stays where it is, above
everything that is written. -/
theorem parent_of_moved (hSound : rows.IsSound)
    (hSubtree : IsSubtree rows source (moves.map (·.resident)))
    (hLeads : ∀ move ∈ moves, move.Leads rows source target)
    (hScope : target.name.scope = source.name.scope) (payload : Entity → Bytes) {move : Move}
    (hMove : move ∈ moves) {parent : Slot} (hParent : parent.IsParentOf move.target) :
    (∃ other ∈ moves, other.target = parent) ∨
      parent ∉ written (moveAll payload moves) ∧ rows.IsLive parent := by
  have hMem : move.resident ∈ moves.map (·.resident) := List.mem_map.mpr ⟨move, hMove, rfl⟩
  rcases hSubtree.inside _ hMem with hRoot | hBelow
  · have hGoal := (((hLeads move hMove).goes (Or.inl hRoot)).root_iff hType.symm).mp hRoot
    have hAbove : parent.IsParentOf source := by
      refine ⟨by rw [hType, ← hGoal]; exact hParent.type, ?_⟩
      have hName := hParent.name
      rw [hGoal] at hName
      rw [Name.parent?, ← hScope]
      exact hName
    refine Or.inr ⟨fun hWritten => ?_, ?_⟩
    · have hDepth := depth_le_of_mem_written hSubtree hLeads hWritten
      exact absurd hAbove.isBelow.depth_lt (Nat.not_lt_of_le hDepth)
    · exact hSound.parents hAbove (hRoot ▸ (hSubtree.lives _ hMem).isLive)
  · obtain ⟨resident, hResident, hAbove⟩ := hSubtree.exists_parent hSound hMem hBelow
    obtain ⟨other, hOther, rfl⟩ := List.mem_map.mp hResident
    exact Or.inl ⟨other, hOther,
      (isParentOf_moved (hLeads other hOther) (hLeads move hMove) hAbove hParent).symm⟩

omit hType in
/-- Moving all residents of a subtree to a slot that is not live, in one namespace. -/
theorem areReady_moveAll (hSound : rows.IsSound) {payload : Entity → Bytes}
    (hRelocation : IsRelocation rows source target payload moves) {stamp : Stamp}
    (hNotLast : stamp ≠ .last) (hLater : ∀ move ∈ moves, move.floor < stamp) :
    AreReady rows stamp (moveAll payload moves) := by
  obtain ⟨hTarget, hScope, hNe, hDead, hSubtree, hLeads, hDecode⟩ := hRelocation
  have hType := hTarget.symm
  have hLives : ∀ move ∈ moves, move.resident.Lives rows := fun move hMem =>
    hSubtree.lives _ (List.mem_map.mpr ⟨move, hMem, rfl⟩)
  have hGoes : ∀ move ∈ moves, Slot.Goes source target move.resident.slot move.target :=
    fun move hMem => (hLeads move hMem).goes (hSubtree.inside _ (List.mem_map.mpr ⟨move, hMem, rfl⟩))
  have hFree : ∀ move ∈ moves, ¬ rows.IsLive move.target := by
    intro move hMem
    rcases (hGoes move hMem).inside_target hTarget with hEq | hBelow
    · rw [hEq]
      exact hDead
    · exact hSound.not_isLive_below hBelow hDead
  have hSources : (moves.map (·.resident.slot)).Nodup := by
    have hOnce := hSubtree.once
    rwa [List.map_map] at hOnce
  have hTargets : (moves.map (·.target)).Nodup := by
    rw [List.Nodup, List.pairwise_map] at hSources ⊢
    exact hSources.imp_of_mem fun hA hB hSlots hEq =>
      hSlots (((hGoes _ hB).symm hTarget).eq (hEq ▸ (hGoes _ hA).symm hTarget))
  refine ⟨fun turn hTurn => ?_, ?_, ?_, hNotLast, fun slot hSlot version hNewest => ?_,
    fun turn hTurn slot entity hTarget parent hParent => ?_,
    fun turn hTurn slot hLeft child hChild hLive => ?_⟩
  · obtain ⟨move, hMem, rfl⟩ := List.mem_map.mp hTurn
    have hMove := hLeads move hMem
    have hRead := hDecode move hMem
    rw [hMove.kind] at hRead
    exact ⟨(hLives move hMem).holds, hFree move hMem, hMove.id, hRead, hMove.name, hMove.tagged⟩
  · rw [written_moveAll]
    exact nodup_flatMap_pair hTargets hSources fun a hA b hB =>
      target_ne_source hType hNe (hLeads a hA) (hLeads b hB)
  · have hIds := hSubtree.ids hSound
    rw [List.map_map] at hIds
    rw [moveAll, List.map_map]
    exact hIds
  · obtain ⟨move, hMem, rfl | rfl⟩ := mem_written_moveAll_iff.mp hSlot
    · have hFloor := (hLeads move hMem).afterTarget version hNewest
      exact Stamp.lt_iff_rank.mpr
        (Nat.lt_of_le_of_lt hFloor (Stamp.lt_iff_rank.mp (hLater move hMem)))
    · cases Option.some.inj ((hLives move hMem).newest.symm.trans hNewest)
      exact Stamp.lt_iff_rank.mpr
        (Nat.lt_of_le_of_lt (hLeads move hMem).after (Stamp.lt_iff_rank.mp (hLater move hMem)))
  · obtain ⟨move, hMem, rfl⟩ := List.mem_map.mp hTurn
    cases hTarget
    rcases parent_of_moved hType hSound hSubtree hLeads hScope payload hMem hParent with
      ⟨other, hOther, rfl⟩ | hStays
    · exact Or.inl ⟨_, List.mem_map.mpr ⟨other, hOther, rfl⟩, other.entity, rfl⟩
    · exact Or.inr hStays
  · obtain ⟨move, hMem, rfl⟩ := List.mem_map.mp hTurn
    cases hLeft
    obtain ⟨resident, hResident, rfl⟩ :=
      hSubtree.exists_child (List.mem_map.mpr ⟨move, hMem, rfl⟩) hChild hLive
    obtain ⟨other, hOther, rfl⟩ := List.mem_map.mp hResident
    exact ⟨_, List.mem_map.mpr ⟨other, hOther, rfl⟩, rfl⟩

omit hType in
/-- The old place of an entity that is moved holds a marker afterwards. -/
theorem not_isLive_source (hShaped : rows.IsShaped) {stamp : Stamp} {payload : Entity → Bytes}
    (hReady : AreReady rows stamp (moveAll payload moves)) {raise : Option Bytes} {move : Move}
    (hMove : move ∈ moves) :
    ¬ (rows.apply (batch stamp (moveAll payload moves) raise)).IsLive move.resident.slot := by
  rintro ⟨version, hNewest, hLive⟩
  have hTurn : move.turn payload ∈ moveAll payload moves := List.mem_map.mpr ⟨move, hMove, rfl⟩
  have hWrite : (move.resident.slot, Flag.renamed, Utf8.encode move.target.name.text) ∈
      (moveAll payload moves).flatMap writes :=
    List.mem_flatMap.mpr ⟨_, hTurn, List.mem_cons_of_mem _ List.mem_cons_self⟩
  rw [hReady.newest?_written hShaped hWrite, Option.some.injEq] at hNewest
  rw [← hNewest] at hLive
  cases hLive

omit hType in
theorem areBehind_moveAll (hLeads : ∀ move ∈ moves, move.Leads rows source target)
    (payload : Entity → Bytes) :
    AreBehind [source.path, target.path] (moveAll payload moves) := by
  intro slot hSlot
  obtain ⟨move, hMem, hEq⟩ := mem_written_moveAll_iff.mp hSlot
  obtain ⟨rest, hPath, hGoal⟩ := (hLeads move hMem).place
  rcases hEq with rfl | rfl
  · exact ⟨target.path, by simp, ⟨rest, hGoal.symm⟩⟩
  · exact ⟨source.path, by simp, ⟨rest, hPath.symm⟩⟩

end

end Turn

namespace Catalog

variable {backend : Backend} {allowed : Stamp → Prop} {known : EntityId → Prop}

theorem latestFloor_eq (moves : List Move) :
    Relocation.latestFloor (moves.map Move.relocation) =
      Stamp.latestOf (moves.map (·.floor)) := by
  induction moves with
  | nil => rfl
  | cons move rest ih =>
    rw [List.map_cons, List.map_cons, Stamp.latestOf, ← ih]
    rfl

/-- A floor is the given stamp or that of the newest version in the slot, whichever is later. -/
theorem floorAt_eq_ok {slot : Slot} {stamp floor : Stamp}
    (hOk : floorAt backend slot.stem stamp = .ok floor) :
    stamp.rank ≤ floor.rank ∧
      (∀ version, backend.rows.newest? slot = some version → version.stamp.rank ≤ floor.rank) ∧
      (floor = stamp ∨
        ∃ version, backend.rows.newest? slot = some version ∧ floor = version.stamp) := by
  obtain ⟨found, hFound, hRest⟩ := Outcome.bind_eq_ok hOk
  rw [← latest?_eq_ok hFound]
  cases found with
  | none =>
    cases hRest
    exact ⟨Nat.le_refl _, nofun, Or.inl rfl⟩
  | some version =>
    cases hRest
    refine ⟨?_, fun other hOther => ?_, ?_⟩
    · rw [Stamp.rank_later]
      exact Nat.le_max_right _ _
    · cases hOther
      rw [Stamp.rank_later]
      exact Nat.le_max_left _ _
    · rcases Stamp.later_eq_or version.stamp stamp with hEq | hEq
      · exact Or.inr ⟨version, rfl, hEq⟩
      · exact Or.inl hEq

section
variable (hFormed : backend.rows.IsFormed allowed known) {source target : Slot}
  (hType : source.type = target.type)
include hFormed hType

/-- A resident below the source is relocated to the same place below the target. -/
theorem relocate_eq_ok {resident : Resident} (hLives : resident.Lives backend.rows)
    (hBelow : resident.slot.IsBelow source) {relocation : Relocation}
    (hOk : relocate backend source.name target.name resident.slot.type resident.version =
      .ok relocation) :
    ∃ move : Move, move.resident = resident ∧ move.relocation = relocation ∧
      move.Leads backend.rows source target := by
  obtain ⟨entity, hDecode, hRest⟩ := Outcome.bind_eq_ok hOk
  have hSame : entity = resident.entity :=
    Except.ok.inj ((decode_eq_ok hDecode).symm.trans hLives.decoded)
  obtain ⟨hName, hTag, _⟩ := hFormed.name_of_holds hLives.holds
  obtain ⟨goal, hGoalType, hGoalBelow, hRebase⟩ := Slot.exists_moved hBelow hType
  rw [hSame, hName, hRebase] at hRest
  obtain ⟨floor, hFloor, hLast⟩ := Outcome.bind_eq_ok hRest
  cases hLast
  have hFloorAt : floorAt backend goal.stem resident.version.stamp = .ok floor := by
    rw [Slot.stem, hGoalType]
    exact hFloor
  obtain ⟨hAfter, hAfterGoal, hFound⟩ := floorAt_eq_ok hFloorAt
  obtain ⟨rest, _, hPath, hGoal⟩ := Name.path_of_rebase? hRebase
  refine ⟨⟨resident, goal, { resident.entity with name := goal.name }, floor⟩, rfl, ?_,
    ⟨⟨rest, hPath, hGoal⟩, hGoalType, rfl, ?_, rfl, hTag, hAfter, hAfterGoal, hFound, fun _ => rfl⟩⟩
  · rw [Move.relocation, hLives.stem hFormed, ← hGoalType]
    rfl
  · rw [hGoalType]
    exact (Entity.type_of_decode hLives.decoded : resident.entity.type = resident.slot.type)

/-- The moves of some residents below the source. -/
theorem relocateAll_eq_ok {residents : List Resident}
    (hLives : ∀ resident ∈ residents, resident.Lives backend.rows)
    (hBelow : ∀ resident ∈ residents, resident.slot.IsBelow source)
    {relocations : List Relocation}
    (hOk : List.Forall₂ (fun dead relocation =>
      relocate backend source.name target.name dead.1 dead.2 = .ok relocation)
      (residents.map doom) relocations) :
    ∃ moves : List Move, moves.map (·.resident) = residents ∧
      moves.map Move.relocation = relocations ∧
      ∀ move ∈ moves, move.Leads backend.rows source target := by
  induction residents generalizing relocations with
  | nil => cases hOk; exact ⟨[], rfl, rfl, fun _ hMem => (List.not_mem_nil hMem).elim⟩
  | cons resident rest ih =>
    cases hOk with
    | cons hFirst hRest =>
      obtain ⟨hHere, hLivesRest⟩ := List.forall_mem_cons.mp hLives
      obtain ⟨hUnder, hBelowRest⟩ := List.forall_mem_cons.mp hBelow
      obtain ⟨move, rfl, rfl, hLeads⟩ := relocate_eq_ok hFormed hType hHere hUnder hFirst
      obtain ⟨moves, rfl, rfl, hAll⟩ := ih hLivesRest hBelowRest hRest
      exact ⟨move :: moves, rfl, rfl, List.forall_mem_cons.mpr ⟨hLeads, hAll⟩⟩

end

theorem forall₂_of_relocateAll {source target : Name} {type : EntityType} {versions : List Version}
    {relocations : List Relocation}
    (hOk : relocateAll backend source target type versions = .ok relocations) :
    List.Forall₂ (fun dead relocation =>
      relocate backend source target dead.1 dead.2 = .ok relocation)
      (versions.map fun version => (type, version)) relocations := by
  induction versions generalizing relocations with
  | nil => cases hOk; exact .nil
  | cons version rest ih =>
    obtain ⟨first, hFirst, hRest⟩ := Outcome.bind_eq_ok hOk
    obtain ⟨others, hOthers, hLast⟩ := Outcome.bind_eq_ok hRest
    cases hLast
    exact .cons hFirst (ih hOthers)

/-- Relocating goes through the same versions as dropping does. -/
theorem relocateRanges_eq_ok {source target : Name} {ranges : List (EntityType × Bytes)}
    {relocations : List Relocation}
    (hOk : relocateRanges backend source target ranges = .ok relocations) :
    ∃ found, liveInRanges backend ranges = .ok found ∧ List.Forall₂ (fun dead relocation =>
      relocate backend source target dead.1 dead.2 = .ok relocation) found relocations := by
  induction ranges generalizing relocations with
  | nil => cases hOk; exact ⟨[], rfl, .nil⟩
  | cons range rest ih =>
    obtain ⟨type, stem⟩ := range
    obtain ⟨versions, hVersions, hRest⟩ := Outcome.bind_eq_ok hOk
    obtain ⟨moved, hMoved, hRest⟩ := Outcome.bind_eq_ok hRest
    obtain ⟨others, hOthers, hLast⟩ := Outcome.bind_eq_ok hRest
    cases hLast
    obtain ⟨found, hFound, hEach⟩ := ih hOthers
    refine ⟨versions.map (fun version => (type, version)) ++ found, ?_, ?_⟩
    · simp [liveInRanges, hVersions, hFound]
    · exact List.rel_append (forall₂_of_relocateAll hMoved) hEach

/-- The parts of a relocated tree: its root, and what lies below. -/
theorem relocateTree_parts {source target : Name} {stamp : Stamp} {entity : Entity}
    {relocations : List Relocation}
    (hOk : relocateTree backend source stamp entity target = .ok relocations) :
    ∃ found floor others, latest? backend (Key.entity entity.type target) = .ok found ∧
      found.any Version.isLive = false ∧
      floorAt backend (Key.entity entity.type target) stamp = .ok floor ∧
      relocateRanges backend source target (Key.descendants entity.type source) = .ok others ∧
      relocations = ⟨Key.entity entity.type source, Key.entity entity.type target, entity, floor⟩ ::
        others := by
  obtain ⟨found, hFound, hRest⟩ := Outcome.bind_eq_ok hOk
  cases hAny : found.any Version.isLive with
  | true => simp [hAny] at hRest
  | false =>
    simp only [hAny, Bool.false_eq_true, if_false] at hRest
    obtain ⟨others, hOthers, hLast⟩ := Outcome.bind_eq_ok hRest
    cases hLast
    refine ⟨found, _, others, hFound, hAny, ?_, hOthers, rfl⟩
    rw [floorAt, hFound]
    cases found <;> rfl

/-- Relocating a tree moves all its residents, and its root with the changes that were made. -/
theorem relocateTree_eq_ok (hFormed : backend.rows.IsFormed allowed known) {source target : Slot}
    (hType : source.type = target.type) {resident : Resident}
    (hLives : resident.Lives backend.rows) (hRoot : resident.slot = source) {updated : Entity}
    (hKeeps : Entity.Keeps resident.entity updated) (hName : updated.name = target.name)
    {relocations : List Relocation}
    (hOk : relocateTree backend source.name resident.version.stamp updated target.name =
      .ok relocations) :
    ¬ backend.rows.IsLive target ∧ ∃ moves : List Move, relocations = moves.map Move.relocation ∧
      IsSubtree backend.rows source (moves.map (·.resident)) ∧
      (∀ move ∈ moves, move.Leads backend.rows source target) ∧
      ∀ move ∈ moves, move.resident.slot = source → move.entity = updated := by
  subst hRoot
  obtain ⟨found, floor, others, hFound, hFree, hFloor, hOthers, rfl⟩ := relocateTree_parts hOk
  have hUpdated : updated.type = resident.slot.type :=
    hKeeps.type.trans (Entity.type_of_decode hLives.decoded)
  have hStem : Key.entity updated.type target.name = target.stem := by
    rw [hUpdated, hType]
    rfl
  rw [hStem] at hFound hFloor ⊢
  rw [hUpdated] at hOthers ⊢
  have hNewest := latest?_eq_ok hFound
  refine ⟨?_, ?_⟩
  · rintro ⟨version, hVersion, hFlag⟩
    rw [hNewest, hVersion, Option.any_some, hFlag] at hFree
    cases hFree
  · obtain ⟨dead, hDead, hEach⟩ := relocateRanges_eq_ok hOthers
    obtain ⟨residents, rfl, hBelow⟩ := exists_residents hFormed hDead
    obtain ⟨moves, rfl, rfl, hLeads⟩ :=
      relocateAll_eq_ok hFormed hType hBelow.lives hBelow.inside hEach
    obtain ⟨hAfter, hAfterGoal, hOrigin⟩ := floorAt_eq_ok hFloor
    have hTag := (hFormed.name_of_holds hLives.holds).2.1
    have hFirst : (Move.mk resident target updated floor).Leads backend.rows resident.slot target :=
      ⟨⟨[], (List.append_nil _).symm, (List.append_nil _).symm⟩, hType.symm, hKeeps.id,
        hUpdated.trans hType, hName, by rw [hKeeps.tag, hKeeps.id]; exact hTag, hAfter, hAfterGoal,
        hOrigin, fun hOther => absurd rfl hOther⟩
    refine ⟨⟨resident, target, updated, floor⟩ :: moves, rfl, .cons hLives hBelow,
      List.forall_mem_cons.mpr ⟨hFirst, hLeads⟩,
      List.forall_mem_cons.mpr ⟨fun _ => rfl, fun move hMem hSame => ?_⟩⟩
    exact absurd (congrArg Slot.path hSame).symm
      (hBelow.inside _ (List.mem_map.mpr ⟨move, hMem, rfl⟩)).2

end Catalog

end VersionedCatalog
