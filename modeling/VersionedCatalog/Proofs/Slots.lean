import VersionedCatalog.Proofs.Keys

/-! # Slots

A slot is a place in the catalog where an entity may be: a type and a valid name that is as deep as
entities of the type lie. The stems of slots are the beginnings of the version keys, and different
slots have different ones. Every slot that is not of a metalake has a parent (`Slot.exists_parent`),
and a slot is below another one when its path goes on from the path of the other.
-/

namespace VersionedCatalog

structure Slot where
  type : EntityType
  name : Name
  fits : name.scope.depth = type.depth
  valid : name.IsValid

namespace Slot

def path (slot : Slot) : List String := slot.name.path

/-- What the keys of all versions in a slot start with. -/
def stem (slot : Slot) : Bytes := Key.entity slot.type slot.name

def key (slot : Slot) (stamp : Stamp) : Bytes := Key.version slot.stem stamp

theorem eq_of_parts {a b : Slot} (hType : a.type = b.type) (hName : a.name = b.name) : a = b := by
  cases a
  cases b
  cases hType
  cases hName
  rfl

theorem eq_of_path {a b : Slot} (hType : a.type = b.type) (hPath : a.path = b.path) : a = b :=
  eq_of_parts hType (Name.path_injective hPath)

theorem length_path (slot : Slot) : slot.path.length = slot.type.depth + 1 := by
  rw [path, Name.length_path, slot.fits]

theorem stem_injective {a b : Slot} (hStem : a.stem = b.stem) : a = b := by
  obtain ⟨hType, hName⟩ := Key.entity_injective a.fits b.fits hStem
  exact eq_of_parts hType hName

theorem stem_ne_nil (slot : Slot) : slot.stem ≠ [] := Key.entity_ne_nil slot.type slot.name

theorem decodeEntity_stem (slot : Slot) : Key.decodeEntity slot.stem = .ok (slot.type, slot.name) :=
  Key.decodeEntity_entity slot.fits slot.valid

theorem key_injective {a b : Slot} {stamp other : Stamp} (hKey : a.key stamp = b.key other) :
    a = b ∧ stamp = other := by
  obtain ⟨hStem, hStamp⟩ := Key.version_injective hKey
  exact ⟨stem_injective hStem, hStamp⟩

theorem key_lt_key_iff (slot : Slot) {a b : Stamp} : slot.key a < slot.key b ↔ a < b :=
  Key.version_lt_version_iff slot.stem

theorem key_ne_id (slot : Slot) (stamp : Stamp) (owner : EntityId) :
    slot.key stamp ≠ Key.id owner := Key.version_ne_id slot.type slot.name stamp owner

theorem key_ne_watermark (slot : Slot) (stamp : Stamp) : slot.key stamp ≠ Key.watermark :=
  Key.version_ne_watermark slot.type slot.name stamp

theorem stem_isPrefix_key_iff {a b : Slot} {stamp : Stamp} : a.stem <+: b.key stamp ↔ a = b := by
  refine (Key.entity_isPrefix_version_iff a.fits b.fits stamp).trans ⟨?_, ?_⟩
  · rintro ⟨hType, hName⟩
    exact eq_of_parts hType hName
  · rintro rfl
    exact ⟨rfl, rfl⟩

theorem typed_isPrefix_key_iff {type : EntityType} {path : List String} {slot : Slot}
    {stamp : Stamp} (hLength : path.length ≤ type.depth + 1) :
    Key.typed type path <+: slot.key stamp ↔ type = slot.type ∧ path <+: slot.path :=
  Key.typed_isPrefix_version_iff slot.fits hLength

/-! ### Parents -/

structure IsParentOf (parent slot : Slot) : Prop where
  type : slot.type.parent? = some parent.type
  name : slot.name.parent? = some parent.name

theorem IsParentOf.path_eq {parent slot : Slot} (hParent : parent.IsParentOf slot) :
    slot.path = parent.path ++ [slot.name.leaf] := Name.path_of_parent? hParent.name

theorem exists_parent {slot : Slot} (hType : slot.type ≠ .metalake) :
    ∃ parent : Slot, parent.IsParentOf slot := by
  have hDepth : 0 < slot.type.depth := by
    cases hCase : slot.type with
    | metalake => exact absurd hCase hType
    | _ => decide
  obtain ⟨type, hParentType⟩ := EntityType.exists_parent? hDepth
  obtain ⟨name, hName⟩ := Name.exists_parent? (slot.fits ▸ hDepth)
  have hLevels := EntityType.depth_of_parent? hParentType
  have hScope := Name.depth_of_parent? hName
  have hFits : name.scope.depth = type.depth := by
    have hSlot := slot.fits
    omega
  refine ⟨⟨type, name, hFits, fun part hMem => slot.valid part ?_⟩, hParentType, hName⟩
  rw [Name.path_of_parent? hName]
  exact List.mem_append_left _ hMem

/-! ### Slots above and below -/

/-- A slot whose path goes on from the path of another one. -/
def IsBelow (slot other : Slot) : Prop := other.path <+: slot.path ∧ other.path ≠ slot.path

theorem IsBelow.depth_lt {slot other : Slot} (hBelow : slot.IsBelow other) :
    other.type.depth < slot.type.depth := by
  obtain ⟨hPrefix, hNe⟩ := hBelow
  have hLength := hPrefix.length_le
  have hSame : other.path.length ≠ slot.path.length := fun hEq => hNe (hPrefix.eq_of_length hEq)
  rw [length_path, length_path] at hLength hSame
  omega

theorem IsParentOf.isBelow {parent slot : Slot} (hParent : parent.IsParentOf slot) :
    slot.IsBelow parent := by
  refine ⟨⟨_, hParent.path_eq.symm⟩, fun hEq => ?_⟩
  have hLength := congrArg List.length hEq
  rw [hParent.path_eq, List.length_append, List.length_singleton] at hLength
  omega

/-- Above the last layer a slot is told by its path. -/
theorem eq_of_path_of_depth {a b : Slot} (hPath : a.path = b.path) (hUpper : a.type.depth < 3) :
    a = b := by
  have hLength := congrArg List.length hPath
  rw [length_path, length_path] at hLength
  exact eq_of_path (EntityType.eq_of_depth (by omega) hUpper) hPath

/-- What is below a slot is a child of it or below a parent that is below it. -/
theorem IsBelow.parent {slot other : Slot} (hBelow : slot.IsBelow other) :
    ∃ parent : Slot, parent.IsParentOf slot ∧ (parent = other ∨ parent.IsBelow other) := by
  have hDepth := hBelow.depth_lt
  have hNotRoot : slot.type ≠ .metalake := fun hEq => by
    rw [hEq] at hDepth
    exact absurd hDepth (Nat.not_lt_zero _)
  obtain ⟨parent, hParent⟩ := exists_parent hNotRoot
  refine ⟨parent, hParent, ?_⟩
  have hPrefix : other.path <+: parent.path := by
    refine List.prefix_of_prefix_length_le hBelow.1 ⟨_, hParent.path_eq.symm⟩ ?_
    have hLayer := EntityType.depth_of_parent? hParent.type
    rw [length_path, length_path]
    omega
  by_cases hEq : other.path = parent.path
  · have hUpper : other.type.depth < 3 := by
      have hLimit := slot.type.depth_le
      omega
    exact Or.inl (eq_of_path_of_depth hEq hUpper).symm
  · exact Or.inr ⟨hPrefix, hEq⟩

theorem isBelow_iff_deeper {slot other : Slot} :
    slot.IsBelow other ↔ slot.type ∈ other.type.deeper ∧ other.path <+: slot.path := by
  rw [EntityType.mem_deeper_iff]
  constructor
  · intro hBelow
    exact ⟨hBelow.depth_lt, hBelow.1⟩
  · rintro ⟨hDepth, hPrefix⟩
    refine ⟨hPrefix, fun hEq => ?_⟩
    have hLength := congrArg List.length hEq
    rw [length_path, length_path] at hLength
    omega

theorem isAncestorOf_iff_isBelow {slot other : Slot} :
    other.name.isAncestorOf slot.name = true ↔ slot.IsBelow other := Name.isAncestorOf_iff

/-! ### Moving a slot -/

/-- What is below one slot can be moved below another one of the same type. -/
theorem exists_moved {slot source target : Slot} (hBelow : slot.IsBelow source)
    (hType : source.type = target.type) :
    ∃ moved : Slot, moved.type = slot.type ∧ moved.IsBelow target ∧
      slot.name.rebase? source.name target.name = some moved.name := by
  obtain ⟨name, hName⟩ := Name.exists_rebase? target.name (isAncestorOf_iff_isBelow.mpr hBelow)
  obtain ⟨rest, hSome, hPath, hGoal⟩ := Name.path_of_rebase? hName
  have hLengths : name.path.length = slot.path.length := by
    have hSource := source.length_path
    have hTarget := target.length_path
    simp only [path] at hSource hTarget ⊢
    rw [hGoal, hPath, List.length_append, List.length_append, hSource, hTarget, hType]
  have hFits : name.scope.depth = slot.type.depth := by
    rw [length_path, Name.length_path] at hLengths
    omega
  refine ⟨⟨slot.type, name, hFits, Name.isValid_of_rebase? slot.valid target.valid hName⟩, rfl,
    ⟨⟨rest, hGoal.symm⟩, fun hEq => hSome ?_⟩, hName⟩
  have hCancel : target.name.path ++ rest = target.name.path ++ [] := by
    rw [List.append_nil, ← hGoal]
    exact hEq.symm
  exact List.append_cancel_left hCancel

/-- Whether a slot is another one or lies below it. -/
def IsIn (slot root : Slot) : Prop := slot = root ∨ slot.IsBelow root

/-- A slot in one subtree, and the slot at the same place in another one. -/
structure Goes (source target old new : Slot) : Prop where
  inside : old.IsIn source
  type : new.type = old.type
  place : ∃ rest, old.path = source.path ++ rest ∧ new.path = target.path ++ rest

section
variable {source target goal old middle new slot : Slot}

theorem IsIn.isPrefix (hIn : slot.IsIn source) : source.path <+: slot.path := by
  rcases hIn with rfl | hBelow
  · exact List.prefix_rfl
  · exact hBelow.1

/-- Different slots of one type have nothing below both of them. -/
theorem IsIn.eq_of_type (hIn : slot.IsIn source) (hOther : slot.IsIn target)
    (hType : target.type = source.type) : target = source := by
  have hLengths : target.path.length = source.path.length := by
    rw [length_path, length_path, hType]
  refine eq_of_path hType ?_
  exact (List.prefix_of_prefix_length_le hOther.isPrefix hIn.isPrefix
    (Nat.le_of_eq hLengths)).eq_of_length hLengths

namespace Goes

theorem root (hType : target.type = source.type) : Goes source target source target :=
  ⟨Or.inl rfl, hType, [], (List.append_nil _).symm, (List.append_nil _).symm⟩

theorem self (hIn : old.IsIn source) : Goes source source old old := by
  obtain ⟨rest, hRest⟩ := hIn.isPrefix
  exact ⟨hIn, rfl, rest, hRest.symm, hRest.symm⟩

theorem eq (hGoes : Goes source target old new) (hOther : Goes source target old slot) :
    slot = new := by
  obtain ⟨rest, hPath, hGoal⟩ := hGoes.place
  obtain ⟨other, hSame, hThere⟩ := hOther.place
  have hRest : rest = other := List.append_cancel_left (hPath.symm.trans hSame)
  exact eq_of_path (hOther.type.trans hGoes.type.symm) (by rw [hThere, hGoal, hRest])

theorem eq_self (hGoes : Goes source source old new) : new = old :=
  (self hGoes.inside).eq hGoes

theorem root_iff (hGoes : Goes source target old new) (hType : target.type = source.type) :
    old = source ↔ new = target := by
  constructor
  · rintro rfl
    exact (root hType).eq hGoes
  · rintro rfl
    obtain ⟨rest, hPath, hGoal⟩ := hGoes.place
    have hNil : rest = [] :=
      List.append_cancel_left ((List.append_nil _).trans hGoal).symm
    rw [hNil, List.append_nil] at hPath
    rcases hGoes.inside with hRoot | hBelow
    · exact hRoot
    · exact absurd hPath.symm hBelow.2

theorem inside_target (hGoes : Goes source target old new) (hType : target.type = source.type) :
    new.IsIn target := by
  rcases hGoes.inside with hRoot | hBelow
  · exact Or.inl ((hGoes.root_iff hType).mp hRoot)
  · obtain ⟨rest, hPath, hGoal⟩ := hGoes.place
    refine Or.inr ⟨⟨rest, hGoal.symm⟩, ?_⟩
    intro hSame
    have hNil : rest = [] :=
      List.append_cancel_left ((List.append_nil _).trans (hSame.trans hGoal)).symm
    exact hBelow.2 (by rw [hPath, hNil, List.append_nil])

theorem symm (hGoes : Goes source target old new) (hType : target.type = source.type) :
    Goes target source new old := by
  obtain ⟨rest, hPath, hGoal⟩ := hGoes.place
  exact ⟨hGoes.inside_target hType, hGoes.type.symm, rest, hGoal, hPath⟩

theorem trans (hFirst : Goes source target old middle) (hSecond : Goes target goal middle new) :
    Goes source goal old new := by
  obtain ⟨rest, hPath, hThere⟩ := hFirst.place
  obtain ⟨other, hAgain, hGoal⟩ := hSecond.place
  have hRest : rest = other := List.append_cancel_left (hThere.symm.trans hAgain)
  exact ⟨hFirst.inside, hSecond.type.trans hFirst.type, rest, hPath, hRest ▸ hGoal⟩

end Goes

/-- Everything in one subtree has its place in another one. -/
theorem exists_goes (hIn : old.IsIn source) (hType : target.type = source.type) :
    ∃ new, Goes source target old new := by
  rcases hIn with rfl | hBelow
  · exact ⟨target, .root hType⟩
  · obtain ⟨new, hNew, _, hRebase⟩ := exists_moved hBelow hType.symm
    obtain ⟨rest, _, hPath, hGoal⟩ := Name.path_of_rebase? hRebase
    exact ⟨new, Or.inr hBelow, hNew, rest, hPath, hGoal⟩

end

end Slot

end VersionedCatalog
