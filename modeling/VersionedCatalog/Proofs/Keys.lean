import VersionedCatalog.Proofs.Names
import VersionedCatalog.Proofs.Outcomes
import VersionedCatalog.Proofs.Stamps

/-! # Keys and what they say

No part of a path is the beginning of another one, so the keys that start with the stem of a type
and a path are those of the type whose paths start with that path (`Key.typed_isPrefix_version_iff`).
With a whole path only the versions of one entity are left. A stem decodes to the type and the name
it was made of (`Key.decodeEntity_entity`).
-/

namespace VersionedCatalog

namespace EntityType

theorem code_injective {a b : EntityType} (hCode : a.code = b.code) : a = b := by
  have hDecode := ofCode?_code a
  rw [hCode, ofCode?_code b] at hDecode
  exact (Option.some.inj hDecode).symm

theorem mem_all (type : EntityType) : type ∈ all := by cases type <;> decide

theorem mem_deeper_iff {type other : EntityType} :
    other ∈ type.deeper ↔ type.depth < other.depth := by
  simp [deeper, mem_all]

theorem depth_le (type : EntityType) : type.depth ≤ 3 := by cases type <;> decide

theorem depth_of_parent? {type parent : EntityType} (hParent : type.parent? = some parent) :
    type.depth = parent.depth + 1 := by
  cases type <;> cases hParent <;> rfl

theorem exists_parent? {type : EntityType} (hDepth : 0 < type.depth) :
    ∃ parent, type.parent? = some parent := by
  cases type
  case metalake => exact absurd hDepth (Nat.lt_irrefl 0)
  all_goals exact ⟨_, rfl⟩

/-- Above the last layer a layer has one type. -/
theorem eq_of_depth {a b : EntityType} (hSame : a.depth = b.depth) (hUpper : a.depth < 3) :
    a = b := by
  cases a <;> cases b <;> first | rfl | (simp [depth] at hSame hUpper)

end EntityType

namespace Key

theorem splitPart?_escape (bytes rest : Bytes) :
    splitPart? (bytes.flatMap escape ++ [0, 1] ++ rest) = some (bytes, rest) := by
  rw [List.append_assoc]
  induction bytes with
  | nil => simp [splitPart?]
  | cons b bytes ih =>
    by_cases hZero : b = 0
    · subst hZero
      rw [List.cons_append, List.cons_append, List.nil_append] at ih
      simp [splitPart?, escape, ih]
    · have hEscape : escape b = [b] := if_neg hZero
      rw [List.flatMap_cons, hEscape, List.append_assoc, List.singleton_append]
      -- something always follows: the next escaped byte or the end of the part
      cases hNext : bytes.flatMap escape ++ ([0, 1] ++ rest) with
      | nil => simp at hNext
      | cons next others =>
        rw [hNext] at ih
        simp [splitPart?, hZero, ih]

theorem splitPart?_part (text : String) (rest : Bytes) :
    splitPart? (part text ++ rest) = some (Utf8.encode text, rest) :=
  splitPart?_escape (Utf8.encode text) rest

/-- No part is the beginning of another one. -/
theorem part_append_isPrefix {a b : String} {x y : Bytes} (hPrefix : part a ++ x <+: part b ++ y) :
    a = b ∧ x <+: y := by
  obtain ⟨z, hEq⟩ := hPrefix
  have hSplit := splitPart?_part b y
  rw [← hEq, List.append_assoc, splitPart?_part, Option.some.injEq, Prod.mk.injEq] at hSplit
  exact ⟨Utf8.encode_injective hSplit.1, ⟨z, hSplit.2⟩⟩

theorem flatMap_part_isPrefix_iff {path other : List String} {rest : Bytes}
    (hLength : path.length ≤ other.length) :
    path.flatMap part <+: other.flatMap part ++ rest ↔ path <+: other := by
  constructor
  · intro hPrefix
    induction path generalizing other with
    | nil => exact List.nil_prefix
    | cons a path ih =>
      cases other with
      | nil => simp at hLength
      | cons b other =>
        rw [List.flatMap_cons, List.flatMap_cons, List.append_assoc] at hPrefix
        obtain ⟨rfl, hTail⟩ := part_append_isPrefix hPrefix
        exact List.cons_prefix_cons.mpr ⟨rfl, ih (by simpa using hLength) hTail⟩
  · rintro ⟨tail, rfl⟩
    rw [List.flatMap_append, List.append_assoc]
    exact List.prefix_append _ _

theorem typed_isPrefix_iff {type other : EntityType} {path longer : List String} {rest : Bytes}
    (hLength : path.length ≤ longer.length) :
    typed type path <+: typed other longer ++ rest ↔ type = other ∧ path <+: longer := by
  rw [typed, typed, List.cons_append, List.cons_prefix_cons, flatMap_part_isPrefix_iff hLength]
  refine and_congr_left fun _ => ⟨EntityType.code_injective, fun hSame => by rw [hSame]⟩

/-- Below the stem of a type and a path are the versions of the names that start with the path. -/
theorem typed_isPrefix_version_iff {type other : EntityType} {path : List String} {name : Name}
    {stamp : Stamp} (hDepth : name.scope.depth = other.depth)
    (hLength : path.length ≤ type.depth + 1) :
    typed type path <+: version (entity other name) stamp ↔ type = other ∧ path <+: name.path := by
  by_cases hType : type = other
  · subst hType
    exact typed_isPrefix_iff (by rw [Name.length_path, hDepth]; exact hLength)
  · refine iff_of_false (fun hPrefix => hType ?_) fun hBoth => hType hBoth.1
    rw [version, entity, typed, typed, List.cons_append, List.cons_prefix_cons] at hPrefix
    exact EntityType.code_injective hPrefix.1

theorem entity_isPrefix_version_iff {type other : EntityType} {name goal : Name}
    (hName : name.scope.depth = type.depth) (hGoal : goal.scope.depth = other.depth)
    (stamp : Stamp) :
    entity type name <+: version (entity other goal) stamp ↔ type = other ∧ name = goal := by
  rw [entity, typed_isPrefix_version_iff hGoal (Nat.le_of_eq (by rw [Name.length_path, hName]))]
  refine and_congr_right fun hType => ⟨fun hPrefix => ?_, fun hSame => hSame ▸ List.prefix_rfl⟩
  subst hType
  exact Name.path_injective (hPrefix.eq_of_length (by
    rw [Name.length_path, Name.length_path, hName, hGoal]))

theorem entity_injective {type other : EntityType} {name goal : Name}
    (hName : name.scope.depth = type.depth) (hGoal : goal.scope.depth = other.depth)
    (hStem : entity type name = entity other goal) : type = other ∧ name = goal := by
  rw [← entity_isPrefix_version_iff hName hGoal .zero, hStem]
  exact List.prefix_append _ _

theorem entity_ne_nil (type : EntityType) (name : Name) : entity type name ≠ [] := by
  simp [entity, typed]

theorem id_injective {a b : EntityId} (hKey : id a = id b) : a = b := by
  have hDecode := EntityId.ofBytes?_bytes a
  rw [(List.cons.inj hKey).2, EntityId.ofBytes?_bytes b] at hDecode
  exact (Option.some.inj hDecode).symm

theorem code_ne_idStem (type : EntityType) : type.code ≠ idStem := by cases type <;> decide

theorem code_ne_watermark (type : EntityType) : type.code ≠ 0xF1 := by cases type <;> decide

/-- The index and the watermark are below no stem of a type. -/
theorem not_typed_isPrefix_id (type : EntityType) (path : List String) (owner : EntityId) :
    ¬ typed type path <+: id owner := fun hPrefix =>
  code_ne_idStem type (List.cons_prefix_cons.mp hPrefix).1

theorem not_typed_isPrefix_watermark (type : EntityType) (path : List String) :
    ¬ typed type path <+: watermark := fun hPrefix =>
  code_ne_watermark type (List.cons_prefix_cons.mp hPrefix).1

theorem version_ne_id (type : EntityType) (name : Name) (stamp : Stamp) (owner : EntityId) :
    version (entity type name) stamp ≠ id owner := fun hKey =>
  code_ne_idStem type (List.cons.inj hKey).1

theorem version_ne_watermark (type : EntityType) (name : Name) (stamp : Stamp) :
    version (entity type name) stamp ≠ watermark := fun hKey =>
  code_ne_watermark type (List.cons.inj hKey).1

theorem id_ne_watermark (owner : EntityId) : id owner ≠ watermark := fun hKey => by
  have hHead := (List.cons.inj hKey).1
  exact absurd hHead (by decide)

/-! ### Decoding a stem -/

theorem takePart_part (text : String) (rest : Bytes) :
    takePart (part text ++ rest) = .ok (text, rest) := by
  rw [takePart, splitPart?_part]
  simp only [Utf8.decode?_encode]

theorem part_ne_nil (text : String) : part text ≠ [] := by
  simp [part]

theorem takeParts_flatMap (path : List String) {steps : Nat} (hSteps : path.length ≤ steps) :
    takeParts steps (path.flatMap part) = .ok path := by
  induction path generalizing steps with
  | nil => cases steps <;> simp [takeParts]
  | cons text path ih =>
    cases steps with
    | zero => simp at hSteps
    | succ steps =>
      have hSome : (part text ++ path.flatMap part).isEmpty = false := by
        simp [part]
      rw [List.flatMap_cons, takeParts, hSome, takePart_part]
      simp [ih (by simpa using hSteps)]

theorem length_le_flatMap_part (path : List String) :
    path.length ≤ (path.flatMap part).length := by
  induction path with
  | nil => simp
  | cons text path ih =>
    have hPart := List.length_pos_iff.mpr (part_ne_nil text)
    simp only [List.flatMap_cons, List.length_cons, List.length_append]
    omega

theorem decodeEntity_entity {type : EntityType} {name : Name}
    (hDepth : name.scope.depth = type.depth) (hValid : name.IsValid) :
    decodeEntity (entity type name) = .ok (type, name) := by
  have hPath := takeParts_flatMap name.path (length_le_flatMap_part name.path)
  have hLength : name.path.length = type.depth + 1 := by rw [Name.length_path, hDepth]
  simp only [entity, typed, decodeEntity, EntityType.ofCode?_code, hPath, Outcome.ok_bind, hLength]
  simp [Name.ofPath_path hValid]

end Key

end VersionedCatalog
