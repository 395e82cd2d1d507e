import VersionedCatalog.Proofs.Slots

/-! # The order and the ranges of keys

A zero byte inside a part is followed by FF and the end of a part is 00 01, so where one part ends and
another goes on the shorter one comes first, as its text does (`Key.part_append_lt_iff`). Whatever
follows the parts, stamps included, counts only where the parts are equal.

* `Slot.key_lt_iff`: version keys have the order of the codes of the types, then of the paths, part
  by part as bytes, then of the stamps.
* `Slot.children_isPrefix_key_iff`, `Slot.descendants_isPrefix_key_iff`: the keys that start with the
  stem of a namespace or of what is below a name are those of the entities there.
* `Slot.keys_exact`: both together, with the index and the watermark outside of all these ranges.
-/

namespace VersionedCatalog

namespace Key

theorem escape_append_lt_iff (b d : UInt8) (x y : Bytes) :
    escape b ++ x < escape d ++ y ↔ b < d ∨ b = d ∧ x < y := by
  by_cases hB : b = 0 <;> by_cases hD : d = 0
  · subst hB hD
    simp [escape]
  · subst hB
    have hLess : (0 : UInt8) < d := UInt8.pos_iff_ne_zero.mpr hD
    simp [escape, hD, List.cons_lt_cons_iff, hLess]
  · subst hD
    simp [escape, hB, List.cons_lt_cons_iff]
  · simp [escape, hB, hD, List.cons_lt_cons_iff]

/-- An escaped byte comes after the end of a part. -/
theorem end_lt_escape (d : UInt8) (x y : Bytes) : [0, 1] ++ x < escape d ++ y := by
  by_cases hD : d = 0
  · subst hD
    have hEnd : (1 : UInt8) < 0xFF := by decide
    simp [escape, List.cons_lt_cons_iff, hEnd]
  · have hLess : (0 : UInt8) < d := UInt8.pos_iff_ne_zero.mpr hD
    simp [escape, hD, List.cons_lt_cons_iff, hLess]

theorem escaped_lt_iff (a b x y : Bytes) :
    a.flatMap escape ++ ([0, 1] ++ x) < b.flatMap escape ++ ([0, 1] ++ y) ↔
      a < b ∨ a = b ∧ x < y := by
  induction a generalizing b with
  | nil =>
    cases b with
    | nil => simp [List.lt_irrefl]
    | cons d b =>
      rw [List.flatMap_nil, List.nil_append, List.flatMap_cons, List.append_assoc]
      exact iff_of_true (end_lt_escape d x _) (Or.inl (List.nil_lt_cons d b))
  | cons c a ih =>
    rw [List.flatMap_cons, List.append_assoc]
    cases b with
    | nil =>
      rw [List.flatMap_nil, List.nil_append]
      have hAfter := List.lt_asymm (end_lt_escape c y (a.flatMap escape ++ ([0, 1] ++ x)))
      exact iff_of_false hAfter (by simp)
    | cons d b =>
      rw [List.flatMap_cons, List.append_assoc, escape_append_lt_iff, ih, List.cons_lt_cons_iff,
        List.cons.injEq, and_or_left, or_assoc, and_assoc]

theorem part_append_lt_iff (a b : String) (x y : Bytes) :
    part a ++ x < part b ++ y ↔ Utf8.encode a < Utf8.encode b ∨ a = b ∧ x < y := by
  rw [part, part, List.append_assoc, List.append_assoc, escaped_lt_iff]
  refine or_congr_right (and_congr_left fun _ => ⟨Utf8.encode_injective, fun hSame => by rw [hSame]⟩)

theorem parts_append_lt_iff {path other : List String} (x y : Bytes)
    (hLength : path.length = other.length) :
    path.flatMap part ++ x < other.flatMap part ++ y ↔
      path.map Utf8.encode < other.map Utf8.encode ∨ path = other ∧ x < y := by
  induction path generalizing other with
  | nil =>
    have hNil : other = [] := List.length_eq_zero_iff.mp hLength.symm
    simp [hNil, List.lt_irrefl]
  | cons a path ih =>
    cases other with
    | nil => cases hLength
    | cons b other =>
      have hFirst : Utf8.encode a = Utf8.encode b ↔ a = b :=
        ⟨Utf8.encode_injective, fun hSame => by rw [hSame]⟩
      rw [List.flatMap_cons, List.flatMap_cons, List.append_assoc, List.append_assoc,
        part_append_lt_iff, ih (Nat.succ.inj hLength), List.map_cons, List.map_cons,
        List.cons_lt_cons_iff, List.cons.injEq, hFirst, and_or_left, or_assoc, and_assoc]

/-- A stem that no key of the index and not the watermark begins with. -/
def IsOfVersions (stem : Bytes) : Prop := (∀ owner, ¬ stem <+: id owner) ∧ ¬ stem <+: watermark

theorem typed_isOfVersions (type : EntityType) (path : List String) :
    IsOfVersions (typed type path) :=
  ⟨not_typed_isPrefix_id type path, not_typed_isPrefix_watermark type path⟩

end Key

namespace Slot

/-- A version comes before another one: by the code of its type, then by the parts of its path as
bytes, then by its stamp. -/
def Precedes (slot : Slot) (stamp : Stamp) (other : Slot) (later : Stamp) : Prop :=
  slot.type.code < other.type.code ∨ slot.type.code = other.type.code ∧
    (slot.path.map Utf8.encode < other.path.map Utf8.encode ∨
      slot.path.map Utf8.encode = other.path.map Utf8.encode ∧
        (stamp.millis < later.millis ∨ stamp.millis = later.millis ∧ stamp.seq < later.seq))

instance (slot other : Slot) (stamp later : Stamp) :
    Decidable (slot.Precedes stamp other later) :=
  inferInstanceAs (Decidable (_ ∨ _))

theorem map_encode_inj {path other : List String} :
    path.map Utf8.encode = other.map Utf8.encode ↔ path = other :=
  List.map_inj_right fun _ _ => Utf8.encode_injective

theorem key_lt_iff {slot other : Slot} {stamp later : Stamp} :
    slot.key stamp < other.key later ↔ slot.Precedes stamp other later := by
  have hKeys : ∀ (slot : Slot) (stamp : Stamp),
      slot.key stamp = slot.type.code :: (slot.path.flatMap Key.part ++ stamp.bytes) :=
    fun _ _ => rfl
  rw [hKeys, hKeys, List.cons_lt_cons_iff, Precedes]
  refine or_congr_right (and_congr_right fun hCode => ?_)
  -- one code is one type, and the paths of one type are equally long
  have hLength : slot.path.length = other.path.length := by
    rw [length_path, length_path, EntityType.code_injective hCode]
  rw [Key.parts_append_lt_iff _ _ hLength, map_encode_inj, Stamp.bytes_lt_iff]
  rfl

theorem children_isPrefix_key_iff {type : EntityType} {scope : Namespace}
    (hDepth : scope.depth = type.depth) {slot : Slot} {stamp : Stamp} :
    Key.children type scope <+: slot.key stamp ↔ type = slot.type ∧ scope = slot.name.scope := by
  have hShort : scope.levels.length ≤ type.depth + 1 := Nat.le_succ_of_le (Nat.le_of_eq hDepth)
  rw [Key.children, typed_isPrefix_key_iff hShort]
  refine and_congr_right fun hType => ⟨fun hPrefix => ?_, fun hSame => ?_⟩
  · have hLength : scope.levels.length = slot.name.scope.levels.length := by
      have hFits := slot.fits
      rw [← hType, ← hDepth] at hFits
      exact hFits.symm
    obtain ⟨rest, hPath⟩ := hPrefix
    have hLevels := (List.append_inj hPath hLength).1
    cases scope
    exact congrArg Namespace.mk hLevels
  · rw [hSame]
    exact List.prefix_append _ _

theorem descendants_isPrefix_key_iff {above slot : Slot} {type : EntityType} {stem : Bytes}
    (hStem : (type, stem) ∈ Key.descendants above.type above.name) {stamp : Stamp} :
    stem <+: slot.key stamp ↔ type = slot.type ∧ above.name.isAncestorOf slot.name = true := by
  obtain ⟨_, hDeeper, hPair⟩ := List.mem_map.mp hStem
  cases hPair
  have hDepth := EntityType.mem_deeper_iff.mp hDeeper
  have hShort : above.path.length ≤ type.depth + 1 := by
    rw [length_path]
    exact Nat.succ_le_succ (Nat.le_of_lt hDepth)
  rw [← path, typed_isPrefix_key_iff hShort, isAncestorOf_iff_isBelow, isBelow_iff_deeper]
  exact and_congr_right fun hType => (and_iff_right (hType ▸ hDeeper)).symm

/-- **Keys are exact.**  Version keys order like types, paths and stamps; the stem of a name begins
the keys of that name only, the stem of a namespace those of the entities in it, and the stems of
what is below a name those of the entities below it, for every type that lies deeper. No key of the
index and not the watermark begins with any of them. -/
theorem keys_exact (slot other : Slot) (stamp later : Stamp) :
    (slot.key stamp < other.key later ↔ slot.Precedes stamp other later) ∧
    ((other.stem <+: slot.key stamp ↔ other.type = slot.type ∧ other.name = slot.name) ∧
      Key.IsOfVersions other.stem) ∧
    (∀ (type : EntityType) (scope : Namespace), scope.depth = type.depth →
      (Key.children type scope <+: slot.key stamp ↔ type = slot.type ∧ scope = slot.name.scope) ∧
      Key.IsOfVersions (Key.children type scope)) ∧
    (other.name.isAncestorOf slot.name = true →
      ∃ stem, (slot.type, stem) ∈ Key.descendants other.type other.name) ∧
    ∀ (type : EntityType) (stem : Bytes), (type, stem) ∈ Key.descendants other.type other.name →
      (stem <+: slot.key stamp ↔
        type = slot.type ∧ other.name.isAncestorOf slot.name = true) ∧
      Key.IsOfVersions stem := by
  refine ⟨key_lt_iff, ⟨?_, Key.typed_isOfVersions _ _⟩, ?_, ?_, ?_⟩
  · rw [stem_isPrefix_key_iff]
    refine ⟨fun hSame => by rw [hSame]; exact ⟨rfl, rfl⟩, ?_⟩
    rintro ⟨hType, hName⟩
    exact eq_of_parts hType hName
  · intro type scope hDepth
    exact ⟨children_isPrefix_key_iff hDepth, Key.typed_isOfVersions _ _⟩
  · intro hAbove
    have hDeeper := (isBelow_iff_deeper.mp (isAncestorOf_iff_isBelow.mp hAbove)).1
    exact ⟨_, List.mem_map.mpr ⟨slot.type, hDeeper, rfl⟩⟩
  · intro type stem hStem
    refine ⟨descendants_isPrefix_key_iff hStem, ?_⟩
    obtain ⟨_, _, hPair⟩ := List.mem_map.mp hStem
    cases hPair
    exact Key.typed_isOfVersions _ _

end Slot

namespace Sample

/-- A schema in a catalog that has a zero character in its name. -/
def zeroSlot : Slot := ⟨.schema, ⟨⟨["lake", "a\u0000b"]⟩, "raw"⟩, rfl, by decide +kernel⟩

/-- A catalog whose name the catalog above goes on from. -/
def shortSlot : Slot := ⟨.catalog, ⟨⟨["lake"]⟩, "a"⟩, rfl, by decide +kernel⟩

/-- The schema is in the range of its own namespace and not in that of the shorter one, and the keys
below the catalog with the shorter name do not take it in. -/
theorem keys_exact_zeroSlot :
    (Namespace.mk ["lake", "a"]).depth = EntityType.schema.depth ∧
    ¬ zeroSlot.key .zero < shortSlot.key .last ∧
    Key.children .schema zeroSlot.name.scope <+: zeroSlot.key .zero ∧
    ¬ Key.children .schema ⟨["lake", "a"]⟩ <+: zeroSlot.key .zero ∧
    (EntityType.schema, Key.typed .schema shortSlot.path) ∈
      Key.descendants .catalog shortSlot.name ∧
    ¬ Key.typed .schema shortSlot.path <+: zeroSlot.key .zero := by
  obtain ⟨hOrder, _, hChildren, _, hBelow⟩ :=
    Slot.keys_exact zeroSlot shortSlot .zero .last
  have hMem : (EntityType.schema, Key.typed .schema shortSlot.path) ∈
      Key.descendants .catalog shortSlot.name := by decide +kernel
  refine ⟨rfl, fun hLess => absurd (hOrder.mp hLess) (by decide +kernel),
    (hChildren _ _ rfl).1.mpr ⟨rfl, rfl⟩, ?_, hMem, ?_⟩
  · rw [(hChildren .schema ⟨["lake", "a"]⟩ rfl).1]
    decide
  · rw [(hBelow .schema _ hMem).1]
    decide

end Sample

end VersionedCatalog
