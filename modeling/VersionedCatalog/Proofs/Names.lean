import VersionedCatalog.Entity.Change
import VersionedCatalog.Proofs.Outcomes

/-! # Names and their paths

A name is its path, so what is said of names is said of paths: an ancestor is a name whose path goes
on (`Name.isAncestorOf_iff_goes_on`), the parent has the path without its last part, and moving a
name from below one name to below another one exchanges the two beginnings
(`Name.rebase?_eq_some_iff`). A name is valid if its parts are what a check lets pass; every way of
making a name gives a valid one. The pieces of a text are what lies between its dots
(`Name.piecesOfChars_eq_splitOn`), so a name that is read from a text has this text, and a valid
name is read back from its own (`Name.parse_text`).
-/

namespace VersionedCatalog

namespace NamePart

/-- Text that may be a part of a name: not empty and without reserved characters. -/
def IsSound (value : String) : Prop :=
  value.isEmpty = false ∧ value.toList.find? isReserved = none

instance (value : String) : Decidable (IsSound value) := inferInstanceAs (Decidable (_ ∧ _))

theorem check_eq_ok_iff (part : NamePart) (value : String) :
    part.check value = .ok () ↔ IsSound value := by
  unfold check IsSound
  cases hEmpty : value.isEmpty with
  | true => simp
  | false =>
    cases hFound : value.toList.find? isReserved with
    | none => simp
    | some found => simp

end NamePart

namespace Namespace

theorem checkLevels_eq_ok_iff (levels : List String) :
    checkLevels levels = .ok () ↔ ∀ level ∈ levels, NamePart.IsSound level := by
  induction levels with
  | nil => simp [checkLevels]
  | cons level rest ih =>
    rw [List.forall_mem_cons, ← ih, ← NamePart.check_eq_ok_iff .level, checkLevels]
    cases hCheck : NamePart.level.check level with
    | error error => simp [bind, Except.bind]
    | ok _ => simp [bind, Except.bind]

theorem of_ofLevels {levels : List String} {scope : Namespace}
    (hScope : ofLevels levels = .ok scope) :
    scope = ⟨levels⟩ ∧ ∀ level ∈ levels, NamePart.IsSound level := by
  unfold ofLevels at hScope
  split at hScope
  next => cases hScope
  next =>
    obtain ⟨_, hLevels, hLast⟩ := Outcome.bind_eq_ok hScope
    exact ⟨(Except.ok.inj hLast).symm, (checkLevels_eq_ok_iff levels).mp hLevels⟩

end Namespace

namespace Name

theorem path_injective {a b : Name} (hPath : a.path = b.path) : a = b := by
  obtain ⟨⟨levels⟩, leaf⟩ := a
  obtain ⟨⟨others⟩, other⟩ := b
  have hParts : levels ++ [leaf] = others ++ [other] := hPath
  obtain ⟨hLevels, hLeaf⟩ := List.append_inj' hParts rfl
  have hSame : leaf = other := List.singleton_inj.mp hLeaf
  rw [hLevels, hSame]

theorem length_path (name : Name) : name.path.length = name.scope.depth + 1 := by
  simp [path, Namespace.depth]

/-- Every part is what a check lets pass. -/
def IsValid (name : Name) : Prop := ∀ part ∈ name.path, NamePart.IsSound part

instance (name : Name) : Decidable name.IsValid :=
  inferInstanceAs (Decidable (∀ part ∈ name.path, NamePart.IsSound part))

theorem ofPath_path {name : Name} (hValid : name.IsValid) : ofPath name.path = .ok name := by
  obtain ⟨⟨levels⟩, leaf⟩ := name
  have hLevels : Namespace.checkLevels levels = .ok () :=
    (Namespace.checkLevels_eq_ok_iff levels).mpr fun level hMem =>
      hValid level (List.mem_append_left _ hMem)
  have hLeaf : NamePart.leaf.check leaf = .ok () :=
    (NamePart.check_eq_ok_iff .leaf leaf).mpr (hValid leaf (by simp [path]))
  have hLast : (levels ++ [leaf]).getLast? = some leaf := by simp
  have hInit : (levels ++ [leaf]).dropLast = levels := by simp
  simp only [path, ofPath, hLast, hInit]
  cases levels with
  | nil => simp [Namespace.root, of, hLeaf, bind, Except.bind, pure, Except.pure]
  | cons level rest =>
    simp [Namespace.ofLevels, of, hLeaf, hLevels, bind, Except.bind, pure, Except.pure]

theorem of_eq_ok {scope : Namespace} {leaf : String} {name : Name}
    (hOf : of scope leaf = .ok name) : name = ⟨scope, leaf⟩ ∧ NamePart.IsSound leaf := by
  obtain ⟨_, hCheck, hLast⟩ := Outcome.bind_eq_ok hOf
  exact ⟨(Except.ok.inj hLast).symm, (NamePart.check_eq_ok_iff .leaf leaf).mp hCheck⟩

/-- A name that is made from a path is valid and has this path. -/
theorem of_ofPath {path : List String} {name : Name} (hName : ofPath path = .ok name) :
    name.path = path ∧ name.IsValid := by
  unfold ofPath at hName
  cases hLast : path.getLast? with
  | none => simp [hLast] at hName
  | some leaf =>
    obtain ⟨levels, rfl⟩ := List.getLast?_eq_some_iff.mp hLast
    simp only [hLast, List.dropLast_concat] at hName
    have hParts : name = ⟨⟨levels⟩, leaf⟩ ∧ (∀ level ∈ levels, NamePart.IsSound level) ∧
        NamePart.IsSound leaf := by
      cases levels with
      | nil =>
        obtain ⟨rfl, hLeaf⟩ := of_eq_ok hName
        exact ⟨rfl, nofun, hLeaf⟩
      | cons level rest =>
        obtain ⟨scope, hScope, hOf⟩ := Outcome.bind_eq_ok hName
        obtain ⟨rfl, hSound⟩ := Namespace.of_ofLevels hScope
        obtain ⟨rfl, hLeaf⟩ := of_eq_ok hOf
        exact ⟨rfl, hSound, hLeaf⟩
    obtain ⟨rfl, hLevels, hLeaf⟩ := hParts
    refine ⟨rfl, fun part hMem => ?_⟩
    rcases List.mem_append.mp hMem with hLevel | hSame
    · exact hLevels part hLevel
    · exact List.mem_singleton.mp hSame ▸ hLeaf

/-! ### Parents and ancestors -/

theorem parent?_eq_some_iff {name parent : Name} :
    name.parent? = some parent ↔ name.scope.levels = parent.path := by
  obtain ⟨⟨levels⟩, leaf⟩ := name
  unfold parent? Namespace.name?
  constructor
  · intro hParent
    cases hLast : levels.getLast? with
    | none => simp [hLast] at hParent
    | some last =>
      simp only [hLast, Option.map_some, Option.some.injEq] at hParent
      obtain ⟨front, rfl⟩ := List.getLast?_eq_some_iff.mp hLast
      rw [← hParent]
      simp [path]
  · rintro (rfl : levels = parent.path)
    simp [path]

theorem depth_of_parent? {name parent : Name} (hParent : name.parent? = some parent) :
    name.scope.depth = parent.scope.depth + 1 := by
  rw [← length_path, ← parent?_eq_some_iff.mp hParent]
  rfl

theorem path_of_parent? {name parent : Name} (hParent : name.parent? = some parent) :
    name.path = parent.path ++ [name.leaf] := by
  rw [← parent?_eq_some_iff.mp hParent]
  rfl

theorem exists_parent? {name : Name} (hDepth : 0 < name.scope.depth) :
    ∃ parent, name.parent? = some parent := by
  obtain ⟨⟨levels⟩, leaf⟩ := name
  cases hLast : levels.getLast? with
  | none =>
    rw [List.getLast?_eq_none_iff.mp hLast] at hDepth
    exact absurd hDepth (Nat.lt_irrefl 0)
  | some last => exact ⟨⟨⟨levels.dropLast⟩, last⟩, by simp [parent?, Namespace.name?, hLast]⟩

theorem isAncestorOf_iff {name other : Name} :
    name.isAncestorOf other = true ↔ name.path <+: other.path ∧ name.path ≠ other.path := by
  simp only [isAncestorOf, depth, Bool.and_eq_true, decide_eq_true_eq, List.isPrefixOf_iff_prefix,
    ← length_path]
  constructor
  · rintro ⟨hLess, hPrefix⟩
    exact ⟨hPrefix, fun hEq => by rw [hEq] at hLess; omega⟩
  · rintro ⟨hPrefix, hNe⟩
    have hLength := hPrefix.length_le
    refine ⟨Nat.lt_of_le_of_ne hLength fun hSame => hNe ?_, hPrefix⟩
    exact hPrefix.eq_of_length hSame

theorem isAncestorOf_iff_goes_on {name other : Name} :
    name.isAncestorOf other = true ↔ ∃ rest, rest ≠ [] ∧ other.path = name.path ++ rest := by
  rw [isAncestorOf_iff]
  constructor
  · rintro ⟨⟨rest, hRest⟩, hNe⟩
    exact ⟨rest, fun hNil => hNe (by rw [← hRest, hNil, List.append_nil]), hRest.symm⟩
  · rintro ⟨rest, hSome, hRest⟩
    refine ⟨⟨rest, hRest.symm⟩, fun hSame => hSome ?_⟩
    rw [hRest] at hSame
    exact List.self_eq_append_right.mp hSame

/-! ### Moving a name -/

theorem path_of_rebase? {name source target moved : Name}
    (hMoved : name.rebase? source target = some moved) :
    ∃ rest, rest ≠ [] ∧ name.path = source.path ++ rest ∧ moved.path = target.path ++ rest := by
  unfold rebase? at hMoved
  split at hMoved
  next hAbove =>
    obtain ⟨rest, hSome, hRest⟩ := isAncestorOf_iff_goes_on.mp hAbove
    refine ⟨rest, hSome, hRest, ?_⟩
    cases hMoved
    -- the levels behind those of the source, and then the leaf, are the rest
    have hLevels : name.scope.levels.drop source.depth ++ [name.leaf] = rest := by
      have hLength : source.path.length = source.depth := length_path source
      have hShort : source.depth ≤ name.scope.levels.length := by
        have hTotal := congrArg List.length hRest
        rw [List.length_append, length_path name, hLength, Namespace.depth] at hTotal
        have hPos := List.length_pos_iff.mpr hSome
        omega
      rw [← List.drop_append_of_le_length hShort]
      show name.path.drop source.depth = rest
      rw [hRest, ← hLength, List.drop_left]
    rw [← hLevels, ← List.append_assoc]
    rfl
  next => cases hMoved

theorem rebase?_eq_none_iff {name source target : Name} :
    name.rebase? source target = none ↔ source.isAncestorOf name = false := by
  unfold rebase?
  cases source.isAncestorOf name <;> simp

/-- What is below a name can be moved. -/
theorem exists_rebase? {name source : Name} (target : Name)
    (hBelow : source.isAncestorOf name = true) :
    ∃ moved, name.rebase? source target = some moved := by
  cases hMoved : name.rebase? source target with
  | some moved => exact ⟨moved, rfl⟩
  | none =>
    rw [rebase?_eq_none_iff] at hMoved
    exact absurd hBelow (by simp [hMoved])

/-- A name is rebased to the name that goes on behind the target as it went on behind the source. -/
theorem rebase?_eq_some_iff {name source target moved : Name} :
    name.rebase? source target = some moved ↔
      ∃ rest, rest ≠ [] ∧ name.path = source.path ++ rest ∧ moved.path = target.path ++ rest := by
  refine ⟨path_of_rebase?, ?_⟩
  rintro ⟨rest, hSome, hPath, hGoal⟩
  obtain ⟨found, hFound⟩ :=
    exists_rebase? target (isAncestorOf_iff_goes_on.mpr ⟨rest, hSome, hPath⟩)
  obtain ⟨other, _, hOther, hFoundPath⟩ := path_of_rebase? hFound
  have hRest : rest = other := List.append_cancel_left (hPath.symm.trans hOther)
  have hSame : found = moved := path_injective (by rw [hFoundPath, hGoal, hRest])
  rw [hFound, hSame]

theorem isValid_of_rebase? {name source target moved : Name} (hName : name.IsValid)
    (hTarget : target.IsValid) (hMoved : name.rebase? source target = some moved) :
    moved.IsValid := by
  obtain ⟨rest, _, hPath, hGoal⟩ := path_of_rebase? hMoved
  intro part hMem
  rw [hGoal] at hMem
  rcases List.mem_append.mp hMem with hIn | hIn
  · exact hTarget part hIn
  · exact hName part (by rw [hPath]; exact List.mem_append_right _ hIn)

/-! ### Texts -/

/-- The pieces are what lies between the dots. -/
theorem piecesOfChars_eq_splitOn (chars : List Char) :
    piecesOfChars chars = chars.splitOn NamePart.separator := by
  induction chars with
  | nil => rfl
  | cons c rest ih =>
    rw [piecesOfChars, List.splitOn_cons_eq_if_modifyHead, ih]
    by_cases hDot : c = NamePart.separator
    · rw [if_pos hDot, if_pos (beq_iff_eq.mpr hDot)]
    · rw [if_neg hDot, if_neg (mt beq_iff_eq.mp hDot)]
      cases hRest : rest.splitOn NamePart.separator with
      | nil => exact absurd hRest (List.splitOn_ne_nil _ _)
      | cons piece others => rfl

theorem toList_dotted (parts : List String) :
    (dotted parts).toList = [NamePart.separator].intercalate (parts.map String.toList) :=
  String.toList_intercalate

theorem dotted_pieces (text : String) : dotted (pieces text) = text := by
  have hParts : (pieces text).map String.toList = text.toList.splitOn NamePart.separator := by
    rw [pieces, List.map_map, ← piecesOfChars_eq_splitOn]
    exact List.map_id'' (fun _ => String.toList_ofList) _
  rw [← String.toList_inj, toList_dotted, hParts, List.intercalate_splitOn]

theorem text_of_parse {text : String} {name : Name} (hName : parse text = .ok name) :
    name.text = text := by
  rw [Name.text, (of_ofPath hName).1, dotted_pieces]

theorem separator_not_mem {part : String} (hSound : NamePart.IsSound part) :
    NamePart.separator ∉ part.toList := fun hMem =>
  List.find?_eq_none.mp hSound.2 _ hMem (by decide)

/-- The text of a valid name is the text of no other name. -/
theorem parse_text {name : Name} (hValid : name.IsValid) : parse name.text = .ok name := by
  have hSome : name.path.map String.toList ≠ [] := by
    rw [ne_eq, List.map_eq_nil_iff]
    exact List.append_ne_nil_of_right_ne_nil _ (List.cons_ne_nil _ _)
  have hParts : ∀ part ∈ name.path.map String.toList, NamePart.separator ∉ part := by
    intro part hMem
    obtain ⟨text, hText, rfl⟩ := List.mem_map.mp hMem
    exact separator_not_mem (hValid text hText)
  have hPieces : pieces name.text = name.path := by
    rw [pieces, piecesOfChars_eq_splitOn, text, toList_dotted,
      List.splitOn_intercalate _ hParts hSome, List.map_map]
    exact List.map_id'' (fun _ => String.ofList_toList) _
  rw [parse, hPieces, ofPath_path hValid]

end Name

namespace Change

/-- A text that is a whole name in the root namespace may be a part of a name. -/
theorem isSound_of_isLeaf {leaf : String} (hLeaf : isLeaf leaf = true) :
    NamePart.IsSound leaf := by
  unfold isLeaf at hLeaf
  cases hParse : Name.parse leaf with
  | error error => simp [hParse] at hLeaf
  | ok name =>
    simp only [hParse, Namespace.isRoot, List.isEmpty_iff] at hLeaf
    have hPath : name.path = [name.leaf] := by rw [Name.path, hLeaf]; rfl
    have hText : name.leaf = leaf := by
      rw [← Name.text_of_parse hParse, Name.text, hPath]
      exact String.intercalate_singleton.symm
    rw [← hText]
    exact (Name.of_ofPath hParse).2 name.leaf (by simp [hPath])

end Change

end VersionedCatalog
