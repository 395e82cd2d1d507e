import VersionedCatalog.Proofs.Keys

/-! # Stems are exact

What is read off the front of a key is a part just as it is written (`Key.takePart_eq_ok_iff`), with
every zero byte escaped and the end marked, so nothing but parts is read as parts and the bound on
the steps of this is never felt (`Key.takeParts_eq`). A stem is therefore decoded just if it is
the stem of a type and a valid name of the right depth, and to these (`Key.decodes_exactly`).
-/

namespace VersionedCatalog.Key

variable {bytes rest : Bytes} {text : String}

/-- What is split off is what was escaped, and its end. -/
theorem eq_of_splitPart? {front : Bytes} (hSplit : splitPart? bytes = some (front, rest)) :
    bytes = front.flatMap escape ++ [0, 1] ++ rest := by
  fun_induction splitPart? bytes generalizing front with
  | case1 => cases hSplit
  | case2 => cases hSplit
  | case3 b next others hByte ih =>
    obtain ⟨⟨found, left⟩, hFound, hLast⟩ := Option.bind_eq_some_iff.mp hSplit
    cases hLast
    rw [ih hFound, List.flatMap_cons, escape, if_neg hByte]
    simp
  | case4 b others hByte ih =>
    obtain ⟨⟨found, left⟩, hFound, hLast⟩ := Option.bind_eq_some_iff.mp hSplit
    cases hLast
    rw [ih hFound, List.flatMap_cons, Decidable.not_not.mp hByte]
    simp [escape]
  | case5 b others hByte _ =>
    cases hSplit
    rw [Decidable.not_not.mp hByte]
    rfl
  | case6 => cases hSplit

theorem takePart_eq_ok_iff : takePart bytes = .ok (text, rest) ↔ bytes = part text ++ rest := by
  constructor
  · intro hTake
    unfold takePart at hTake
    split at hTake
    next => cases hTake
    next front left hSplit =>
      split at hTake
      next decoded hDecode =>
        cases hTake
        rw [part, Utf8.encode_of_decode? hDecode]
        exact eq_of_splitPart? hSplit
      next => cases hTake
  · rintro rfl
    exact takePart_part text rest

/-- A part takes a byte at least. -/
theorem length_lt_of_takePart (hTake : takePart bytes = .ok (text, rest)) :
    rest.length < bytes.length := by
  rw [takePart_eq_ok_iff.mp hTake, List.length_append]
  exact Nat.lt_add_of_pos_left (List.length_pos_iff.mpr (part_ne_nil text))

/-- So one step a byte is enough, and more steps make no difference. -/
theorem takeParts_congr {steps more : Nat} (hSteps : bytes.length ≤ steps)
    (hMore : bytes.length ≤ more) : takeParts steps bytes = takeParts more bytes := by
  -- With no steps left there are no bytes either, and each step leaves fewer bytes than it found.
  induction steps generalizing more bytes with
  | zero =>
    obtain rfl : bytes = [] := List.length_eq_zero_iff.mp (Nat.le_zero.mp hSteps)
    cases more <;> rfl
  | succ steps ih =>
    cases more with
    | zero =>
      obtain rfl : bytes = [] := List.length_eq_zero_iff.mp (Nat.le_zero.mp hMore)
      rfl
    | succ more =>
      rw [takeParts, takeParts]
      cases hTake : takePart bytes with
      | error error => rfl
      | ok found =>
        have hShorter := length_lt_of_takePart hTake
        simp only [Outcome.ok_bind]
        rw [@ih found.2 more (by omega) (by omega)]

/-- Parts are taken one by one until nothing is left. -/
theorem takeParts_eq (bytes : Bytes) : takeParts bytes.length bytes =
    if bytes = [] then .ok [] else do
      let (first, rest) ← takePart bytes
      let others ← takeParts rest.length rest
      return first :: others := by
  cases bytes with
  | nil => rfl
  | cons b bytes =>
    rw [List.length_cons, takeParts, if_neg (List.cons_ne_nil b bytes)]
    simp only [List.isEmpty_cons, Bool.false_eq_true, if_false]
    cases hTake : takePart (b :: bytes) with
    | error error => rfl
    | ok found =>
      have hShorter := length_lt_of_takePart hTake
      simp only [Outcome.ok_bind]
      rw [takeParts_congr (Nat.le_of_lt_succ hShorter) (Nat.le_refl _)]

/-- Nothing but parts is read as parts. -/
theorem eq_of_takeParts {steps : Nat} {path : List String} (hSteps : bytes.length ≤ steps)
    (hTake : takeParts steps bytes = .ok path) : bytes = path.flatMap part := by
  induction steps generalizing bytes path with
  | zero =>
    cases hTake
    exact List.length_eq_zero_iff.mp (Nat.le_zero.mp hSteps)
  | succ steps ih =>
    rw [takeParts] at hTake
    split at hTake
    next hEmpty =>
      cases hTake
      exact List.isEmpty_iff.mp hEmpty
    next =>
      obtain ⟨⟨first, left⟩, hFirst, hRest⟩ := Outcome.bind_eq_ok hTake
      obtain ⟨others, hOthers, hLast⟩ := Outcome.bind_eq_ok hRest
      cases hLast
      have hShorter := length_lt_of_takePart hFirst
      rw [takePart_eq_ok_iff.mp hFirst, List.flatMap_cons, ← ih (by omega) hOthers]

theorem code_of_ofCode? {code : UInt8} {type : EntityType}
    (hCode : EntityType.ofCode? code = some type) : type.code = code := by
  unfold EntityType.ofCode? at hCode
  simpa using List.find?_some hCode

/-- What a stem decodes to is what it is the stem of. -/
theorem eq_of_decodeEntity {stem : Bytes} {type : EntityType} {name : Name}
    (hDecode : decodeEntity stem = .ok (type, name)) :
    name.IsValid ∧ name.scope.depth = type.depth ∧ stem = entity type name := by
  unfold decodeEntity at hDecode
  split at hDecode
  next => cases hDecode
  next code rest =>
    split at hDecode
    next => cases hDecode
    next found hCode =>
      obtain ⟨path, hPath, hRest⟩ := Outcome.bind_eq_ok hDecode
      simp only at hRest
      split at hRest
      next => cases hRest
      next hCount =>
        obtain ⟨made, hMade, hLast⟩ := Outcome.bind_eq_ok hRest
        cases hLast
        obtain ⟨rfl, hValid⟩ := Name.of_ofPath (Outcome.mapError_eq_ok hMade)
        have hLength : name.path.length = type.depth + 1 := Decidable.not_not.mp hCount
        rw [Name.length_path] at hLength
        refine ⟨hValid, Nat.succ.inj hLength, ?_⟩
        rw [entity, typed, code_of_ofCode? hCode, ← eq_of_takeParts (Nat.le_refl _) hPath]

theorem decodeEntity_eq_ok_iff {stem : Bytes} {type : EntityType} {name : Name} :
    decodeEntity stem = .ok (type, name) ↔
      name.IsValid ∧ name.scope.depth = type.depth ∧ stem = entity type name := by
  refine ⟨eq_of_decodeEntity, ?_⟩
  rintro ⟨hValid, hDepth, rfl⟩
  exact decodeEntity_entity hDepth hValid

/-- **Stems are exact.**  A byte string decodes to a type and a name just if the name is valid and
as deep as the type lies, and the byte string is the stem that they are written as.  A part is read
back as its text from the front of whatever follows it, up to its end and no further, and nothing
else is read as a part.  Parts are taken for as long as bytes are left: no byte string is long
enough to use up the steps that there are for its length. -/
theorem decodes_exactly :
    (∀ stem type name, decodeEntity stem = .ok (type, name) ↔
      name.IsValid ∧ name.scope.depth = type.depth ∧ stem = entity type name) ∧
    (∀ text rest, takePart (part text ++ rest) = .ok (text, rest)) ∧
    (∀ bytes text rest, takePart bytes = .ok (text, rest) → bytes = part text ++ rest) ∧
    ∀ bytes : Bytes, takeParts bytes.length bytes =
      if bytes = [] then .ok [] else do
        let (first, rest) ← takePart bytes
        let others ← takeParts rest.length rest
        return first :: others :=
  ⟨fun _ _ _ => decodeEntity_eq_ok_iff, takePart_part, fun _ _ _ => takePart_eq_ok_iff.mp,
    takeParts_eq⟩

/-- An escape that was cut off is no end of a part. -/
example : takePart [97, 0] = .error .partEnd := rfl

end VersionedCatalog.Key
