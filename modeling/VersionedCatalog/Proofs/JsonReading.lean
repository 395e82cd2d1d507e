import VersionedCatalog.Proofs.Data
import VersionedCatalog.Proofs.JsonTokens

/-! # Reading what was written in JSON

The first byte of a written value tells its kind and is neither a blank nor a closing bracket, so
reading takes the branch of the kind. By induction on the document, what was written of data is read
as this data with null for the missing value (`Json.value?_write?`). Behind a number something must
stand that ends it, which is so inside lists and dictionaries and at the end of the text.
-/

namespace VersionedCatalog.Json

/-- A byte that values start with. -/
def StartsValue (first : UInt8) : Prop := isBlank first = false ∧ first ≠ ascii ']'

theorem skipBlanks_cons {first : UInt8} (hFirst : isBlank first = false) (rest : Bytes) :
    skipBlanks (first :: rest) = first :: rest := by
  simp [skipBlanks, hFirst]

theorem skipBlanks_start {first : UInt8} (hFirst : StartsValue first) (rest : Bytes) :
    skipBlanks (first :: rest) = first :: rest := skipBlanks_cons hFirst.1 rest

theorem after?_cons (b : UInt8) (rest : Bytes) : after? b (b :: rest) = some rest := if_pos rfl

theorem after?_cons_of_ne {a b : UInt8} (hNe : b ≠ a) (rest : Bytes) :
    after? a (b :: rest) = none := if_neg hNe

theorem endsNumber_cons {next : UInt8}
    (hNext : next = ascii ',' ∨ next = ascii ']' ∨ next = ascii '\x7d') (rest : Bytes) :
    EndsNumber (next :: rest) := fun found hFound => by
  cases hFound
  exact hNext

theorem endsNumber_nil : EndsNumber [] := fun _ hFound => by cases hFound

/-! ### Parts with commas between them -/

theorem joined_singleton (part : Bytes) : joined [part] = part := by
  simp [joined, List.intercalate, List.intersperse]

theorem joined_cons_cons (part next : Bytes) (rest : List Bytes) :
    joined (part :: next :: rest) = part ++ ascii ',' :: joined (next :: rest) := by
  simp [joined, List.intercalate, List.intersperse]

/-! ### Single values -/

theorem writeText_eq (s : String) (rest : Bytes) :
    writeText s ++ rest =
      ascii '"' :: ((Utf8.encode s).flatMap escape ++ ascii '"' :: rest) := by
  simp [writeText]

theorem after?_writeText (s : String) (rest : Bytes) :
    after? (ascii '"') (skipBlanks (writeText s ++ rest)) =
      some ((Utf8.encode s).flatMap escape ++ ascii '"' :: rest) := by
  rw [writeText_eq, skipBlanks_cons (by decide), after?_cons]

theorem value?_text (s : String) {steps : Nat} (hSteps : 0 < steps) (rest : Bytes) :
    value? steps (writeText s ++ rest) = some (.ofText s, rest) := by
  obtain ⟨left, rfl⟩ := Nat.exists_eq_succ_of_ne_zero (Nat.ne_of_gt hSteps)
  rw [writeText_eq, value?, skipBlanks_cons (by decide)]
  simp [pieces?_flatMap_escape, quotedText_map_pieceOf]

theorem word?_encode (word : String) (document : Document) (rest : Bytes) :
    word? word document (Utf8.encode word ++ rest) = some (document, rest) := by
  simp [word?]

theorem value?_null {steps : Nat} (hSteps : 0 < steps) (rest : Bytes) :
    value? steps (Utf8.encode "null" ++ rest) = some (.unit, rest) := by
  obtain ⟨left, rfl⟩ := Nat.exists_eq_succ_of_ne_zero (Nat.ne_of_gt hSteps)
  have hWord := word?_encode "null" .unit rest
  have hBytes : Utf8.encode "null" = [110, 117, 108, 108] := by decide
  rw [hBytes] at hWord ⊢
  exact hWord

theorem value?_bool (value : Bool) {steps : Nat} (hSteps : 0 < steps) (rest : Bytes) :
    value? steps (Utf8.encode (if value then "true" else "false") ++ rest) =
      some (.bool value, rest) := by
  obtain ⟨left, rfl⟩ := Nat.exists_eq_succ_of_ne_zero (Nat.ne_of_gt hSteps)
  cases value with
  | true =>
    have hWord := word?_encode "true" (.bool true) rest
    have hBytes : Utf8.encode "true" = [116, 114, 117, 101] := by decide
    rw [if_pos rfl, hBytes] at *
    exact hWord
  | false =>
    have hWord := word?_encode "false" (.bool false) rest
    have hBytes : Utf8.encode "false" = [102, 97, 108, 115, 101] := by decide
    rw [if_neg Bool.false_ne_true, hBytes] at *
    exact hWord

theorem writeInt_natCast (n : Nat) : writeInt n = (Text.figures n).map Text.figureByte := by
  have hSign : ¬ (n : Int) < 0 := by omega
  rw [writeInt, if_neg hSign, Int.natAbs_natCast, Text.encode_decimal]

theorem value?_word {n : Nat} (hWord : n < UInt64.size) {steps : Nat} (hSteps : 0 < steps)
    {rest : Bytes} (hEnd : EndsNumber rest) :
    value? steps (writeInt n ++ rest) = some (.int n, rest) := by
  obtain ⟨left, rfl⟩ := Nat.exists_eq_succ_of_ne_zero (Nat.ne_of_gt hSteps)
  have hNumber := number?_figures hEnd hWord
  obtain ⟨d, figures, hFigures⟩ := List.exists_cons_of_ne_nil (Text.figures_ne_nil n)
  have hFirst : d < 10 := Text.lt_of_mem_figures d (by rw [hFigures]; exact List.mem_cons_self)
  have hDigit : ∀ d < 10, isBlank (Text.figureByte d) = false ∧
      Text.figureByte d ∉ ['"', '[', '\x7b', 'n', 't', 'f'].map ascii := by decide
  obtain ⟨hBlank, hOther⟩ := hDigit d hFirst
  simp only [List.map_cons, List.map_nil, List.mem_cons, not_or] at hOther
  rw [writeInt_natCast]
  rw [hFigures, List.map_cons, List.cons_append] at hNumber ⊢
  rw [value?, skipBlanks_cons hBlank]
  simp only [hOther, if_false, hNumber]

/-! ### Documents -/

theorem exists_of_write?_list {items : List Document} {bytes : Bytes}
    (hWrite : write? (.list items) = some bytes) :
    ∃ parts, writeItems? items = some parts ∧
      bytes = ascii '[' :: (joined parts ++ [ascii ']']) := by
  simp only [write?, Option.bind_eq_bind, Option.bind_eq_some_iff, Option.pure_def,
    Option.some.injEq] at hWrite
  obtain ⟨parts, hParts, hBytes⟩ := hWrite
  exact ⟨parts, hParts, hBytes.symm⟩

theorem exists_of_write?_dict {entries : List (Document × Document)} {bytes : Bytes}
    (hWrite : write? (.dict entries) = some bytes) :
    ∃ parts, writeEntries? entries = some parts ∧
      bytes = ascii '\x7b' :: (joined parts ++ [ascii '\x7d']) := by
  simp only [write?, Option.bind_eq_bind, Option.bind_eq_some_iff, Option.pure_def,
    Option.some.injEq] at hWrite
  obtain ⟨parts, hParts, hBytes⟩ := hWrite
  exact ⟨parts, hParts, hBytes.symm⟩

theorem exists_of_writeItems?_cons {item : Document} {others : List Document}
    {parts : List Bytes} (hWrite : writeItems? (item :: others) = some parts) :
    ∃ first tail, write? item = some first ∧ writeItems? others = some tail ∧
      parts = first :: tail := by
  simp only [writeItems?, Option.bind_eq_bind, Option.bind_eq_some_iff, Option.pure_def,
    Option.some.injEq] at hWrite
  obtain ⟨first, hFirst, tail, hTail, hParts⟩ := hWrite
  exact ⟨first, tail, hFirst, hTail, hParts.symm⟩

theorem exists_of_writeEntries?_cons {name : String} {value : Document}
    {others : List (Document × Document)} {parts : List Bytes}
    (hWrite : writeEntries? ((.ofText name, value) :: others) = some parts) :
    ∃ second tail, write? value = some second ∧ writeEntries? others = some tail ∧
      parts = (writeText name ++ ascii ':' :: second) :: tail := by
  simp only [writeEntries?, Document.ofText, writeKey?, Option.bind_eq_bind, Option.bind_some,
    Option.bind_eq_some_iff, Option.pure_def, Option.some.injEq] at hWrite
  obtain ⟨second, hSecond, tail, hTail, hParts⟩ := hWrite
  exact ⟨second, tail, hSecond, hTail, hParts.symm⟩

/-- What was written of data starts with a byte that values start with. -/
theorem exists_start_of_write? {document : Document} (hData : document.IsData) {bytes : Bytes}
    (hWrite : write? document = some bytes) :
    ∃ first tail, bytes = first :: tail ∧ StartsValue first := by
  cases document with
  | absent => cases hWrite; exact ⟨110, [117, 108, 108], by decide, rfl, by decide⟩
  | bool value =>
    cases hWrite
    cases value with
    | true => exact ⟨116, [114, 117, 101], by decide, rfl, by decide⟩
    | false => exact ⟨102, [97, 108, 115, 101], by decide, rfl, by decide⟩
  | int value =>
    cases hWrite
    obtain ⟨n, rfl⟩ := Int.eq_ofNat_of_zero_le hData.1
    obtain ⟨d, figures, hFigures⟩ := List.exists_cons_of_ne_nil (Text.figures_ne_nil n)
    have hFirst : d < 10 := Text.lt_of_mem_figures d (by rw [hFigures]; exact List.mem_cons_self)
    have hDigit : ∀ d < 10, isBlank (Text.figureByte d) = false ∧
        Text.figureByte d ≠ ascii ']' := by decide
    exact ⟨Text.figureByte d, figures.map Text.figureByte,
      by rw [writeInt_natCast, hFigures, List.map_cons], hDigit d hFirst⟩
  | text value whole => cases hWrite; exact ⟨_, _, rfl, rfl, by decide⟩
  | list items =>
    obtain ⟨parts, _, rfl⟩ := exists_of_write?_list hWrite
    exact ⟨_, _, rfl, rfl, by decide⟩
  | dict entries =>
    obtain ⟨parts, _, rfl⟩ := exists_of_write?_dict hWrite
    exact ⟨_, _, rfl, rfl, by decide⟩
  | _ => cases hData

mutual

/-- What was written of data is read as this data with null for the missing value. -/
theorem value?_write? (document : Document) (hData : document.IsData) {bytes : Bytes}
    (hWrite : write? document = some bytes) {steps : Nat} (hSteps : bytes.length < steps)
    {rest : Bytes} (hEnd : EndsNumber rest) :
    value? steps (bytes ++ rest) = some (document.seen .json, rest) := by
  have hPos : 0 < steps := by omega
  cases document with
  | absent => cases hWrite; exact value?_null hPos rest
  | bool value => cases hWrite; exact value?_bool value hPos rest
  | int value =>
    cases hWrite
    obtain ⟨n, rfl⟩ := Int.eq_ofNat_of_zero_le hData.1
    exact value?_word (Int.ofNat_lt.mp hData.2) hPos hEnd
  | text value whole =>
    cases hWrite
    cases (show whole = true from hData)
    exact value?_text value hPos rest
  | list items =>
    obtain ⟨parts, hParts, rfl⟩ := exists_of_write?_list hWrite
    obtain ⟨left, rfl⟩ := Nat.exists_eq_succ_of_ne_zero (Nat.ne_of_gt hPos)
    have hRoom : (joined parts).length < left := by
      simp only [List.length_cons, List.length_append, List.length_nil] at hSteps
      omega
    rw [List.cons_append, List.append_assoc, value?, skipBlanks_cons (by decide)]
    cases items with
    | nil =>
      cases hParts
      rfl
    | cons item others =>
      obtain ⟨first, tail, hFirst, _, hEq⟩ := exists_of_writeItems?_cons hParts
      have hItems := items?_writeItems? (item :: others) (List.cons_ne_nil item others) hData hParts
        hRoom hRoom rest
      obtain ⟨byte, more, hBytes⟩ : ∃ byte more,
          joined parts ++ ([ascii ']'] ++ rest) = byte :: more ∧ StartsValue byte := by
        obtain ⟨byte, more, rfl, hStart⟩ := exists_start_of_write? hData.1 hFirst
        rw [hEq]
        cases tail with
        | nil => exact ⟨byte, _, by rw [joined_singleton]; rfl, hStart⟩
        | cons next tail => exact ⟨byte, _, by rw [joined_cons_cons]; rfl, hStart⟩
      have hClose : after? (ascii ']') (skipBlanks (joined parts ++ ([ascii ']'] ++ rest))) =
          none := by
        rw [hBytes.1, skipBlanks_start hBytes.2]
        exact after?_cons_of_ne hBytes.2.2 more
      rw [List.singleton_append] at hClose ⊢
      simp only [show ¬ ascii '[' = ascii '"' by decide, if_false, if_true, hClose, hItems,
        Option.bind_eq_bind, Option.bind_some]
      rfl
  | dict entries =>
    obtain ⟨parts, hParts, rfl⟩ := exists_of_write?_dict hWrite
    obtain ⟨left, rfl⟩ := Nat.exists_eq_succ_of_ne_zero (Nat.ne_of_gt hPos)
    have hRoom : (joined parts).length < left := by
      simp only [List.length_cons, List.length_append, List.length_nil] at hSteps
      omega
    rw [List.cons_append, List.append_assoc, value?, skipBlanks_cons (by decide)]
    cases entries with
    | nil =>
      cases hParts
      rfl
    | cons entry others =>
      have hEntries := entries?_writeEntries? (entry :: others) (List.cons_ne_nil entry others) hData
        hParts hRoom hRoom rest
      obtain ⟨key, value⟩ := entry
      obtain ⟨⟨name, rfl⟩, _⟩ := hData
      obtain ⟨second, tail, _, _, hEq⟩ := exists_of_writeEntries?_cons hParts
      obtain ⟨more, hBytes⟩ : ∃ more,
          joined parts ++ ([ascii '\x7d'] ++ rest) = ascii '"' :: more := by
        rw [hEq]
        cases tail with
        | nil => exact ⟨_, by rw [joined_singleton, writeText]; rfl⟩
        | cons next tail => exact ⟨_, by rw [joined_cons_cons, writeText]; rfl⟩
      have hClose : after? (ascii '\x7d') (skipBlanks (joined parts ++ ([ascii '\x7d'] ++ rest))) =
          none := by
        rw [hBytes, skipBlanks_cons (by decide)]
        exact after?_cons_of_ne (by decide) more
      rw [List.singleton_append] at hClose ⊢
      simp only [show ¬ ascii '\x7b' = ascii '"' by decide, show ¬ ascii '\x7b' = ascii '[' by decide,
        if_false, if_true, hClose, hEntries, Option.bind_eq_bind, Option.bind_some]
      rfl
  | _ => cases hData

theorem items?_writeItems? (items : List Document) (hSome : items ≠ [])
    (hData : Document.AreData items) {parts : List Bytes}
    (hWrite : writeItems? items = some parts) {steps count : Nat}
    (hSteps : (joined parts).length < steps) (hCount : (joined parts).length < count)
    (rest : Bytes) :
    items? (value? steps) count (joined parts ++ ascii ']' :: rest) =
      some (Document.seenItems .json items, rest) := by
  obtain ⟨left, rfl⟩ := Nat.exists_eq_succ_of_ne_zero (show count ≠ 0 by omega)
  match items, hSome with
  | [item], _ =>
    obtain ⟨first, tail, hFirst, hTail, rfl⟩ := exists_of_writeItems?_cons hWrite
    cases hTail
    rw [joined_singleton] at hSteps ⊢
    have hItem := value?_write? item hData.1 hFirst hSteps
      (endsNumber_cons (Or.inr (Or.inl rfl)) rest)
    simp only [items?, hItem, Option.bind_eq_bind, Option.bind_some,
      skipBlanks_cons (show isBlank (ascii ']') = false from rfl), after?_cons]
    rfl
  | item :: next :: others, _ =>
    obtain ⟨first, tail, hFirst, hTail, rfl⟩ := exists_of_writeItems?_cons hWrite
    obtain ⟨second, more, hSecond, hMore, hEq⟩ := exists_of_writeItems?_cons hTail
    have hJoined := joined_cons_cons first second more
    rw [← hEq] at hJoined
    rw [hJoined, List.length_append, List.length_cons] at hSteps hCount
    have hItem := value?_write? item hData.1 hFirst (show first.length < steps by omega)
      (endsNumber_cons (Or.inl rfl) (joined tail ++ ascii ']' :: rest))
    have hOthers := items?_writeItems? (next :: others) (List.cons_ne_nil next others) hData.2 hTail
      (show (joined tail).length < steps by omega) (show (joined tail).length < left by omega) rest
    rw [hJoined, List.append_assoc, List.cons_append]
    simp only [items?, hItem, Option.bind_eq_bind, Option.bind_some,
      skipBlanks_cons (show isBlank (ascii ',') = false from rfl), after?_cons, hOthers,
      after?_cons_of_ne (show ascii ',' ≠ ascii ']' by decide)]
    rfl

theorem entries?_writeEntries? (entries : List (Document × Document)) (hSome : entries ≠ [])
    (hData : Document.AreEntries entries) {parts : List Bytes}
    (hWrite : writeEntries? entries = some parts) {steps count : Nat}
    (hSteps : (joined parts).length < steps) (hCount : (joined parts).length < count)
    (rest : Bytes) :
    entries? (value? steps) count (joined parts ++ ascii '\x7d' :: rest) =
      some (Document.seenEntries .json entries, rest) := by
  obtain ⟨left, rfl⟩ := Nat.exists_eq_succ_of_ne_zero (show count ≠ 0 by omega)
  match entries, hSome with
  | [(key, value)], _ =>
    obtain ⟨⟨name, rfl⟩, hValue, _⟩ := hData
    obtain ⟨second, tail, hSecond, hTail, rfl⟩ := exists_of_writeEntries?_cons hWrite
    cases hTail
    rw [joined_singleton] at hSteps ⊢
    rw [List.length_append, List.length_cons] at hSteps
    have hItem := value?_write? value hValue hSecond (show second.length < steps by omega)
      (endsNumber_cons (Or.inr (Or.inr rfl)) rest)
    rw [List.append_assoc, List.cons_append]
    simp only [entries?, after?_writeText, pieces?_flatMap_escape, hItem, Option.bind_eq_bind,
      Option.bind_some, skipBlanks_cons (show isBlank (ascii ':') = false from rfl), after?_cons,
      skipBlanks_cons (show isBlank (ascii '\x7d') = false from rfl), quotedText_map_pieceOf]
    rfl
  | (key, value) :: (nextKey, following) :: others, _ =>
    obtain ⟨⟨name, rfl⟩, hValue, hRest⟩ := hData
    obtain ⟨⟨other, rfl⟩, _⟩ := id hRest
    obtain ⟨second, tail, hSecond, hTail, rfl⟩ := exists_of_writeEntries?_cons hWrite
    obtain ⟨third, more, hThird, _, hEq⟩ := exists_of_writeEntries?_cons hTail
    have hJoined := joined_cons_cons (writeText name ++ ascii ':' :: second)
      (writeText other ++ ascii ':' :: third) more
    rw [← hEq] at hJoined
    rw [hJoined, List.length_append, List.length_append, List.length_cons, List.length_cons]
      at hSteps hCount
    have hItem := value?_write? value hValue hSecond (show second.length < steps by omega)
      (endsNumber_cons (Or.inl rfl) (joined tail ++ ascii '\x7d' :: rest))
    have hOthers := entries?_writeEntries? ((.ofText other, following) :: others)
      (List.cons_ne_nil _ others) hRest hTail (show (joined tail).length < steps by omega)
      (show (joined tail).length < left by omega) rest
    rw [hJoined, List.append_assoc, List.append_assoc, List.cons_append, List.cons_append]
    simp only [entries?, after?_writeText, pieces?_flatMap_escape, hItem, Option.bind_eq_bind,
      Option.bind_some, skipBlanks_cons (show isBlank (ascii ':') = false from rfl), after?_cons,
      skipBlanks_cons (show isBlank (ascii ',') = false from rfl), quotedText_map_pieceOf, hOthers,
      after?_cons_of_ne (show ascii ',' ≠ ascii '\x7d' by decide)]
    rfl

end

theorem read?_write? {document : Document} (hData : document.IsData) {bytes : Bytes}
    (hWrite : write? document = some bytes) : read? bytes = some (document.seen .json, []) := by
  have hValue := value?_write? document hData hWrite (Nat.lt_succ_self bytes.length) endsNumber_nil
  rwa [List.append_nil] at hValue

end VersionedCatalog.Json
