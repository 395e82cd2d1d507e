import VersionedCatalog.Proofs.CborReading
import VersionedCatalog.Proofs.JsonReading

/-! # Reading what goes on

A reader continues (`Continues`) if it reads the same from bytes that others follow and leaves these
others over. A CBOR document says its own end, so reading it continues whatever follows
(`Cbor.continues_item?`). So does reading a JSON document that closes with a mark of its own, but a
number goes on with any digit that follows it, so it must have ended before
(`Json.value?_append`). Either way no beginning of a document is read as a document.
-/

namespace VersionedCatalog

variable {α : Type} {extra : Bytes}

/-- Whether a reader finds with more bytes behind what another one finds without. -/
def Continues (extra : Bytes) (read later : Bytes → Option (α × Bytes)) : Prop :=
  ∀ bytes found rest, read bytes = some (found, rest) →
    later (bytes ++ extra) = some (found, rest ++ extra)

theorem Bytes.continues_take? (n : Nat) : Continues extra (take? n) (take? n) := by
  intro bytes front rest hRead
  rw [take?] at hRead
  split at hRead
  next hLong =>
    cases hRead
    rw [take?, if_pos (by rw [List.length_append]; omega), List.take_append_of_le_length hLong,
      List.drop_append_of_le_length hLong]
  next => cases hRead

namespace Cbor

theorem continues_head? : Continues extra head? head? := by
  intro bytes head rest hRead
  cases bytes with
  | nil => cases hRead
  | cons first bytes =>
    rw [List.cons_append]
    simp only [head?] at hRead ⊢
    split at hRead
    next hShort =>
      obtain ⟨found, hFound, hLast⟩ := Option.map_eq_some_iff.mp hRead
      cases hLast
      rw [if_pos hShort, hFound]
      rfl
    next hLong =>
      rw [if_neg hLong]
      split at hRead
      next hWide =>
        simp only [Option.bind_eq_bind, Option.bind_eq_some_iff, Prod.exists] at hRead
        obtain ⟨digits, left, hDigits, found, hFound, hLast⟩ := hRead
        cases hLast
        rw [if_pos hWide, Bytes.continues_take? _ _ _ _ hDigits]
        simp only [Option.bind_eq_bind, Option.bind_some, hFound]
        rfl
      next hOpen =>
        rw [if_neg hOpen]
        split at hRead
        next hNoLength =>
          obtain ⟨found, hFound, hLast⟩ := Option.map_eq_some_iff.mp hRead
          cases hLast
          rw [if_pos hNoLength, hFound]
          rfl
        next => cases hRead

theorem continues_pieces? (length? : Head → Option (Option Nat)) (accepts : Bytes → Bool)
    {steps more : Nat} (hSteps : steps ≤ more) (waiting : Nat) :
    Continues extra (pieces? length? accepts steps waiting)
      (pieces? length? accepts more waiting) := by
  induction steps generalizing more waiting with
  | zero => intro bytes found rest hRead; cases hRead
  | succ steps ih =>
    obtain ⟨left, rfl⟩ := Nat.exists_eq_succ_of_ne_zero (show more ≠ 0 by omega)
    have hLeft : steps ≤ left := Nat.le_of_succ_le_succ hSteps
    intro bytes found rest hRead
    rw [pieces?] at hRead ⊢
    simp only [Option.bind_eq_bind, Option.bind_eq_some_iff, Prod.exists] at hRead
    obtain ⟨head, behind, hHead, hRead⟩ := hRead
    simp only [continues_head? _ _ _ hHead, Option.bind_eq_bind, Option.bind_some]
    split at hRead
    next hStop =>
      rw [if_pos hStop]
      split at hRead
      next => cases hRead
      next => cases hRead; rfl
      next => exact ih hLeft _ _ _ _ hRead
    next hPiece =>
      rw [if_neg hPiece]
      simp only [Option.bind_eq_some_iff] at hRead
      obtain ⟨length, hLength, hRead⟩ := hRead
      rw [hLength, Option.bind_some]
      cases length with
      | none => exact ih hLeft _ _ _ _ hRead
      | some length =>
        simp only [Option.bind_eq_some_iff, Prod.exists] at hRead
        obtain ⟨piece, tail, hTake, hRead⟩ := hRead
        simp only [Bytes.continues_take? _ _ _ _ hTake, Option.bind_some]
        cases hAccepts : accepts piece with
        | false => rw [hAccepts] at hRead; cases hRead
        | true =>
          rw [hAccepts] at hRead
          simp only [Bool.not_true, Bool.false_eq_true, if_false, Option.pure_def,
            Option.bind_eq_some_iff, Prod.exists] at hRead ⊢
          obtain ⟨others, last, hOthers, hLast⟩ := hRead
          cases hLast
          exact ⟨others, rest ++ extra, ih hLeft _ _ _ _ hOthers, rfl⟩

/-! ### Items and entries -/

theorem stop?_append {bytes rest : Bytes} (hStop : stop? bytes = some rest) :
    stop? (bytes ++ extra) = some (rest ++ extra) := by
  cases bytes with
  | nil => cases hStop
  | cons first bytes =>
    rw [List.cons_append]
    rw [stop?] at hStop ⊢
    split at hStop
    next hFirst => cases hStop; rw [if_pos hFirst]
    next => cases hStop

theorem stop?_append_of_none {bytes : Bytes} (hSome : bytes ≠ []) (hGoes : stop? bytes = none) :
    stop? (bytes ++ extra) = none := by
  cases bytes with
  | nil => exact absurd rfl hSome
  | cons first bytes =>
    rw [List.cons_append]
    rw [stop?] at hGoes ⊢
    split at hGoes
    next => cases hGoes
    next hFirst => rw [if_neg hFirst]

section
variable {read later : Bytes → Option (Document × Bytes)} (hRead : Continues extra read later)
include hRead

theorem continues_itemsOf (count : Nat) :
    Continues extra (itemsOf read count) (itemsOf later count) := by
  induction count with
  | zero => intro bytes items rest hItems; cases hItems; rfl
  | succ count ih =>
    intro bytes items rest hItems
    simp only [itemsOf, Option.bind_eq_bind, Option.bind_eq_some_iff, Prod.exists] at hItems ⊢
    obtain ⟨item, left, hItem, others, last, hOthers, hLast⟩ := hItems
    cases hLast
    exact ⟨item, left ++ extra, hRead _ _ _ hItem, others, rest ++ extra, ih _ _ _ hOthers, rfl⟩

theorem continues_entriesOf (count : Nat) :
    Continues extra (entriesOf read count) (entriesOf later count) := by
  induction count with
  | zero => intro bytes entries rest hEntries; cases hEntries; rfl
  | succ count ih =>
    intro bytes entries rest hEntries
    simp only [entriesOf, Option.bind_eq_bind, Option.bind_eq_some_iff, Prod.exists] at hEntries ⊢
    obtain ⟨key, left, hKey, value, behind, hValue, others, last, hOthers, hLast⟩ := hEntries
    cases hLast
    exact ⟨key, left ++ extra, hRead _ _ _ hKey, value, behind ++ extra, hRead _ _ _ hValue, others,
      rest ++ extra, ih _ _ _ hOthers, rfl⟩

variable (hNothing : read [] = none) {steps more : Nat} (hSteps : steps ≤ more)
include hNothing hSteps

theorem continues_itemsToStop :
    Continues extra (itemsToStop read steps) (itemsToStop later more) := by
  induction steps generalizing more with
  | zero => intro bytes items rest hItems; cases hItems
  | succ steps ih =>
    obtain ⟨left, rfl⟩ := Nat.exists_eq_succ_of_ne_zero (show more ≠ 0 by omega)
    intro bytes items rest hItems
    rw [itemsToStop] at hItems ⊢
    cases hStop : stop? bytes with
    | some behind =>
      rw [hStop] at hItems
      cases hItems
      rw [stop?_append hStop]
    | none =>
      rw [hStop] at hItems
      simp only [Option.bind_eq_bind, Option.bind_eq_some_iff, Prod.exists] at hItems
      obtain ⟨item, tail, hItem, others, last, hOthers, hLast⟩ := hItems
      cases hLast
      have hSome : bytes ≠ [] := by
        rintro rfl
        rw [hNothing] at hItem
        cases hItem
      rw [stop?_append_of_none hSome hStop]
      simp only [hRead _ _ _ hItem, Option.bind_eq_bind, Option.bind_some,
        ih (Nat.le_of_succ_le_succ hSteps) _ _ _ hOthers]
      rfl

theorem continues_entriesToStop :
    Continues extra (entriesToStop read steps) (entriesToStop later more) := by
  induction steps generalizing more with
  | zero => intro bytes entries rest hEntries; cases hEntries
  | succ steps ih =>
    obtain ⟨left, rfl⟩ := Nat.exists_eq_succ_of_ne_zero (show more ≠ 0 by omega)
    intro bytes entries rest hEntries
    rw [entriesToStop] at hEntries ⊢
    cases hStop : stop? bytes with
    | some behind =>
      rw [hStop] at hEntries
      cases hEntries
      rw [stop?_append hStop]
    | none =>
      rw [hStop] at hEntries
      simp only [Option.bind_eq_bind, Option.bind_eq_some_iff, Prod.exists] at hEntries
      obtain ⟨key, tail, hKey, value, behind, hValue, others, last, hOthers, hLast⟩ := hEntries
      cases hLast
      have hSome : bytes ≠ [] := by
        rintro rfl
        rw [hNothing] at hKey
        cases hKey
      rw [stop?_append_of_none hSome hStop]
      simp only [hRead _ _ _ hKey, hRead _ _ _ hValue, Option.bind_eq_bind, Option.bind_some,
        ih (Nat.le_of_succ_le_succ hSteps) _ _ _ hOthers]
      rfl

end

theorem item?_nil (steps : Nat) : item? steps [] = none := by
  cases steps <;> rfl

/-- A document says its own end. -/
theorem continues_item? {steps more : Nat} (hSteps : steps ≤ more) :
    Continues extra (item? steps) (item? more) := by
  induction steps generalizing more with
  | zero => intro bytes document rest hRead; cases hRead
  | succ steps ih =>
    obtain ⟨left, rfl⟩ := Nat.exists_eq_succ_of_ne_zero (show more ≠ 0 by omega)
    have hLeft : steps ≤ left := Nat.le_of_succ_le_succ hSteps
    have hItem : Continues extra (item? steps) (item? left) := ih hLeft
    intro bytes document rest hRead
    rw [item?] at hRead ⊢
    simp only [Option.bind_eq_bind, Option.bind_eq_some_iff, Prod.exists] at hRead
    obtain ⟨head, behind, hHead, hRead⟩ := hRead
    simp only [continues_head? _ _ _ hHead, Option.bind_eq_bind, Option.bind_some]
    cases head with
    | unsigned n => cases hRead; rfl
    | negative n => cases hRead; rfl
    | bytes length =>
      cases length with
      | some length =>
        simp only [Option.bind_eq_some_iff, Prod.exists] at hRead ⊢
        obtain ⟨value, last, hValue, hLast⟩ := hRead
        cases hLast
        exact ⟨value, rest ++ extra, Bytes.continues_take? _ _ _ _ hValue, rfl⟩
      | none =>
        simp only [Option.bind_eq_some_iff, Prod.exists] at hRead ⊢
        obtain ⟨value, last, hValue, hLast⟩ := hRead
        cases hLast
        exact ⟨value, rest ++ extra, continues_pieces? _ _ hLeft _ _ _ _ hValue, rfl⟩
    | text length =>
      cases length with
      | some length =>
        simp only [Option.bind_eq_some_iff, Prod.exists] at hRead ⊢
        obtain ⟨piece, last, hPiece, value, hValue, hLast⟩ := hRead
        cases hLast
        exact ⟨piece, rest ++ extra, Bytes.continues_take? _ _ _ _ hPiece, value, hValue, rfl⟩
      | none =>
        simp only [Option.bind_eq_some_iff, Prod.exists] at hRead ⊢
        obtain ⟨joined, last, hJoined, value, hValue, hLast⟩ := hRead
        cases hLast
        exact ⟨joined, rest ++ extra, continues_pieces? _ _ hLeft _ _ _ _ hJoined, value, hValue,
          rfl⟩
    | list length =>
      cases length with
      | some count =>
        simp only [Option.bind_eq_some_iff, Prod.exists] at hRead ⊢
        obtain ⟨items, last, hItems, hLast⟩ := hRead
        cases hLast
        exact ⟨items, rest ++ extra, continues_itemsOf hItem count _ _ _ hItems, rfl⟩
      | none =>
        simp only [Option.bind_eq_some_iff, Prod.exists] at hRead ⊢
        obtain ⟨items, last, hItems, hLast⟩ := hRead
        cases hLast
        exact ⟨items, rest ++ extra,
          continues_itemsToStop hItem (item?_nil steps) hLeft _ _ _ hItems, rfl⟩
    | dict length =>
      cases length with
      | some count =>
        simp only [Option.bind_eq_some_iff, Prod.exists] at hRead ⊢
        obtain ⟨entries, last, hEntries, hLast⟩ := hRead
        cases hLast
        exact ⟨entries, rest ++ extra, continues_entriesOf hItem count _ _ _ hEntries, rfl⟩
      | none =>
        simp only [Option.bind_eq_some_iff, Prod.exists] at hRead ⊢
        obtain ⟨entries, last, hEntries, hLast⟩ := hRead
        cases hLast
        exact ⟨entries, rest ++ extra,
          continues_entriesToStop hItem (item?_nil steps) hLeft _ _ _ hEntries, rfl⟩
    | tag n =>
      simp only [Option.bind_eq_some_iff, Prod.exists] at hRead ⊢
      obtain ⟨item, last, hTagged, hLast⟩ := hRead
      cases hLast
      exact ⟨item, rest ++ extra, hItem _ _ _ hTagged, rfl⟩
    | simple n =>
      simp only [Option.bind_eq_some_iff] at hRead ⊢
      obtain ⟨value, hValue, hLast⟩ := hRead
      cases hLast
      exact ⟨document, hValue, rfl⟩
    | float => cases hRead; rfl
    | stop => cases hRead

theorem continues_read? : Continues extra read? read? := by
  intro bytes document rest hRead
  exact continues_item? (by rw [List.length_append]; omega) _ _ _ hRead

end Cbor

/-! ### JSON -/

/-- Whether a reader finds the same with more bytes behind if it did not come to the end without. -/
def ContinuesInside (extra : Bytes) (read later : Bytes → Option (α × Bytes)) : Prop :=
  ∀ bytes found rest, rest ≠ [] → read bytes = some (found, rest) →
    later (bytes ++ extra) = some (found, rest ++ extra)

namespace Json

theorem skipBlanks_append {bytes : Bytes} (hSome : skipBlanks bytes ≠ []) :
    skipBlanks (bytes ++ extra) = skipBlanks bytes ++ extra := by
  rw [skipBlanks, List.dropWhile_append, if_neg]
  · rfl
  · rwa [List.isEmpty_iff]

theorem ne_nil_of_skipBlanks {bytes : Bytes} (hSome : skipBlanks bytes ≠ []) : bytes ≠ [] := by
  rintro rfl
  exact hSome rfl

theorem after?_append (b : UInt8) {bytes : Bytes} (hSome : bytes ≠ []) :
    after? b (bytes ++ extra) = (after? b bytes).map (· ++ extra) := by
  cases bytes with
  | nil => exact absurd rfl hSome
  | cons first bytes =>
    rw [List.cons_append, after?, after?]
    split
    next => rfl
    next => rfl

theorem isSome_after?_append (b : UInt8) {bytes : Bytes} (hSome : bytes ≠ []) :
    (after? b (bytes ++ extra)).isSome = (after? b bytes).isSome := by
  rw [after?_append b hSome, Option.isSome_map]

theorem ne_nil_of_after? {b : UInt8} {bytes rest : Bytes} (hAfter : after? b bytes = some rest) :
    bytes ≠ [] := by
  rintro rfl
  cases hAfter

theorem after?_skipBlanks_append {b : UInt8} {bytes rest : Bytes}
    (hAfter : after? b (skipBlanks bytes) = some rest) :
    after? b (skipBlanks (bytes ++ extra)) = some (rest ++ extra) := by
  have hSome := ne_nil_of_after? hAfter
  rw [skipBlanks_append hSome, after?_append b hSome, hAfter]
  rfl

/-! ### Texts and numbers -/

theorem continues_pieces? : Continues extra pieces? pieces? := by
  intro bytes
  induction bytes using pieces?.induct with
  | case1 => intro pieces rest hRead; cases hRead
  | case2 tail =>
    intro pieces rest hRead
    rw [pieces?.eq_def] at hRead ⊢
    cases hRead
    rfl
  | case3 b tail hQuote hControl =>
    intro pieces rest hRead
    rw [pieces?.eq_def] at hRead
    simp only [if_neg hQuote, if_pos hControl] at hRead
    cases hRead
  | case4 hQuote hControl =>
    intro pieces rest hRead
    rw [pieces?.eq_def] at hRead
    cases hRead
  | case5 h₁ h₂ h₃ h₄ tail hQuote hControl ih =>
    intro pieces rest hRead
    rw [pieces?.eq_def] at hRead ⊢
    simp only [if_neg hQuote, if_neg hControl, if_true, List.cons_append, Option.bind_eq_bind,
      Option.bind_eq_some_iff, Prod.exists] at hRead ⊢
    obtain ⟨n, hUnit, others, last, hOthers, hLast⟩ := hRead
    cases hLast
    exact ⟨n, hUnit, others, rest ++ extra, ih _ _ hOthers, rfl⟩
  | case6 tail hShort hQuote hControl =>
    intro pieces rest hRead
    rw [pieces?.eq_def] at hRead
    simp only [if_neg hQuote, if_neg hControl, if_true] at hRead
    cases hRead
  | case7 letter tail hLetter hQuote hControl ih =>
    intro pieces rest hRead
    rw [pieces?.eq_def] at hRead ⊢
    simp only [if_neg hQuote, if_neg hControl, if_neg hLetter, if_true, List.cons_append,
      Option.bind_eq_bind, Option.bind_eq_some_iff, Prod.exists] at hRead ⊢
    obtain ⟨value, hValue, others, last, hOthers, hLast⟩ := hRead
    cases hLast
    exact ⟨value, hValue, others, rest ++ extra, ih _ _ hOthers, rfl⟩
  | case8 b tail hQuote hControl hEscape ih =>
    intro pieces rest hRead
    rw [List.cons_append]
    rw [pieces?.eq_def] at hRead ⊢
    simp only [if_neg hQuote, if_neg hControl, if_neg hEscape, Option.bind_eq_bind,
      Option.bind_eq_some_iff, Prod.exists] at hRead ⊢
    obtain ⟨others, last, hOthers, hLast⟩ := hRead
    cases hLast
    exact ⟨others, rest ++ extra, ih _ _ hOthers, rfl⟩

theorem digits_append {bytes rest : Bytes} {found : List Nat} (hSome : rest ≠ [])
    (hDigits : digits bytes = (found, rest)) :
    digits (bytes ++ extra) = (found, rest ++ extra) := by
  induction bytes generalizing found with
  | nil => cases hDigits; exact absurd rfl hSome
  | cons b bytes ih =>
    rw [List.cons_append]
    rw [digits] at hDigits ⊢
    cases hDigit : digit? b with
    | none =>
      rw [hDigit] at hDigits
      cases hDigits
      rfl
    | some value =>
      rw [hDigit] at hDigits
      cases hDigits
      rw [ih rfl]

theorem continues_someDigits? : ContinuesInside extra someDigits? someDigits? := by
  intro bytes found rest hSome hRead
  rw [someDigits?] at hRead ⊢
  rcases hDigits : digits bytes with ⟨digits, left⟩
  rw [hDigits] at hRead
  cases digits with
  | nil => cases hRead
  | cons digit digits =>
    cases hRead
    rw [digits_append hSome hDigits]

theorem continues_whole? : ContinuesInside extra whole? whole? := by
  intro bytes found rest hSome hRead
  simp only [whole?, Option.bind_eq_bind, Option.bind_eq_some_iff, Prod.exists] at hRead ⊢
  obtain ⟨digits, left, hDigits, hRead⟩ := hRead
  split at hRead
  next => cases hRead
  next hZero =>
    cases hRead
    exact ⟨found, rest ++ extra, continues_someDigits? _ _ _ hSome hDigits, if_neg hZero⟩

theorem continues_fraction? : ContinuesInside extra fraction? fraction? := by
  intro bytes found rest hSome hRead
  rw [fraction?] at hRead ⊢
  cases hPoint : after? (ascii '.') bytes with
  | none =>
    rw [hPoint] at hRead
    cases hRead
    rw [after?_append _ hSome, hPoint]
    rfl
  | some behind =>
    rw [hPoint] at hRead
    simp only [Option.bind_eq_bind, Option.bind_eq_some_iff, Prod.exists] at hRead
    obtain ⟨digits, left, hDigits, hLast⟩ := hRead
    cases hLast
    rw [after?_append _ (ne_nil_of_after? hPoint), hPoint]
    simp only [Option.map_some, continues_someDigits? _ _ _ hSome hDigits]
    rfl

/-- Behind an optional mark, one of two bytes may come. -/
theorem orElse_after?_append (a b : UInt8) {bytes : Bytes} (hSome : bytes ≠ []) :
    (after? a (bytes ++ extra) <|> after? b (bytes ++ extra)) =
      (after? a bytes <|> after? b bytes).map (· ++ extra) := by
  rw [after?_append a hSome, after?_append b hSome]
  cases after? a bytes with
  | some rest => rfl
  | none => rfl

theorem continues_exponent? : ContinuesInside extra exponent? exponent? := by
  intro bytes found rest hSome hRead
  have hNotNil : bytes ≠ [] := by
    rintro rfl
    cases hRead
    exact hSome rfl
  rw [exponent?] at hRead ⊢
  rw [orElse_after?_append _ _ hNotNil]
  cases hMark : after? (ascii 'e') bytes <|> after? (ascii 'E') bytes with
  | none =>
    rw [hMark] at hRead
    cases hRead
    rfl
  | some behind =>
    rw [hMark] at hRead
    simp only [Option.bind_eq_bind, Option.bind_eq_some_iff, Prod.exists] at hRead
    obtain ⟨digits, left, hDigits, hLast⟩ := hRead
    cases hLast
    have hBehind : behind ≠ [] := by
      rintro rfl
      cases hDigits
    have hUnsigned : ((after? (ascii '-') (behind ++ extra) <|>
        after? (ascii '+') (behind ++ extra)).getD (behind ++ extra)) =
          (after? (ascii '-') behind <|> after? (ascii '+') behind).getD behind ++ extra := by
      rw [orElse_after?_append _ _ hBehind, Option.getD_map]
    simp only [Option.map_some, hUnsigned, continues_someDigits? _ _ _ hSome hDigits,
      isSome_after?_append _ hBehind, Option.bind_eq_bind, Option.bind_some]
    rfl

theorem continues_number? : ContinuesInside extra number? number? := by
  intro bytes document rest hSome hRead
  simp only [number?, Option.bind_eq_bind, Option.bind_eq_some_iff, Prod.exists] at hRead
  obtain ⟨whole, tail, hWhole, fraction, left, hFraction, exponent, last, hExponent, hLast⟩ := hRead
  cases hLast
  have hLeft : left ≠ [] := by
    rintro rfl
    cases hExponent
    exact hSome rfl
  have hTail : tail ≠ [] := by
    rintro rfl
    cases hFraction
    exact hLeft rfl
  have hBytes : bytes ≠ [] := by
    rintro rfl
    cases hWhole
  have hUnsigned : (after? (ascii '-') (bytes ++ extra)).getD (bytes ++ extra) =
      (after? (ascii '-') bytes).getD bytes ++ extra := by
    rw [after?_append _ hBytes, Option.getD_map]
  simp only [number?, hUnsigned, continues_whole? _ _ _ hTail hWhole,
    continues_fraction? _ _ _ hLeft hFraction, continues_exponent? _ _ _ hSome hExponent,
    isSome_after?_append _ hBytes, Option.bind_eq_bind, Option.bind_some]
  rfl

theorem continues_word? (word : String) (document : Document) :
    Continues extra (word? word document) (word? word document) := by
  intro bytes found rest hRead
  simp only [word?] at hRead ⊢
  split at hRead
  next hWord =>
    cases hRead
    obtain ⟨tail, rfl⟩ := List.isPrefixOf_iff_prefix.mp hWord
    rw [if_pos (by rw [List.append_assoc]; simp), List.append_assoc, List.drop_left,
      List.drop_left]
  next => cases hRead

/-! ### Values -/

section
variable {read later : Bytes → Option (Document × Bytes)}
  (hRead : ContinuesInside extra read later) {steps more : Nat} (hSteps : steps ≤ more)
include hRead hSteps

theorem continues_items? : Continues extra (items? read steps) (items? later more) := by
  induction steps generalizing more with
  | zero => intro bytes items rest hItems; cases hItems
  | succ steps ih =>
    obtain ⟨left, rfl⟩ := Nat.exists_eq_succ_of_ne_zero (show more ≠ 0 by omega)
    intro bytes items rest hItems
    simp only [items?, Option.bind_eq_bind, Option.bind_eq_some_iff, Prod.exists] at hItems ⊢
    obtain ⟨item, behind, hItem, hItems⟩ := hItems
    have hBlanks : skipBlanks behind ≠ [] := by
      intro hNone
      rw [hNone] at hItems
      cases hItems
    refine ⟨item, behind ++ extra, hRead _ _ _ (ne_nil_of_skipBlanks hBlanks) hItem, ?_⟩
    rw [skipBlanks_append hBlanks, after?_append _ hBlanks]
    cases hClose : after? (ascii ']') (skipBlanks behind) with
    | some last =>
      rw [hClose] at hItems
      cases hItems
      rfl
    | none =>
      rw [hClose] at hItems
      simp only [Option.bind_eq_some_iff, Prod.exists] at hItems
      obtain ⟨tail, hComma, others, last, hOthers, hLast⟩ := hItems
      cases hLast
      simp only [Option.map_none, after?_append _ hBlanks, hComma, Option.map_some,
        Option.bind_some, ih (Nat.le_of_succ_le_succ hSteps) _ _ _ hOthers]
      rfl

theorem continues_entries? : Continues extra (entries? read steps) (entries? later more) := by
  induction steps generalizing more with
  | zero => intro bytes entries rest hEntries; cases hEntries
  | succ steps ih =>
    obtain ⟨left, rfl⟩ := Nat.exists_eq_succ_of_ne_zero (show more ≠ 0 by omega)
    intro bytes entries rest hEntries
    simp only [entries?, Option.bind_eq_bind, Option.bind_eq_some_iff, Prod.exists] at hEntries ⊢
    obtain ⟨opened, hOpened, key, named, hKey, marked, hMarked, value, behind, hValue, hEntries⟩ :=
      hEntries
    have hBlanks : skipBlanks behind ≠ [] := by
      intro hNone
      rw [hNone] at hEntries
      cases hEntries
    refine ⟨opened ++ extra, after?_skipBlanks_append hOpened, key, named ++ extra,
      continues_pieces? _ _ _ hKey, marked ++ extra, after?_skipBlanks_append hMarked, value,
      behind ++ extra, hRead _ _ _ (ne_nil_of_skipBlanks hBlanks) hValue, ?_⟩
    rw [skipBlanks_append hBlanks, after?_append _ hBlanks]
    cases hClose : after? (ascii '\x7d') (skipBlanks behind) with
    | some last =>
      rw [hClose] at hEntries
      cases hEntries
      rfl
    | none =>
      rw [hClose] at hEntries
      simp only [Option.bind_eq_some_iff, Prod.exists] at hEntries
      obtain ⟨tail, hComma, others, last, hOthers, hLast⟩ := hEntries
      cases hLast
      simp only [Option.map_none, after?_append _ hBlanks, hComma, Option.map_some,
        Option.bind_some, ih (Nat.le_of_succ_le_succ hSteps) _ _ _ hOthers]
      rfl

end

/-- Between two marks nothing may stand, or parts. -/
theorem continues_between {β : Type} {close : UInt8} {nothing : Document} {write : β → Document}
    {parts? later? : Bytes → Option (β × Bytes)} (hParts : Continues extra parts? later?)
    (hBlank : ∀ bytes, skipBlanks bytes = [] → parts? bytes = none) :
    Continues extra
      (fun bytes => match after? close (skipBlanks bytes) with
        | some rest => some (nothing, rest)
        | none => do
          let (parts, rest) ← parts? bytes
          return (write parts, rest))
      (fun bytes => match after? close (skipBlanks bytes) with
        | some rest => some (nothing, rest)
        | none => do
          let (parts, rest) ← later? bytes
          return (write parts, rest)) := by
  intro bytes document rest hRead
  cases hClose : after? close (skipBlanks bytes) with
  | some last =>
    simp only [hClose] at hRead
    cases hRead
    simp only [after?_skipBlanks_append hClose]
  | none =>
    simp only [hClose, Option.bind_eq_bind, Option.bind_eq_some_iff, Prod.exists] at hRead
    obtain ⟨parts, last, hFound, hLast⟩ := hRead
    cases hLast
    have hSome : skipBlanks bytes ≠ [] := by
      intro hNone
      rw [hBlank bytes hNone] at hFound
      cases hFound
    simp only [skipBlanks_append hSome, after?_append close hSome, hClose, Option.map_none,
      hParts _ _ _ hFound, Option.bind_eq_bind, Option.bind_some]
    rfl

theorem value?_of_blank (steps : Nat) {bytes : Bytes} (hBlank : skipBlanks bytes = []) :
    value? steps bytes = none := by
  cases steps with
  | zero => rfl
  | succ steps => rw [value?, hBlank]

theorem items?_of_blank (steps count : Nat) {bytes : Bytes} (hBlank : skipBlanks bytes = []) :
    items? (value? steps) count bytes = none := by
  cases count with
  | zero => rfl
  | succ count => rw [items?, value?_of_blank steps hBlank]; rfl

theorem entries?_of_blank (steps count : Nat) {bytes : Bytes} (hBlank : skipBlanks bytes = []) :
    entries? (value? steps) count bytes = none := by
  cases count with
  | zero => rfl
  | succ count => rw [entries?, hBlank]; rfl

/-- A value is read the same with more bytes behind it, if it closes with a mark of its own or the
bytes went on before. -/
theorem value?_append {steps more : Nat} (hSteps : steps ≤ more) {bytes rest : Bytes}
    {document : Document} (hRead : value? steps bytes = some (document, rest))
    (hEnds : Frame.isDelimited bytes = true ∨ rest ≠ []) :
    value? more (bytes ++ extra) = some (document, rest ++ extra) := by
  induction steps generalizing more bytes document rest with
  | zero => cases hRead
  | succ steps ih =>
    obtain ⟨left, rfl⟩ := Nat.exists_eq_succ_of_ne_zero (show more ≠ 0 by omega)
    have hLeft : steps ≤ left := Nat.le_of_succ_le_succ hSteps
    have hValue : ContinuesInside extra (value? steps) (value? left) :=
      fun _ _ _ hSome hInner => ih hLeft hInner (Or.inr hSome)
    rw [value?] at hRead ⊢
    rw [Frame.isDelimited] at hEnds
    cases hStart : skipBlanks bytes with
    | nil => rw [hStart] at hRead; cases hRead
    | cons first tail =>
      have hSome : skipBlanks bytes ≠ [] := by rw [hStart]; exact List.cons_ne_nil first tail
      rw [skipBlanks_append hSome, hStart]
      rw [hStart] at hRead hEnds
      simp only [List.cons_append] at hRead hEnds ⊢
      split at hRead
      next hQuote =>
        simp only [if_pos hQuote, Option.bind_eq_bind, Option.bind_eq_some_iff, Prod.exists]
          at hRead ⊢
        obtain ⟨pieces, last, hPieces, hLast⟩ := hRead
        cases hLast
        exact ⟨pieces, rest ++ extra, continues_pieces? _ _ _ hPieces, rfl⟩
      next hQuote =>
        rw [if_neg hQuote]
        split at hRead
        next hBracket =>
          rw [if_pos hBracket]
          exact continues_between (continues_items? hValue hLeft)
            (fun _ hBlank => items?_of_blank steps steps hBlank) _ _ _ hRead
        next hBracket =>
          rw [if_neg hBracket]
          split at hRead
          next hBrace =>
            rw [if_pos hBrace]
            exact continues_between (continues_entries? hValue hLeft)
              (fun _ hBlank => entries?_of_blank steps steps hBlank) _ _ _ hRead
          next hBrace =>
            rw [if_neg hBrace]
            split at hRead
            next hNull =>
              rw [if_pos hNull]
              exact continues_word? _ _ _ _ _ hRead
            next hNull =>
              rw [if_neg hNull]
              split at hRead
              next hTrue =>
                rw [if_pos hTrue]
                exact continues_word? _ _ _ _ _ hRead
              next hTrue =>
                rw [if_neg hTrue]
                split at hRead
                next hFalse =>
                  rw [if_pos hFalse]
                  exact continues_word? _ _ _ _ _ hRead
                next hFalse =>
                  rw [if_neg hFalse]
                  refine continues_number? _ _ _ (hEnds.resolve_left ?_) hRead
                  intro hMark
                  have hMarks : first ∈ [ascii '"', ascii '[', ascii '\x7b'] :=
                    List.contains_iff_mem.mp hMark
                  simp only [List.mem_cons, List.not_mem_nil, or_false] at hMarks
                  exact hMarks.elim hQuote fun hOther => hOther.elim hBracket hBrace

theorem read?_append {bytes rest : Bytes} {document : Document}
    (hRead : read? bytes = some (document, rest)) (hDelimited : Frame.isDelimited bytes = true) :
    read? (bytes ++ extra) = some (document, rest ++ extra) :=
  value?_append (by rw [List.length_append]; omega) hRead (Or.inl hDelimited)

end Json

end VersionedCatalog
