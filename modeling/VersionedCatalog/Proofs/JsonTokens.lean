import VersionedCatalog.Document.Json

/-! # Tokens of JSON read back

A quoted text reads as the text that was written, because every byte of it is written as a piece
that stands for this byte. The digits of a word read as the word, if what follows cannot go on with
the number (`Json.EndsNumber`).
-/

namespace VersionedCatalog

namespace Utf8

theorem encode_ofList (chars : List Char) :
    encode (.ofList chars) = chars.flatMap String.utf8EncodeChar := by
  simp [encode, String.toByteArray_ofList, List.utf8Encode]

end Utf8

namespace Text

/-- The values of the decimal digits of a number. -/
def figures (n : Nat) : List Nat := (Nat.toDigits 10 n).map fun c => c.toNat - 48

theorem figures_of_lt {n : Nat} (hSmall : n < 10) : figures n = [n] := by
  rw [figures, Nat.toDigits_of_lt_base hSmall, List.map_singleton,
    Nat.toNat_digitChar_sub_48_of_lt_ten hSmall]

theorem figures_of_ge {n : Nat} (hLarge : 10 ≤ n) : figures n = figures (n / 10) ++ [n % 10] := by
  have hLast : n % 10 < 10 := Nat.mod_lt n (by decide)
  rw [figures, Nat.toDigits_of_base_le (by decide) hLarge, List.map_append, List.map_singleton,
    Nat.toNat_digitChar_sub_48_of_lt_ten hLast]
  rfl

theorem figures_ne_nil (n : Nat) : figures n ≠ [] := by
  simp [figures, Nat.toDigits_ne_nil]

theorem lt_of_mem_figures {n : Nat} : ∀ d ∈ figures n, d < 10 := by
  induction n using Nat.strongRecOn with
  | _ n ih =>
    intro d hMem
    rcases Nat.lt_or_ge n 10 with hSmall | hLarge
    · rw [figures_of_lt hSmall, List.mem_singleton] at hMem
      omega
    · rw [figures_of_ge hLarge, List.mem_append, List.mem_singleton] at hMem
      rcases hMem with hFront | hLast
      · exact ih (n / 10) (by omega) d hFront
      · omega

theorem foldl_figures (n : Nat) :
    (figures n).foldl (fun value digit => 10 * value + digit) 0 = n := by
  induction n using Nat.strongRecOn with
  | _ n ih =>
    rcases Nat.lt_or_ge n 10 with hSmall | hLarge
    · simp [figures_of_lt hSmall]
    · rw [figures_of_ge hLarge, List.foldl_append, ih (n / 10) (by omega)]
      simp only [List.foldl_cons, List.foldl_nil]
      omega

/-- Only zero starts with a zero. -/
theorem head?_figures {n : Nat} (hPos : 0 < n) : (figures n).head? ≠ some 0 := by
  induction n using Nat.strongRecOn with
  | _ n ih =>
    rcases Nat.lt_or_ge n 10 with hSmall | hLarge
    · rw [figures_of_lt hSmall, List.head?_cons, ne_eq, Option.some.injEq]
      omega
    · have hFront := ih (n / 10) (by omega) (by omega)
      rw [figures_of_ge hLarge, List.head?_append]
      cases hHead : (figures (n / 10)).head? with
      | none => exact absurd (List.head?_eq_none_iff.mp hHead) (figures_ne_nil _)
      | some d => rwa [hHead] at hFront

/-- The byte of a decimal digit. -/
def figureByte (d : Nat) : UInt8 := UInt8.ofNat (48 + d)

theorem encodeChar_digitChar {d : Nat} (hDigit : d < 10) :
    String.utf8EncodeChar (Nat.digitChar d) = [figureByte d] := by
  have hAll : ∀ d < 10, String.utf8EncodeChar (Nat.digitChar d) = [figureByte d] := by decide
  exact hAll d hDigit

theorem encode_decimal (n : Nat) : Utf8.encode (decimal n) = (figures n).map figureByte := by
  rw [decimal, Utf8.encode_ofList]
  induction n using Nat.strongRecOn with
  | _ n ih =>
    rcases Nat.lt_or_ge n 10 with hSmall | hLarge
    · rw [Nat.toDigits_of_lt_base hSmall, figures_of_lt hSmall]
      simp [encodeChar_digitChar hSmall]
    · have hLast : n % 10 < 10 := Nat.mod_lt n (by decide)
      rw [Nat.toDigits_of_base_le (by decide) hLarge, figures_of_ge hLarge, List.flatMap_append,
        ih (n / 10) (by omega), List.map_append]
      simp [encodeChar_digitChar hLast]

end Text

namespace Json

/-! ### Texts -/

/-- The piece that a byte of a text is written as. -/
def pieceOf (b : UInt8) : Piece :=
  if b < 0x20 ∧ b ∉ [0x08, 0x09, 0x0A, 0x0C, 0x0D] then .unit b.toNat else .byte b

/-- The digits of the unit that stands for a control character. -/
def controlDigits (n : Nat) : Bytes :=
  [48, 48, UInt8.ofNat (48 + n / 16), UInt8.ofNat (if n % 16 < 10 then 48 + n % 16 else 87 + n % 16)]

theorem encode_control {n : Nat} (hControl : n < 0x20) :
    Utf8.encode ("\\u" ++ Text.hexadecimal 4 n) = ascii '\\' :: ascii 'u' :: controlDigits n := by
  have hAll : ∀ n < 0x20, Utf8.encode ("\\u" ++ Text.hexadecimal 4 n) =
      ascii '\\' :: ascii 'u' :: controlDigits n := by decide +kernel
  exact hAll n hControl

theorem pieces?_control {n : Nat} (hControl : n < 0x20) (tail : Bytes) :
    pieces? (ascii '\\' :: ascii 'u' :: controlDigits n ++ tail) =
      (pieces? tail).map fun found => (.unit n :: found.1, found.2) := by
  have hAll : ∀ n < 0x20, unit? 48 48 (UInt8.ofNat (48 + n / 16))
      (UInt8.ofNat (if n % 16 < 10 then 48 + n % 16 else 87 + n % 16)) = some n := by decide
  simp only [controlDigits, List.cons_append, List.nil_append]
  rw [pieces?]
  simp only [show ¬ ascii '\\' = ascii '"' by decide, show ¬ ascii '\\' < 0x20 by decide, if_false,
    if_true, hAll n hControl, Option.bind_eq_bind, Option.bind_some]
  cases pieces? tail <;> rfl

theorem pieces?_letter {letter b : UInt8} (hLetter : escaped? letter = some b) (tail : Bytes) :
    pieces? (ascii '\\' :: letter :: tail) =
      (pieces? tail).map fun found => (.byte b :: found.1, found.2) := by
  have hNotUnit : ¬ letter = ascii 'u' := fun hEq => by
    have hUnit : escaped? (ascii 'u') = none := by decide
    rw [hEq, hUnit] at hLetter
    cases hLetter
  rw [pieces?.eq_def]
  simp only [show ¬ ascii '\\' = ascii '"' by decide, show ¬ ascii '\\' < 0x20 by decide, if_false,
    if_true, hNotUnit, hLetter, Option.bind_eq_bind, Option.bind_some]
  cases pieces? tail <;> rfl

theorem pieces?_plain {b : UInt8} (hQuote : b ≠ ascii '"') (hControl : ¬ b < 0x20)
    (hEscape : b ≠ ascii '\\') (tail : Bytes) :
    pieces? (b :: tail) = (pieces? tail).map fun found => (.byte b :: found.1, found.2) := by
  rw [pieces?.eq_def]
  simp only [if_neg hQuote, if_neg hControl, if_neg hEscape, Option.bind_eq_bind]
  cases pieces? tail <;> rfl

/-- Every byte is written as the piece that stands for it. -/
theorem pieces?_escape (b : UInt8) (tail : Bytes) :
    pieces? (escape b ++ tail) =
      (pieces? tail).map fun found => (pieceOf b :: found.1, found.2) := by
  unfold escape
  split
  next hSame =>
    rcases hSame with rfl | rfl
    · exact pieces?_letter (by decide) tail
    · exact pieces?_letter (by decide) tail
  next hOther =>
    split
    next hEq => subst hEq; exact pieces?_letter (by decide) tail
    next hNot8 =>
      split
      next hEq => subst hEq; exact pieces?_letter (by decide) tail
      next hNot9 =>
        split
        next hEq => subst hEq; exact pieces?_letter (by decide) tail
        next hNotA =>
          split
          next hEq => subst hEq; exact pieces?_letter (by decide) tail
          next hNotC =>
            split
            next hEq => subst hEq; exact pieces?_letter (by decide) tail
            next hNotD =>
              split
              next hControl =>
                have hSmall : b.toNat < 0x20 := UInt8.lt_iff_toNat_lt.mp hControl
                have hPiece : pieceOf b = .unit b.toNat := by
                  refine if_pos ⟨hControl, ?_⟩
                  simp [hNot8, hNot9, hNotA, hNotC, hNotD]
                rw [encode_control hSmall, pieces?_control hSmall, hPiece]
              next hNotControl =>
                have hPiece : pieceOf b = .byte b := if_neg fun hBoth => hNotControl hBoth.1
                rw [List.singleton_append, hPiece]
                exact pieces?_plain (fun hEq => hOther (Or.inl hEq)) hNotControl
                  (fun hEq => hOther (Or.inr hEq)) tail

theorem pieces?_flatMap_escape (bytes rest : Bytes) :
    pieces? (bytes.flatMap escape ++ ascii '"' :: rest) = some (bytes.map pieceOf, rest) := by
  induction bytes with
  | nil =>
    rw [List.flatMap_nil, List.nil_append, pieces?.eq_def]
    simp
  | cons b bytes ih => rw [List.flatMap_cons, List.append_assoc, pieces?_escape, ih]; rfl

theorem encodeChar_control {n : Nat} (hControl : n < 0x20) : encodeChar n = [UInt8.ofNat n] := by
  have hAll : ∀ n < 0x20, encodeChar n = [UInt8.ofNat n] := by decide +kernel
  exact hAll n hControl

theorem pieceOf_eq_unit {b : UInt8} {n : Nat} (hPiece : pieceOf b = .unit n) :
    n < 0x20 ∧ b = UInt8.ofNat n := by
  unfold pieceOf at hPiece
  split at hPiece
  next hBoth =>
    cases hPiece
    exact ⟨UInt8.lt_iff_toNat_lt.mp hBoth.1, UInt8.ofNat_toNat.symm⟩
  next => cases hPiece

theorem pieceOf_eq_byte {b c : UInt8} (hPiece : pieceOf b = .byte c) : b = c := by
  unfold pieceOf at hPiece
  split at hPiece
  next => cases hPiece
  next => exact Piece.byte.inj hPiece

/-- A unit of a control character is one byte, whatever stands behind it. -/
theorem assemble?_control {n : Nat} (hControl : n < 0x20) (rest : List Piece) :
    assemble? (.unit n :: rest) = (assemble? rest).map (UInt8.ofNat n :: ·) := by
  have hHigh : isHighSurrogate n = false := by simp [isHighSurrogate]; omega
  have hLow : isLowSurrogate n = false := by simp [isLowSurrogate]; omega
  cases rest with
  | nil => simp [assemble?, hHigh, hLow, encodeChar_control hControl]
  | cons piece rest =>
    cases piece with
    | byte b =>
      simp only [assemble?, hHigh, hLow, encodeChar_control hControl, Bool.or_false,
        Bool.false_eq_true, if_false]
      cases assemble? rest <;> rfl
    | unit low =>
      rw [assemble?]
      simp only [hHigh, hLow, encodeChar_control hControl, Bool.or_false, Bool.false_and,
        Bool.false_eq_true, if_false]
      cases assemble? (.unit low :: rest) <;> rfl

theorem assemble?_map_pieceOf (bytes : Bytes) : assemble? (bytes.map pieceOf) = some bytes := by
  induction bytes with
  | nil => rfl
  | cons b bytes ih =>
    rw [List.map_cons]
    cases hPiece : pieceOf b with
    | byte c => rw [assemble?, ih, pieceOf_eq_byte hPiece]; rfl
    | unit n =>
      obtain ⟨hControl, hByte⟩ := pieceOf_eq_unit hPiece
      rw [assemble?_control hControl, ih, hByte]
      rfl

theorem quotedText_map_pieceOf (s : String) :
    quotedText ((Utf8.encode s).map pieceOf) = .ofText s := by
  rw [quotedText, assemble?_map_pieceOf]
  simp [Utf8.decode?_encode]

/-! ### Numbers -/

/-- What may stand behind the last digit of a number. -/
def EndsNumber (rest : Bytes) : Prop :=
  ∀ next ∈ rest.head?, next = ascii ',' ∨ next = ascii ']' ∨ next = ascii '\x7d'

theorem digit?_figureByte {d : Nat} (hDigit : d < 10) : digit? (Text.figureByte d) = some d := by
  have hAll : ∀ d < 10, digit? (Text.figureByte d) = some d := by decide
  exact hAll d hDigit

section
variable {rest : Bytes} (hEnd : EndsNumber rest)
include hEnd

theorem digits_end : digits rest = ([], rest) := by
  cases rest with
  | nil => rfl
  | cons next rest => rcases hEnd next rfl with rfl | rfl | rfl <;> rfl

theorem digits_figures {figures : List Nat} (hDigits : ∀ d ∈ figures, d < 10) :
    digits (figures.map Text.figureByte ++ rest) = (figures, rest) := by
  induction figures with
  | nil => exact digits_end hEnd
  | cons d figures ih =>
    obtain ⟨hFirst, hRest⟩ := List.forall_mem_cons.mp hDigits
    rw [List.map_cons, List.cons_append, digits, digit?_figureByte hFirst, ih hRest]

theorem after?_end {b : UInt8} (hOther : b ≠ ascii ',' ∧ b ≠ ascii ']' ∧ b ≠ ascii '\x7d') :
    after? b rest = none := by
  cases rest with
  | nil => rfl
  | cons next rest =>
    refine if_neg fun hEq => ?_
    rcases hEnd next rfl with hNext | hNext | hNext
    · exact hOther.1 (hEq ▸ hNext)
    · exact hOther.2.1 (hEq ▸ hNext)
    · exact hOther.2.2 (hEq ▸ hNext)

theorem whole?_figures (n : Nat) :
    whole? ((Text.figures n).map Text.figureByte ++ rest) = some (Text.figures n, rest) := by
  have hDigits := digits_figures hEnd (Text.lt_of_mem_figures (n := n))
  have hSome : someDigits? ((Text.figures n).map Text.figureByte ++ rest) =
      some (Text.figures n, rest) := by
    rw [someDigits?, hDigits]
    cases hFigures : Text.figures n with
    | nil => exact absurd hFigures (Text.figures_ne_nil n)
    | cons d figures => rfl
  have hPlain : ¬ ((Text.figures n).head? = some 0 ∧ 1 < (Text.figures n).length) := by
    rintro ⟨hZero, hLong⟩
    rcases Nat.eq_zero_or_pos n with rfl | hPos
    · simp [Text.figures_of_lt] at hLong
    · exact Text.head?_figures hPos hZero
  simp [whole?, hSome, hPlain]

omit hEnd in
theorem integer?_figures {n : Nat} (hWord : n < UInt64.size) :
    (Numeral.mk false (Text.figures n) none none).integer? = some (n : Int) := by
  have hFits : Int.ofNat n < (UInt64.size : Int) := Int.ofNat_lt.mpr hWord
  simp only [Numeral.integer?, Numeral.isInteger, Text.foldl_figures, if_pos hFits]
  rfl

/-- The digits of a word read as the word. -/
theorem number?_figures {n : Nat} (hWord : n < UInt64.size) :
    number? ((Text.figures n).map Text.figureByte ++ rest) = some (.int n, rest) := by
  obtain ⟨d, figures, hFigures⟩ := List.exists_cons_of_ne_nil (Text.figures_ne_nil n)
  have hFirst : d < 10 := Text.lt_of_mem_figures d (by rw [hFigures]; exact List.mem_cons_self)
  have hNotMinus : ∀ d < 10, ¬ Text.figureByte d = ascii '-' := by decide
  have hMinus : after? (ascii '-') ((Text.figures n).map Text.figureByte ++ rest) = none := by
    rw [hFigures, List.map_cons, List.cons_append]
    exact if_neg (hNotMinus d hFirst)
  have hFraction : fraction? rest = some (none, rest) := by
    rw [fraction?, after?_end hEnd (by decide)]
  have hExponent : exponent? rest = some (none, rest) := by
    rw [exponent?, after?_end hEnd (by decide), after?_end hEnd (by decide)]
    rfl
  have hDocument : (Numeral.mk false (Text.figures n) none none).toDocument = .int n := by
    rw [Numeral.toDocument, integer?_figures hWord]
  simp only [number?, hMinus, Option.getD_none, whole?_figures hEnd n, hFraction, hExponent,
    Option.bind_eq_bind, Option.bind_some, Option.isSome_none, hDocument, Option.pure_def]

end

end Json

end VersionedCatalog
