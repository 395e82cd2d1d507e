import Mathlib.Algebra.Group.Nat.Defs
import VersionedCatalog.Proofs.Data

/-! # Reading what was written in CBOR

A head that was written is read as the head of its major type with its number, whatever follows it.
By induction on the document, what was written of data is read as this data, with what follows left
over (`Cbor.item?_write?`).
-/

namespace VersionedCatalog

namespace Bytes

theorem take?_append (front rest : Bytes) : take? front.length (front ++ rest) = some (front, rest) := by
  simp [take?]

end Bytes

namespace Cbor

/-- But for the last major type, the width of the number does not matter. -/
theorem Head.of?_width {major : Nat} (hMajor : major < 7) (info other : Nat) (n : Nat) :
    Head.of? major info (some n) = Head.of? major other (some n) := by
  have hCases : major = 0 ∨ major = 1 ∨ major = 2 ∨ major = 3 ∨ major = 4 ∨ major = 5 ∨ major = 6 := by
    omega
  rcases hCases with rfl | rfl | rfl | rfl | rfl | rfl | rfl <;> rfl

section
variable {major info : Nat} (hMajor : major < 7)
include hMajor

theorem firstByte (hInfo : info < 32) :
    (UInt8.ofNat (32 * major + info)).toNat / 32 = major ∧
      (UInt8.ofNat (32 * major + info)).toNat % 32 = info := by
  have hByte : (UInt8.ofNat (32 * major + info)).toNat = 32 * major + info := by
    simp
    omega
  rw [hByte]
  omega

theorem head?_short (hInfo : info < 24) (rest : Bytes) :
    head? (UInt8.ofNat (32 * major + info) :: rest) =
      (Head.of? major 0 (some info)).map fun head => (head, rest) := by
  obtain ⟨hType, hLow⟩ := firstByte hMajor (show info < 32 by omega)
  simp only [head?, hType, hLow, if_pos hInfo, Head.of?_width hMajor info 0]

theorem head?_wide {width n : Nat} (hInfo : 24 ≤ info ∧ info < 28)
    (hWidth : 1 <<< (info - 24) = width) (hFits : n < 256 ^ width) (rest : Bytes) :
    head? (UInt8.ofNat (32 * major + info) :: (Bytes.big width n ++ rest)) =
      (Head.of? major 0 (some n)).map fun head => (head, rest) := by
  obtain ⟨hType, hLow⟩ := firstByte hMajor (show info < 32 by omega)
  have hDigits : Bytes.take? width (Bytes.big width n ++ rest) =
      some (Bytes.big width n, rest) := by
    have hTake := Bytes.take?_append (Bytes.big width n) rest
    rwa [Bytes.length_big] at hTake
  have hValue : Bytes.ofBig (Bytes.big width n) = n := by
    rw [Bytes.ofBig_big]
    exact Nat.mod_eq_of_lt hFits
  have hLong : ¬ info < 24 := by omega
  simp only [head?, hType, hLow, if_neg hLong, if_pos hInfo.2, hWidth, hDigits, hValue,
    Option.bind_eq_bind, Option.bind_some, Head.of?_width hMajor info 0]
  cases Head.of? major 0 (some n) <;> rfl

/-- A written head is read as the head with the number that was written. -/
theorem head?_writeHead? {n : Nat} {head : Bytes} (hWrite : writeHead? major n = some head)
    (rest : Bytes) :
    head? (head ++ rest) = (Head.of? major 0 (some n)).map fun found => (found, rest) := by
  unfold writeHead? at hWrite
  split at hWrite
  next hFits =>
    cases hWrite
    exact head?_short hMajor hFits rest
  next =>
    split at hWrite
    next hFits =>
      cases hWrite
      exact head?_wide hMajor (by decide) rfl hFits rest
    next =>
      split at hWrite
      next hFits =>
        cases hWrite
        exact head?_wide hMajor (by decide) rfl hFits rest
      next =>
        split at hWrite
        next hFits =>
          cases hWrite
          exact head?_wide hMajor (by decide) rfl hFits rest
        next =>
          split at hWrite
          next hFits =>
            cases hWrite
            exact head?_wide hMajor (by decide) rfl hFits rest
          next => cases hWrite

end

theorem length_pos_of_writeHead? {major n : Nat} {head : Bytes}
    (hWrite : writeHead? major n = some head) : 0 < head.length := by
  cases head with
  | nil => simp [writeHead?] at hWrite; grind
  | cons first rest => simp

/-! ### Items -/

theorem exists_of_write?_text {value : String} {whole : Bool} {bytes : Bytes}
    (hWrite : write? (.text value whole) = some bytes) :
    ∃ head, writeHead? 3 (Utf8.encode value).length = some head ∧
      bytes = head ++ Utf8.encode value := by
  simp only [write?, Option.bind_eq_bind, Option.bind_eq_some_iff, Option.pure_def,
    Option.some.injEq] at hWrite
  obtain ⟨head, hHead, hBytes⟩ := hWrite
  exact ⟨head, hHead, hBytes.symm⟩

theorem exists_of_write?_list {items : List Document} {bytes : Bytes}
    (hWrite : write? (.list items) = some bytes) :
    ∃ head body, writeHead? 4 items.length = some head ∧ writeItems? items = some body ∧
      bytes = head ++ body := by
  simp only [write?, Option.bind_eq_bind, Option.bind_eq_some_iff, Option.pure_def,
    Option.some.injEq] at hWrite
  obtain ⟨head, hHead, body, hBody, hBytes⟩ := hWrite
  exact ⟨head, body, hHead, hBody, hBytes.symm⟩

theorem exists_of_write?_dict {entries : List (Document × Document)} {bytes : Bytes}
    (hWrite : write? (.dict entries) = some bytes) :
    ∃ head body, writeHead? 5 entries.length = some head ∧ writeEntries? entries = some body ∧
      bytes = head ++ body := by
  simp only [write?, Option.bind_eq_bind, Option.bind_eq_some_iff, Option.pure_def,
    Option.some.injEq] at hWrite
  obtain ⟨head, hHead, body, hBody, hBytes⟩ := hWrite
  exact ⟨head, body, hHead, hBody, hBytes.symm⟩

theorem item?_text {value : String} {bytes : Bytes}
    (hWrite : write? (.ofText value) = some bytes) {steps : Nat} (hSteps : 0 < steps)
    (rest : Bytes) : item? steps (bytes ++ rest) = some (.ofText value, rest) := by
  obtain ⟨head, hHead, rfl⟩ := exists_of_write?_text hWrite
  obtain ⟨left, rfl⟩ := Nat.exists_eq_succ_of_ne_zero (Nat.ne_of_gt hSteps)
  rw [List.append_assoc, item?, head?_writeHead? (by decide) hHead]
  simp [Head.of?, Bytes.take?_append, Utf8.decode?_encode, Document.ofText]

theorem length_pos_of_write? {document : Document} (hData : document.IsData) {bytes : Bytes}
    (hWrite : write? document = some bytes) : 0 < bytes.length := by
  cases document with
  | absent => cases hWrite; simp
  | bool value => cases hWrite; simp
  | int value =>
    rw [write?, if_pos hData.1] at hWrite
    exact length_pos_of_writeHead? hWrite
  | text value whole =>
    obtain ⟨head, hHead, rfl⟩ := exists_of_write?_text hWrite
    exact Nat.lt_of_lt_of_le (length_pos_of_writeHead? hHead) (by simp)
  | list items =>
    obtain ⟨head, body, hHead, _, rfl⟩ := exists_of_write?_list hWrite
    exact Nat.lt_of_lt_of_le (length_pos_of_writeHead? hHead) (by simp)
  | dict entries =>
    obtain ⟨head, body, hHead, _, rfl⟩ := exists_of_write?_dict hWrite
    exact Nat.lt_of_lt_of_le (length_pos_of_writeHead? hHead) (by simp)
  | _ => cases hData

mutual

/-- What was written of data is read as this data. -/
theorem item?_write? (document : Document) (hData : document.IsData) {bytes : Bytes}
    (hWrite : write? document = some bytes) {steps : Nat} (hSteps : bytes.length ≤ steps)
    (rest : Bytes) : item? steps (bytes ++ rest) = some (document, rest) := by
  have hPos := length_pos_of_write? hData hWrite
  obtain ⟨left, rfl⟩ := Nat.exists_eq_succ_of_ne_zero (show steps ≠ 0 by omega)
  cases document with
  | absent => cases hWrite; simp [item?, head?, Head.of?, simple?]
  | bool value => cases hWrite; cases value <;> simp [item?, head?, Head.of?, simple?]
  | int value =>
    rw [write?, if_pos hData.1] at hWrite
    rw [item?, head?_writeHead? (by decide) hWrite]
    simp [Head.of?, Int.toNat_of_nonneg hData.1]
  | text value whole =>
    cases (show whole = true from hData)
    exact item?_text hWrite (Nat.succ_pos left) rest
  | list items =>
    obtain ⟨head, body, hHead, hBody, rfl⟩ := exists_of_write?_list hWrite
    have hHeadPos := length_pos_of_writeHead? hHead
    have hRoom : body.length ≤ left := by
      rw [List.length_append] at hSteps
      omega
    rw [List.append_assoc, item?, head?_writeHead? (by decide) hHead]
    simp [Head.of?, itemsOf_writeItems? items hData hBody hRoom rest]
  | dict entries =>
    obtain ⟨head, body, hHead, hBody, rfl⟩ := exists_of_write?_dict hWrite
    have hHeadPos := length_pos_of_writeHead? hHead
    have hRoom : body.length ≤ left := by
      rw [List.length_append] at hSteps
      omega
    rw [List.append_assoc, item?, head?_writeHead? (by decide) hHead]
    simp [Head.of?, entriesOf_writeEntries? entries hData hBody hRoom rest]
  | _ => cases hData

theorem itemsOf_writeItems? (items : List Document) (hData : Document.AreData items)
    {body : Bytes} (hWrite : writeItems? items = some body) {steps : Nat}
    (hSteps : body.length ≤ steps) (rest : Bytes) :
    itemsOf (item? steps) items.length (body ++ rest) = some (items, rest) := by
  cases items with
  | nil => cases hWrite; rfl
  | cons item others =>
    simp only [writeItems?, Option.bind_eq_bind, Option.bind_eq_some_iff, Option.pure_def,
      Option.some.injEq] at hWrite
    obtain ⟨first, hFirst, tail, hTail, rfl⟩ := hWrite
    rw [List.length_append] at hSteps
    have hItem := item?_write? item hData.1 hFirst (show first.length ≤ steps by omega)
      (tail ++ rest)
    have hOthers := itemsOf_writeItems? others hData.2 hTail (show tail.length ≤ steps by omega)
      rest
    simp [itemsOf, List.append_assoc, hItem, hOthers]

theorem entriesOf_writeEntries? (entries : List (Document × Document))
    (hData : Document.AreEntries entries) {body : Bytes}
    (hWrite : writeEntries? entries = some body) {steps : Nat} (hSteps : body.length ≤ steps)
    (rest : Bytes) :
    entriesOf (item? steps) entries.length (body ++ rest) = some (entries, rest) := by
  cases entries with
  | nil => cases hWrite; rfl
  | cons entry others =>
    obtain ⟨key, value⟩ := entry
    obtain ⟨⟨name, hKey⟩, hValue, hRest⟩ := hData
    simp only [writeEntries?, Option.bind_eq_bind, Option.bind_eq_some_iff, Option.pure_def,
      Option.some.injEq] at hWrite
    obtain ⟨first, hFirst, second, hSecond, tail, hTail, rfl⟩ := hWrite
    rw [List.length_append, List.length_append] at hSteps
    rw [hKey] at hFirst ⊢
    have hPos := length_pos_of_write? (Document.isData_ofText name) hFirst
    have hName := item?_text hFirst (show 0 < steps by omega) (second ++ (tail ++ rest))
    have hItem := item?_write? value hValue hSecond (show second.length ≤ steps by omega)
      (tail ++ rest)
    have hOthers := entriesOf_writeEntries? others hRest hTail
      (show tail.length ≤ steps by omega) rest
    simp [entriesOf, List.append_assoc, hName, hItem, hOthers]

end

theorem read?_write? {document : Document} (hData : document.IsData) {bytes : Bytes}
    (hWrite : write? document = some bytes) : read? bytes = some (document, []) := by
  have hItem := item?_write? document hData hWrite (Nat.le_refl bytes.length) []
  rwa [List.append_nil] at hItem

end Cbor

end VersionedCatalog
