import Mathlib.Data.Nat.Digits.Defs
import VersionedCatalog.Proofs.Checksums

/-! # Checksums bit by bit

Bits that go into a register one after another, no more of them than the register has, go into it as
one number (`Crc32.foldl_bitStep`). A byte is eight of them, so the checksum through the table is
the one that takes a bit at a time (`Crc32.checksum_bit_by_bit`). Four bytes are as many bits as the
register has: what went in can be told from what is left in it, and a change within four bytes in a
row is never missed (`Crc32.detects_bursts`).
-/

namespace VersionedCatalog

namespace Crc32

/-! ### Bits as numbers -/

/-- Bits as a number, low bit first. -/
def ofBits (bits : List Bool) : Nat := Nat.ofDigits 2 (bits.map Bool.toNat)

theorem ofBits_cons (bit : Bool) (rest : List Bool) :
    ofBits (bit :: rest) = bit.toNat + 2 * ofBits rest := Nat.ofDigits_cons

theorem digit_lt {bits : List Bool} : ∀ digit ∈ bits.map Bool.toNat, digit < 2 := by
  intro digit hMem
  obtain ⟨bit, _, rfl⟩ := List.mem_map.mp hMem
  exact bit.toNat_lt

theorem ofBits_lt (bits : List Bool) : ofBits bits < 2 ^ bits.length := by
  have hBound := Nat.ofDigits_lt_base_pow_length Nat.one_lt_two (@digit_lt bits)
  rwa [List.length_map] at hBound

theorem ofBits_inj {a b : List Bool} (hLength : a.length = b.length) (hSame : ofBits a = ofBits b) :
    a = b := by
  have hDigits : a.map Bool.toNat = b.map Bool.toNat :=
    Nat.ofDigits_inj_of_len_eq Nat.one_lt_two (by simp [hLength]) digit_lt digit_lt hSame
  exact (List.map_inj_right (by decide)).mp hDigits

/-- The low bits of a number are the number up to what is above them. -/
theorem ofBits_testBit (width n : Nat) :
    ofBits ((List.range width).map n.testBit) = n % 2 ^ width := by
  induction width generalizing n with
  | zero => rw [Nat.pow_zero, Nat.mod_one]; rfl
  | succ width ih =>
    have hRest : (List.range width).map (n.testBit ∘ Nat.succ) =
        (List.range width).map (n / 2).testBit :=
      List.map_congr_left fun i _ => Nat.testBit_succ n i
    rw [List.range_succ_eq_map, List.map_cons, List.map_map, hRest, ofBits_cons, ih,
      Nat.toNat_testBit, Nat.pow_zero, Nat.div_one, Nat.pow_succ', Nat.mod_mul]

theorem ofBits_bits (byte : UInt8) : ofBits (bits byte) = byte.toNat :=
  (ofBits_testBit 8 byte.toNat).trans (Nat.mod_eq_of_lt byte.toNat_lt)

theorem length_bits (byte : UInt8) : (bits byte).length = 8 := by
  rw [bits, List.length_map, List.length_range]

theorem length_flatMap_bits (bytes : Bytes) : (bytes.flatMap bits).length = 8 * bytes.length := by
  induction bytes with
  | nil => rfl
  | cons byte rest ih =>
    rw [List.flatMap_cons, List.length_append, length_bits, ih, List.length_cons]
    omega

theorem flatMap_bits_inj {a b : Bytes} (hLength : a.length = b.length)
    (hSame : a.flatMap bits = b.flatMap bits) : a = b := by
  induction a generalizing b with
  | nil => exact (List.length_eq_zero_iff.mp hLength.symm).symm
  | cons byte rest ih =>
    cases b with
    | nil => cases hLength
    | cons other others =>
      rw [List.flatMap_cons, List.flatMap_cons] at hSame
      obtain ⟨hByte, hRest⟩ :=
        List.append_inj hSame ((length_bits byte).trans (length_bits other).symm)
      have hNumber := congrArg ofBits hByte
      rw [ofBits_bits, ofBits_bits] at hNumber
      rw [UInt8.toNat.inj hNumber, ih (Nat.succ.inj hLength) hRest]

/-! ### Bits in a register -/

/-- A step divides the low bit of a number and moves the others down. -/
theorem shift_ofNat {n : Nat} (hSmall : n < 2 ^ 31) (bit : Bool) :
    shift (UInt32.ofNat (bit.toNat + 2 * n)) =
      shift (if bit then 1 else 0) ^^^ UInt32.ofNat n := by
  have hBit := bit.toNat_lt
  have hNumber : (UInt32.ofNat (bit.toNat + 2 * n)).toNat = bit.toNat + 2 * n := by
    rw [UInt32.toNat_ofNat']
    exact Nat.mod_eq_of_lt (by omega)
  have hHalf : UInt32.ofNat (bit.toNat + 2 * n) >>> 1 = UInt32.ofNat n := by
    refine UInt32.toNat.inj ?_
    rw [toNat_shiftRight_one, hNumber, UInt32.toNat_ofNat', Nat.mod_eq_of_lt (by omega)]
    omega
  have hLow : UInt32.ofNat (bit.toNat + 2 * n) &&& 1 = if bit then 1 else 0 := by
    refine UInt32.toNat.inj ?_
    rw [toNat_low, hNumber]
    cases bit <;> simp
  cases bit with
  | false =>
    rw [shift_of_even hLow, hHalf]
    exact (UInt32.zero_xor).symm
  | true =>
    rw [shift_of_odd hLow, hHalf, UInt32.xor_comm]
    rfl

/-- Bits go into a register as one number, which is then divided with it. -/
theorem foldl_bitStep {bits : List Bool} (hShort : bits.length ≤ 32) (register : UInt32) :
    bits.foldl bitStep register =
      shifts bits.length (register ^^^ UInt32.ofNat (ofBits bits)) := by
  induction bits generalizing register with
  | nil => exact UInt32.xor_zero.symm
  | cons bit rest ih =>
    have hRest : rest.length ≤ 31 := Nat.le_of_succ_le_succ hShort
    have hSmall : ofBits rest < 2 ^ 31 :=
      Nat.lt_of_lt_of_le (ofBits_lt rest) (Nat.pow_le_pow_right Nat.two_pos hRest)
    rw [List.foldl_cons, ih (Nat.le_succ_of_le hRest), List.length_cons, shifts, bitStep,
      ofBits_cons, shift_xor, shift_xor, shift_ofNat hSmall, UInt32.xor_assoc]

/-- A step through the table takes the eight bits of a byte. -/
theorem foldl_bits (register : UInt32) (byte : UInt8) :
    (bits byte).foldl bitStep register = tableStep register byte := by
  have hShort : (bits byte).length ≤ 32 := by
    rw [length_bits]
    decide
  rw [foldl_bitStep hShort, ofBits_bits, length_bits, tableStep_eq, UInt32.ofNat_uInt8ToNat]

theorem foldl_flatMap_bits (bytes : Bytes) (register : UInt32) :
    (bytes.flatMap bits).foldl bitStep register = bytes.foldl tableStep register := by
  rw [List.foldl_flatMap]
  simp only [foldl_bits]

/-! ### One bit after another -/

/-- A bit steers a step like the bit that leaves the register: the polynomial is subtracted if they
differ. -/
theorem bitStep_eq (register : UInt32) (bit : Bool) :
    bitStep register bit =
      if register &&& 1 = 1 ↔ bit = true then register >>> 1
      else (register >>> 1) ^^^ polynomial := by
  cases bit with
  | false =>
    have hPlain : bitStep register false = shift register := congrArg shift UInt32.xor_zero
    rcases low_eq_zero_or_one register with hEven | hOdd
    · rw [hPlain, shift_of_even hEven, hEven]
      rfl
    · rw [hPlain, shift_of_odd hOdd, hOdd]
      rfl
  | true =>
    have hTurned : bitStep register true = shift (register ^^^ 1) := rfl
    have hHalf : (register ^^^ 1) >>> 1 = register >>> 1 :=
      UInt32.shiftRight_xor.trans UInt32.xor_zero
    have hLow := xor_and register 1 1
    rcases low_eq_zero_or_one register with hEven | hOdd
    · rw [hEven] at hLow
      rw [hTurned, shift_of_odd hLow, hHalf, hEven]
      rfl
    · rw [hOdd] at hLow
      rw [hTurned, shift_of_even hLow, hHalf, hOdd]
      rfl

/-- **The table is only a shortcut.**  The checksum is the one that takes the message a bit at a
time: the register starts at all ones, moves right with every bit, is reduced by the polynomial if
the bit that leaves it is not the bit of the message, and is complemented at the end. -/
theorem checksum_bit_by_bit (bytes : Bytes) :
    checksum bytes = bitwiseChecksum bytes ∧
    bitwiseChecksum bytes = ~~~ (bytes.flatMap bits).foldl (fun (register : UInt32) bit =>
      if register &&& 1 = 1 ↔ bit = true then register >>> 1
      else (register >>> 1) ^^^ 0xEDB88320) 0xFFFFFFFF := by
  constructor
  · rw [bitwiseChecksum, foldl_flatMap_bits, checksum]
  · have hStep := funext fun register => funext (bitStep_eq register)
    rw [bitwiseChecksum, hStep, polynomial]

/-- The check value of the code, of the digits from one to nine. -/
example : checksum [49, 50, 51, 52, 53, 54, 55, 56, 57] = 0xCBF43926 := by decide +kernel

/-! ### Changes within four bytes -/

/-- What is left of up to four bytes in a register tells which bytes they were. -/
theorem eq_of_foldl_tableStep {register : UInt32} {a b : Bytes} (hLength : a.length = b.length)
    (hShort : a.length ≤ 4) (hSame : a.foldl tableStep register = b.foldl tableStep register) :
    a = b := by
  have hBits : (a.flatMap bits).length = (b.flatMap bits).length := by
    rw [length_flatMap_bits, length_flatMap_bits, hLength]
  have hFew : (a.flatMap bits).length ≤ 32 := by
    rw [length_flatMap_bits]
    omega
  have hSmall : ∀ bits : List Bool, bits.length ≤ 32 →
      (UInt32.ofNat (ofBits bits)).toNat = ofBits bits := fun bits hBound => by
    rw [UInt32.toNat_ofNat']
    exact Nat.mod_eq_of_lt
      (Nat.lt_of_lt_of_le (ofBits_lt bits) (Nat.pow_le_pow_right Nat.two_pos hBound))
  rw [← foldl_flatMap_bits, ← foldl_flatMap_bits, foldl_bitStep hFew, foldl_bitStep (hBits ▸ hFew),
    hBits] at hSame
  have hNumber := congrArg UInt32.toNat ((UInt32.xor_right_inj _).mp (shifts_injective hSame))
  rw [hSmall _ hFew, hSmall _ (hBits ▸ hFew)] at hNumber
  exact flatMap_bits_inj hLength (ofBits_inj hBits hNumber)

theorem take_append_window (bytes : Bytes) (start width : Nat) :
    bytes.take start ++ ((bytes.drop start).take width ++ bytes.drop (start + width)) = bytes := by
  rw [← List.drop_drop, List.take_append_drop, List.take_append_drop]

/-- **A burst is always detected.**  If two byte strings of one length are not the same and differ
nowhere but within four bytes in a row, then their checksums differ. -/
theorem detects_bursts {a b : Bytes} (hLength : a.length = b.length) (hOther : a ≠ b) {start : Nat}
    (hWindow : ∀ i, a[i]? ≠ b[i]? → start ≤ i ∧ i < start + 4) : checksum a ≠ checksum b := by
  have hFront : a.take start = b.take start := by
    refine List.ext_getElem? fun i => ?_
    rw [List.getElem?_take, List.getElem?_take]
    split
    next hLow =>
      refine Decidable.byContradiction fun hNe => ?_
      exact absurd (hWindow i hNe).1 (Nat.not_le.mpr hLow)
    next => rfl
  have hBack : a.drop (start + 4) = b.drop (start + 4) := by
    refine List.ext_getElem? fun i => ?_
    rw [List.getElem?_drop, List.getElem?_drop]
    refine Decidable.byContradiction fun hNe => ?_
    exact absurd (hWindow _ hNe).2 (by omega)
  intro hSame
  refine hOther ?_
  rw [checksum, checksum, UInt32.not_inj, ← take_append_window a start 4,
    ← take_append_window b start 4, hFront, hBack] at hSame
  simp only [List.foldl_append] at hSame
  -- the same bytes before and behind leave only what is in the window to tell the registers apart
  have hInside : (a.drop start).take 4 = (b.drop start).take 4 :=
    eq_of_foldl_tableStep (by simp [hLength]) (List.length_take_le 4 _) (foldl_tableStep_inj hSame)
  rw [← take_append_window a start 4, ← take_append_window b start 4, hFront, hInside, hBack]

end Crc32

namespace Sample

def digits : Bytes := [49, 50, 51, 52, 53, 54, 55, 56, 57]

/-- The digits with other bytes from the third to the sixth. -/
def smudged : Bytes := [49, 50, 0, 255, 53, 7, 55, 56, 57]

theorem detects_bursts_smudged : digits.length = smudged.length ∧ digits ≠ smudged ∧
    (∀ i, digits[i]? ≠ smudged[i]? → 2 ≤ i ∧ i < 2 + 4) ∧
    Crc32.checksum digits ≠ Crc32.checksum smudged := by
  have hLength : digits.length = smudged.length := rfl
  have hOther : digits ≠ smudged := by decide
  have hWindow : ∀ i, digits[i]? ≠ smudged[i]? → 2 ≤ i ∧ i < 2 + 4 := by
    intro i hNe
    rcases Nat.lt_or_ge i 9 with hInside | hBehind
    · have hEach : ∀ j < 9, digits[j]? ≠ smudged[j]? → 2 ≤ j ∧ j < 2 + 4 := by decide
      exact hEach i hInside hNe
    · rw [List.getElem?_eq_none hBehind, List.getElem?_eq_none hBehind] at hNe
      exact absurd rfl hNe
  exact ⟨hLength, hOther, hWindow, Crc32.detects_bursts hLength hOther hWindow⟩

end Sample

end VersionedCatalog
