import Mathlib.Algebra.Group.Nat.Defs
import VersionedCatalog.Checksum

/-! # Checksums tell bytes apart

One division step is linear and loses nothing (`Crc32.shift_xor`, `Crc32.shift_eq_zero`), so a
register that differs goes on to differ. A step through the table is eight division steps
(`Crc32.tableStep_eq`), into which the byte enters as a difference of the register. Two byte strings
that differ in one byte therefore have different checksums (`Crc32.checksum_set_ne`).
-/

namespace VersionedCatalog.Crc32

/-! ### One bit -/

theorem toNat_low (x : UInt32) : (x &&& 1).toNat = x.toNat % 2 := by
  rw [UInt32.toNat_and]
  exact Nat.and_one_is_mod x.toNat

theorem low_eq_zero_or_one (x : UInt32) : x &&& 1 = 0 ∨ x &&& 1 = 1 := by
  have hLow := toNat_low x
  rcases Nat.mod_two_eq_zero_or_one x.toNat with hEven | hOdd
  · left
    refine UInt32.toNat.inj ?_
    rw [hLow, hEven]
    rfl
  · right
    refine UInt32.toNat.inj ?_
    rw [hLow, hOdd]
    rfl

theorem xor_and (x y mask : UInt32) : (x ^^^ y) &&& mask = (x &&& mask) ^^^ (y &&& mask) := by
  refine UInt32.eq_of_toBitVec_eq (BitVec.eq_of_getElem_eq fun i hi => ?_)
  simp only [UInt32.toBitVec_and, UInt32.toBitVec_xor, BitVec.getElem_and, BitVec.getElem_xor]
  cases mask.toBitVec[i] <;> simp

theorem toNat_shiftRight_one (x : UInt32) : (x >>> 1).toNat = x.toNat / 2 := by
  rw [UInt32.toNat_shiftRight]
  exact Nat.shiftRight_succ x.toNat 0

theorem shift_of_even {x : UInt32} (hEven : x &&& 1 = 0) : shift x = x >>> 1 := by
  rw [shift, hEven]
  rfl

theorem shift_of_odd {x : UInt32} (hOdd : x &&& 1 = 1) : shift x = (x >>> 1) ^^^ polynomial :=
  if_pos hOdd

theorem shift_xor (x y : UInt32) : shift (x ^^^ y) = shift x ^^^ shift y := by
  have hLow := xor_and x y 1
  rcases low_eq_zero_or_one x with hX | hX <;> rcases low_eq_zero_or_one y with hY | hY
  · rw [hX, hY] at hLow
    rw [shift_of_even hX, shift_of_even hY, shift_of_even hLow, UInt32.shiftRight_xor]
  · rw [hX, hY] at hLow
    rw [shift_of_even hX, shift_of_odd hY, shift_of_odd hLow, UInt32.shiftRight_xor,
      UInt32.xor_assoc]
  · rw [hX, hY] at hLow
    rw [shift_of_odd hX, shift_of_even hY, shift_of_odd hLow, UInt32.shiftRight_xor,
      UInt32.xor_assoc, UInt32.xor_assoc, UInt32.xor_comm polynomial]
  · rw [hX, hY] at hLow
    have hBoth : (x >>> 1 ^^^ polynomial) ^^^ (y >>> 1 ^^^ polynomial) = x >>> 1 ^^^ y >>> 1 := by
      rw [UInt32.xor_comm (y >>> 1), ← UInt32.xor_assoc, UInt32.xor_assoc (x >>> 1),
        UInt32.xor_self, UInt32.xor_zero]
    rw [shift_of_odd hX, shift_of_odd hY, shift_of_even hLow, UInt32.shiftRight_xor, hBoth]

/-- Nothing but zero is divided to zero: the polynomial has a bit that no shifted register has. -/
theorem shift_eq_zero {x : UInt32} (hZero : shift x = 0) : x = 0 := by
  have hHalf := toNat_shiftRight_one x
  have hBound := x.toNat_lt
  rcases low_eq_zero_or_one x with hEven | hOdd
  · rw [shift_of_even hEven] at hZero
    have hLow := toNat_low x
    rw [hEven] at hLow
    rw [hZero] at hHalf
    refine UInt32.toNat.inj ?_
    simp only [UInt32.toNat_zero] at hHalf hLow ⊢
    omega
  · rw [shift_of_odd hOdd, UInt32.xor_eq_zero_iff] at hZero
    rw [hZero] at hHalf
    have hPolynomial : polynomial.toNat = 0xEDB88320 := rfl
    omega

/-! ### Some bits -/

theorem shifts_xor (n : Nat) (x y : UInt32) : shifts n (x ^^^ y) = shifts n x ^^^ shifts n y := by
  induction n generalizing x y with
  | zero => rfl
  | succ n ih => rw [shifts, shift_xor, ih, shifts, shifts]

theorem shifts_eq_zero {n : Nat} {x : UInt32} (hZero : shifts n x = 0) : x = 0 := by
  induction n generalizing x with
  | zero => exact hZero
  | succ n ih => exact shift_eq_zero (ih hZero)

theorem shifts_injective {n : Nat} {x y : UInt32} (hSame : shifts n x = shifts n y) : x = y := by
  rw [← UInt32.xor_eq_zero_iff, ← shifts_xor] at hSame
  exact UInt32.xor_eq_zero_iff.mp (shifts_eq_zero hSame)

/-- A register whose low bits are zero only moves. -/
theorem toNat_shifts {n : Nat} {x : UInt32} (hZeros : 2 ^ n ∣ x.toNat) :
    (shifts n x).toNat = x.toNat / 2 ^ n := by
  induction n generalizing x with
  | zero => rw [shifts, Nat.pow_zero, Nat.div_one]
  | succ n ih =>
    obtain ⟨k, hK⟩ := hZeros
    rw [Nat.pow_succ, Nat.mul_comm (2 ^ n), Nat.mul_assoc] at hK
    have hEven : x &&& 1 = 0 := by
      refine UInt32.toNat.inj ?_
      rw [toNat_low, hK, Nat.mul_mod_right]
      rfl
    have hHalf : (shift x).toNat = 2 ^ n * k := by
      rw [shift_of_even hEven, toNat_shiftRight_one, hK, Nat.mul_div_cancel_left _ Nat.two_pos]
    rw [shifts, ih ⟨k, hHalf⟩, hHalf, hK, Nat.pow_succ, Nat.mul_comm (2 ^ n) 2,
      Nat.mul_div_mul_left _ _ Nat.two_pos]

/-! ### One byte -/

theorem toNat_lowByte (x : UInt32) : (x &&& 0xFF).toNat = x.toNat % 256 := by
  rw [UInt32.toNat_and]
  exact Nat.and_two_pow_sub_one_eq_mod x.toNat 8

theorem toNat_shiftRight_eight (x : UInt32) : (x >>> 8).toNat = x.toNat / 256 := by
  rw [UInt32.toNat_shiftRight]
  exact Nat.shiftRight_eq_div_pow x.toNat 8

/-- A byte is gone when it has moved out. -/
theorem shiftRight_eight_eq_zero {x : UInt32} (hByte : x.toNat < 256) : x >>> 8 = 0 := by
  refine UInt32.toNat.inj ?_
  rw [toNat_shiftRight_eight]
  exact Nat.div_eq_of_lt hByte

theorem lowByte_lt (x : UInt32) : (x &&& 0xFF).toNat < 256 := by
  rw [toNat_lowByte]
  exact Nat.mod_lt _ (by decide)

theorem getD_table {low : UInt32} (hLow : low.toNat < 256) :
    table.getD low.toNat 0 = shifts 8 low := by
  simp [table, Array.getD, hLow]

/-- Without its low byte a register only moves. -/
theorem shifts_highBytes (x : UInt32) : shifts 8 (x ^^^ (x &&& 0xFF)) = x >>> 8 := by
  have hLow : (x ^^^ (x &&& 0xFF)) &&& 0xFF = 0 := by
    rw [xor_and, UInt32.and_assoc, UInt32.and_self, UInt32.xor_self]
  have hZeros := toNat_lowByte (x ^^^ (x &&& 0xFF))
  rw [hLow] at hZeros
  have hDvd : 2 ^ 8 ∣ (x ^^^ (x &&& 0xFF)).toNat := Nat.dvd_of_mod_eq_zero hZeros.symm
  have hMoved : (x ^^^ (x &&& 0xFF)) >>> 8 = x >>> 8 := by
    rw [UInt32.shiftRight_xor, shiftRight_eight_eq_zero (lowByte_lt x), UInt32.xor_zero]
  rw [← hMoved]
  exact UInt32.toNat.inj ((toNat_shifts hDvd).trans (toNat_shiftRight_eight _).symm)

/-- A step through the table is eight division steps. -/
theorem tableStep_eq (register : UInt32) (byte : UInt8) :
    tableStep register byte = shifts 8 (register ^^^ byte.toUInt32) := by
  have hByte : byte.toUInt32.toNat < 256 := by
    rw [UInt8.toNat_toUInt32]
    exact byte.toNat_lt
  have hMoved : (register ^^^ byte.toUInt32) >>> 8 = register >>> 8 := by
    rw [UInt32.shiftRight_xor, shiftRight_eight_eq_zero hByte, UInt32.xor_zero]
  rw [tableStep, ← hMoved]
  generalize register ^^^ byte.toUInt32 = x
  have hParts : (x ^^^ (x &&& 0xFF)) ^^^ (x &&& 0xFF) = x := by
    rw [UInt32.xor_assoc, UInt32.xor_self, UInt32.xor_zero]
  rw [getD_table (lowByte_lt x), ← shifts_highBytes, ← shifts_xor, hParts]

theorem tableStep_inj_register {register other : UInt32} {byte : UInt8}
    (hSame : tableStep register byte = tableStep other byte) : register = other := by
  rw [tableStep_eq, tableStep_eq] at hSame
  exact (UInt32.xor_left_inj _).mp (shifts_injective hSame)

theorem tableStep_inj_byte {register : UInt32} {byte other : UInt8}
    (hSame : tableStep register byte = tableStep register other) : byte = other := by
  rw [tableStep_eq, tableStep_eq] at hSame
  have hBytes := congrArg UInt32.toNat ((UInt32.xor_right_inj _).mp (shifts_injective hSame))
  rw [UInt8.toNat_toUInt32, UInt8.toNat_toUInt32] at hBytes
  exact UInt8.toNat.inj hBytes

/-! ### Byte strings -/

/-- A difference of the register is never lost again. -/
theorem foldl_tableStep_inj {bytes : Bytes} {register other : UInt32}
    (hSame : bytes.foldl tableStep register = bytes.foldl tableStep other) : register = other := by
  induction bytes generalizing register other with
  | nil => exact hSame
  | cons byte rest ih => exact tableStep_inj_register (ih hSame)

/-- A byte that is changed changes the checksum. -/
theorem checksum_set_ne {bytes : Bytes} {i : Nat} (hInside : i < bytes.length) {byte : UInt8}
    (hOther : byte ≠ bytes[i]) : checksum (bytes.set i byte) ≠ checksum bytes := by
  intro hSame
  have hParts : bytes = bytes.take i ++ bytes[i] :: bytes.drop (i + 1) := by simp
  have hSet : bytes.set i byte = bytes.take i ++ byte :: bytes.drop (i + 1) :=
    List.set_eq_take_append_cons_drop.trans (if_pos hInside)
  rw [checksum, checksum, UInt32.not_inj, hSet] at hSame
  conv at hSame => rhs; rw [hParts]
  rw [List.foldl_append, List.foldl_append, List.foldl_cons, List.foldl_cons] at hSame
  exact hOther (tableStep_inj_byte (foldl_tableStep_inj hSame))

end VersionedCatalog.Crc32
