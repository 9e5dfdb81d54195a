import Nmos6502.Alu

/-!
# Differences and shifts in integers

A difference is computed as the sum with a complement, and a shift with the bit that
falls out.  Here both are read as integers: a difference borrows exactly when the
first byte is too small, and a shift doubles or halves.
-/

namespace Nmos6502

/-- A number below 256 read in two's complement. -/
def signedValue (n : Nat) : Int := if n < 128 then n else (n : Int) - 256

/-- Whether a number lies outside the range of signed bytes. -/
def leavesSignedByte (n : Int) : Bool := decide (n < -128 ∨ 127 < n)

theorem Byte.signed_eq (b : Byte) : b.signed = signedValue b.toNat := by
  rw [Byte.signed, signedValue, Byte.isNegative]
  by_cases h : b.toNat < 128
  · rw [if_neg (by simpa using h), if_pos h]
  · rw [if_pos (by simpa using h), if_neg h]

/-- Complementing mirrors a signed byte about minus one half. -/
theorem Byte.signed_complement (b : Byte) : Byte.signed (~~~b) = -1 - b.signed := by
  have hb := b.toNat_lt
  have hnot : (~~~b).toNat = 255 - b.toNat := UInt8.toNat_not b
  rw [Byte.signed_eq, Byte.signed_eq, hnot, signedValue, signedValue]
  split <;> split <;> omega

theorem toNat_add_toNat_not (c : Bool) : c.toNat + (!c).toNat = 1 := by
  cases c <;> rfl

namespace Alu

theorem overflow_add (a b : Byte) (carry : Bool) :
    (add a b carry).overflow =
      leavesSignedByte (signedValue a.toNat + signedValue b.toNat + carry.toNat) := by
  rw [Bool.eq_iff_iff, overflow_add_iff, leavesSignedByte, decide_eq_true_iff,
    Byte.signed_eq, Byte.signed_eq]

/-! ## Differences -/

theorem toNat_value_subtract (a b : Byte) (carry : Bool) :
    ((subtract a b carry).value.toNat : Int) =
      ((a.toNat : Int) - b.toNat - (!carry).toNat) % 256 := by
  have hb := b.toNat_lt
  have hnot : (~~~b).toNat = 255 - b.toNat := UInt8.toNat_not b
  have hcarry := toNat_add_toNat_not carry
  rw [subtract, toNat_value_add, hnot]
  omega

/-- The carry of a difference says that nothing was borrowed. -/
theorem carry_subtract (a b : Byte) (carry : Bool) :
    (subtract a b carry).carry = decide (b.toNat + (!carry).toNat ≤ a.toNat) := by
  have hb := b.toNat_lt
  have hnot : (~~~b).toNat = 255 - b.toNat := UInt8.toNat_not b
  have hcarry := toNat_add_toNat_not carry
  rw [subtract, carry_add, hnot, Bool.eq_iff_iff, decide_eq_true_iff, decide_eq_true_iff]
  omega

theorem overflow_subtract (a b : Byte) (carry : Bool) :
    (subtract a b carry).overflow =
      leavesSignedByte (signedValue a.toNat - signedValue b.toNat - (!carry).toNat) := by
  have hcomplement := Byte.signed_complement b
  have hcarry := toNat_add_toNat_not carry
  rw [Byte.signed_eq, Byte.signed_eq] at hcomplement
  rw [subtract, overflow_add, hcomplement]
  congr 1
  omega

/-! ## Shifts -/

theorem toNat_value_shiftLeft (b : Byte) (carry : Bool) :
    (shiftLeft b carry).value.toNat = (2 * b.toNat + carry.toNat) % 256 := by
  change (b + b + if carry then 1 else 0).toNat = _
  rw [UInt8.toNat_add, UInt8.toNat_add]
  cases carry with
  | false =>
      simp
      omega
  | true =>
      simp
      omega

theorem carry_shiftLeft (b : Byte) (carry : Bool) :
    (shiftLeft b carry).carry = decide (128 ≤ b.toNat) := by
  have hb := b.toNat_lt
  change b.toNat.testBit 7 = _
  rw [Nat.testBit_eq_decide_div_mod_eq, Bool.eq_iff_iff, decide_eq_true_iff, decide_eq_true_iff]
  omega

theorem toNat_value_shiftRight (b : Byte) (carry : Bool) :
    (shiftRight b carry).value.toNat = b.toNat / 2 + 128 * carry.toNat := by
  have hb := b.toNat_lt
  change (b / 2 + if carry then 0x80 else 0).toNat = _
  rw [UInt8.toNat_add, UInt8.toNat_div]
  cases carry with
  | false =>
      simp
      omega
  | true =>
      simp
      omega

theorem carry_shiftRight (b : Byte) (carry : Bool) :
    (shiftRight b carry).carry = decide (b.toNat % 2 = 1) := by
  change b.toNat.testBit 0 = _
  rw [Nat.testBit_zero]

end Alu

end Nmos6502
