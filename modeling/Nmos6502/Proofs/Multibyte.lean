import Mathlib.Tactic.Ring
import Nmos6502.Proofs.Addressing

/-!
# Numbers of several bytes

Bytes, the lowest first, are the digits of a number below a power of 256, and of no other
list of the same length: `littleEndian_lt` and `littleEndian_injective`.  In two's complement
the upper half of those numbers is negative.  The lemmas whose names end in `_cons` take the
lowest byte off, which is how a chain of bytes goes through a number; they need a byte
*above* it, since the sign sits in the last one.
-/

namespace Nmos6502

/-! ## Unsigned numbers -/

theorem littleEndian_lt (bytes : List Byte) : littleEndian bytes < 256 ^ bytes.length := by
  induction bytes with
  | nil => exact Nat.one_pos
  | cons b bytes ih =>
      have hb := b.toNat_lt
      rw [littleEndian, List.length_cons, Nat.pow_succ]
      omega

theorem littleEndian_injective {xs ys : List Byte} (hlength : xs.length = ys.length)
    (h : littleEndian xs = littleEndian ys) : xs = ys := by
  induction xs generalizing ys with
  | nil => exact (List.eq_nil_of_length_eq_zero hlength.symm).symm
  | cons x xs ih =>
      cases ys with
      | nil => cases hlength
      | cons y ys =>
          have hx := x.toNat_lt
          have hy := y.toNat_lt
          rw [littleEndian, littleEndian] at h
          have hhead : x = y := UInt8.toNat_inj.1 (by omega)
          have htail : littleEndian xs = littleEndian ys := by omega
          rw [hhead, ih (Nat.succ.inj hlength) htail]

theorem littleEndian_append (xs ys : List Byte) :
    littleEndian (xs ++ ys) = littleEndian xs + 256 ^ xs.length * littleEndian ys := by
  induction xs with
  | nil => simp [littleEndian]
  | cons x xs ih =>
      rw [List.cons_append, littleEndian, littleEndian, ih, List.length_cons]
      ring

/-- Complementing every byte mirrors the number. -/
theorem littleEndian_complement (bytes : List Byte) :
    littleEndian (bytes.map (~~~·)) + littleEndian bytes + 1 = 256 ^ bytes.length := by
  induction bytes with
  | nil => rfl
  | cons b bytes ih =>
      have hb := b.toNat_lt
      have hnot : (~~~b).toNat = 255 - b.toNat := UInt8.toNat_not b
      rw [List.map_cons, littleEndian, littleEndian, hnot, List.length_cons, Nat.pow_succ]
      omega

/-- A total below twice a power of 256 is its remainder, and the carry above it. -/
theorem eq_mod_of_add_carry {value modulus total : Nat} {carry : Bool}
    (h : value + modulus * carry.toNat = total) (hvalue : value < modulus) :
    value = total % modulus ∧ (carry = true ↔ modulus ≤ total) := by
  subst h
  rw [Nat.add_mul_mod_self_left, Nat.mod_eq_of_lt hvalue]
  refine ⟨rfl, ?_⟩
  cases carry with
  | true => simp
  | false => simpa using hvalue

/-! ## Signed numbers -/

/-- Half of the numbers of `n` bytes: from here on they are negative in two's complement. -/
def signBound (n : Nat) : Nat := 2 ^ (8 * n - 1)

/-- A number of `n` bytes, read in two's complement. -/
def twosComplement (n value : Nat) : Int :=
  if value < signBound n then value else (value : Int) - (256 ^ n : Nat)

/-- The integer is none that `n` bytes stand for in two's complement. -/
def LeavesSigned (n : Nat) (x : Int) : Prop :=
  x < -(signBound n : Int) ∨ (signBound n : Int) - 1 < x

theorem two_mul_signBound (n : Nat) : 2 * signBound (n + 1) = 256 ^ (n + 1) := by
  have hbits : 8 * (n + 1) - 1 + 1 = 8 * (n + 1) := by omega
  rw [signBound, ← Nat.pow_succ', Nat.succ_eq_add_one, hbits, Nat.pow_mul]

theorem signBound_add_two (n : Nat) : signBound (n + 2) = 256 * signBound (n + 1) := by
  have hhigh : 2 * signBound (n + 2) = 256 ^ (n + 2) := two_mul_signBound (n + 1)
  have hlow := two_mul_signBound n
  rw [Nat.pow_succ, ← hlow] at hhigh
  omega

/-- The top bit tells the upper half from the lower one. -/
theorem testBit_top {n value : Nat} (hvalue : value < 256 ^ (n + 1)) :
    value.testBit (8 * (n + 1) - 1) = decide (signBound (n + 1) ≤ value) := by
  have hdouble := two_mul_signBound n
  rw [Nat.testBit_eq_decide_div_mod_eq, Bool.eq_iff_iff, decide_eq_true_iff, decide_eq_true_iff]
  change value / signBound (n + 1) % 2 = 1 ↔ _
  have hpositive : 0 < signBound (n + 1) := Nat.two_pow_pos _
  rcases Nat.lt_or_ge value (signBound (n + 1)) with hlow | hhigh
  · rw [Nat.div_eq_of_lt hlow]
    omega
  · have hquotient : value / signBound (n + 1) = 1 :=
      Nat.div_eq_of_lt_le (by omega) (by omega)
    rw [hquotient]
    omega

theorem twosComplement_cases (n value : Nat) :
    value < signBound n ∧ twosComplement n value = value ∨
      signBound n ≤ value ∧ twosComplement n value = value - (256 ^ n : Nat) := by
  rw [twosComplement]
  split
  · exact .inl ⟨‹_›, rfl⟩
  · exact .inr ⟨Nat.le_of_not_lt ‹_›, rfl⟩

theorem twosComplement_one (byte : Nat) : twosComplement 1 byte = signedValue byte := rfl

theorem leavesSigned_one (x : Int) : LeavesSigned 1 x ↔ leavesSignedByte x = true := by
  rw [leavesSignedByte, decide_eq_true_iff]
  exact Iff.rfl

theorem twosComplement_cons (n : Nat) {byte : Nat} (hbyte : byte < 256) (value : Nat) :
    twosComplement (n + 2) (byte + 256 * value) = byte + 256 * twosComplement (n + 1) value := by
  have hbound := signBound_add_two n
  have hlow := twosComplement_cases (n + 1) value
  have hall := twosComplement_cases (n + 2) (byte + 256 * value)
  rw [Nat.pow_succ] at hall
  omega

theorem leavesSigned_cons (n : Nat) {byte : Nat} (hbyte : byte < 256) (x : Int) :
    LeavesSigned (n + 2) (byte + 256 * x) ↔ LeavesSigned (n + 1) x := by
  have hbound := signBound_add_two n
  rw [LeavesSigned, LeavesSigned]
  omega

/-- Complementing mirrors a signed number about minus one half. -/
theorem twosComplement_complement (n : Nat) {value mirrored : Nat}
    (h : mirrored + value + 1 = 256 ^ (n + 1)) :
    twosComplement (n + 1) mirrored = -1 - twosComplement (n + 1) value := by
  have hdouble := two_mul_signBound n
  have hvalue := twosComplement_cases (n + 1) value
  have hmirrored := twosComplement_cases (n + 1) mirrored
  omega

end Nmos6502
