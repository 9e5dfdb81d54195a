import Nmos6502.Byte

/-!
# Arithmetic on bytes

Sums, differences and shifts of bytes, each with the bit that falls out.  The
statements read them as integers: `toNat_value_add` and `carry_add` give the sum
with its ninth bit, and `overflow_add_iff` says that overflow means leaving the
range of signed bytes.  Decimal arithmetic is *not* modelled here, because the
machine keeps a decimal flag but adds in binary whatever it says.
-/

namespace Nmos6502.Alu

/-- The outcome of an addition or subtraction. -/
structure Sum where
  value : Byte
  /-- The ninth bit; for a subtraction, whether no borrow was needed. -/
  carry : Bool
  /-- Whether the signed result does not fit a byte. -/
  overflow : Bool
  deriving DecidableEq

/-- The sum of two bytes and a carry.  It overflows when the operands have one
sign and the result has the other. -/
def add (a b : Byte) (carry : Bool) : Sum :=
  let total := a.toNat + b.toNat + carry.toNat
  let value : Byte := UInt8.ofNat total
  { value
    carry := decide (255 < total)
    overflow := a.isNegative == b.isNegative && value.isNegative != a.isNegative }

/-- The difference of two bytes, less one if the carry is clear.  It is the sum
with the complement of the byte that is taken away. -/
def subtract (a b : Byte) (carry : Bool) : Sum := add a (~~~b) carry

theorem toNat_value_add (a b : Byte) (carry : Bool) :
    (add a b carry).value.toNat = (a.toNat + b.toNat + carry.toNat) % 256 := by
  simp [add]

theorem carry_add (a b : Byte) (carry : Bool) :
    (add a b carry).carry = decide (255 < a.toNat + b.toNat + carry.toNat) := rfl

/-- Overflow is set exactly when the signed sum is not a signed byte. -/
theorem overflow_add_iff (a b : Byte) (carry : Bool) :
    (add a b carry).overflow = true ↔
      a.signed + b.signed + carry.toNat < -128 ∨
        127 < a.signed + b.signed + carry.toNat := by
  have ha := a.toNat_lt
  have hb := b.toNat_lt
  have hvalue := toNat_value_add a b carry
  have hflag : (add a b carry).overflow =
      (a.isNegative == b.isNegative &&
        (add a b carry).value.isNegative != a.isNegative) := rfl
  rw [hflag]
  simp only [Byte.isNegative, Byte.signed, hvalue]
  cases carry <;> by_cases hna : 128 ≤ a.toNat <;> by_cases hnb : 128 ≤ b.toNat <;>
    (simp [hna, hnb]; omega)

/-! ## Shifts -/

/-- The outcome of a shift by one place. -/
structure Shifted where
  value : Byte
  /-- The bit that was shifted out. -/
  carry : Bool
  deriving DecidableEq

/-- Doubles a byte, with `carry` as the new lowest bit. -/
def shiftLeft (b : Byte) (carry : Bool) : Shifted where
  value := b + b + (if carry then 1 else 0)
  carry := b.bit 7

/-- Halves a byte, with `carry` as the new highest bit. -/
def shiftRight (b : Byte) (carry : Bool) : Shifted where
  value := b / 2 + (if carry then 0x80 else 0)
  carry := b.bit 0

end Nmos6502.Alu
