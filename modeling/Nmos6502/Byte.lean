/-!
# Bytes and words

The machine counts in bytes and in 16-bit words, and every sum wraps.  A word is
held in memory with its low byte first.  The statements here move both kinds of
number to `Nat` and `Int`, where wrapping is a remainder: `Word.toNat_ofBytes`,
`Word.ofBytes_low_high` and `Word.toNat_displace`.
-/

namespace Nmos6502

/-- An 8-bit number. -/
abbrev Byte := UInt8

/-- A 16-bit number, and so an address. -/
abbrev Word := UInt16

namespace Byte

/-- Bit `k` of a byte; bit 0 is the lowest. -/
def bit (b : Byte) (k : Nat) : Bool := b.toNat.testBit k

/-- Bit 7, which is the sign of a byte in two's complement. -/
@[inline] def isNegative (b : Byte) : Bool := decide (0x80 ≤ b.toNat)

/-- The value of a byte in two's complement, from -128 to 127. -/
def signed (b : Byte) : Int :=
  if isNegative b then (b.toNat : Int) - 256 else b.toNat

theorem isNegative_eq_true_iff (b : Byte) : isNegative b = true ↔ 128 ≤ b.toNat := by
  simp [isNegative]

theorem neg_128_le_signed (b : Byte) : -128 ≤ signed b := by
  unfold signed
  split
  · rename_i hnegative
    have hhigh := (isNegative_eq_true_iff b).1 hnegative
    omega
  · omega

theorem signed_lt_128 (b : Byte) : signed b < 128 := by
  have hbound := b.toNat_lt
  unfold signed
  split
  · omega
  · rename_i hpositive
    have hlow : ¬ 128 ≤ b.toNat := fun h => hpositive ((isNegative_eq_true_iff b).2 h)
    omega

end Byte

namespace Word

/-- The word with the given low and high bytes. -/
@[inline] def ofBytes (low high : Byte) : Word := low.toUInt16 + 256 * high.toUInt16

/-- The low byte of a word. -/
@[inline] def low (w : Word) : Byte := w.toUInt8

/-- The high byte of a word, which is the number of the page it lies in. -/
@[inline] def high (w : Word) : Byte := (w >>> 8).toUInt8

/-- The word moved by a displacement in two's complement. -/
def displace (w : Word) (displacement : Byte) : Word :=
  w + displacement.toUInt16 - (if Byte.isNegative displacement then 256 else 0)

/-- Whether two addresses lie in different pages of 256 bytes. -/
def crossesPage (a b : Word) : Bool := high a != high b

theorem toNat_ofBytes (lo hi : Byte) :
    (ofBytes lo hi).toNat = lo.toNat + 256 * hi.toNat := by
  have hlo := lo.toNat_lt
  have hhi := hi.toNat_lt
  simp [ofBytes, UInt16.toNat_add, UInt16.toNat_mul]
  omega

theorem toNat_low (w : Word) : (low w).toNat = w.toNat % 256 := by
  simp [low]

theorem toNat_high (w : Word) : (high w).toNat = w.toNat / 256 := by
  have hbound := w.toNat_lt
  simp [high, UInt16.toNat_shiftRight, Nat.shiftRight_eq_div_pow]
  omega

@[simp] theorem low_ofBytes (lo hi : Byte) : low (ofBytes lo hi) = lo := by
  have hlo := lo.toNat_lt
  apply UInt8.toNat_inj.1
  rw [toNat_low, toNat_ofBytes]
  omega

@[simp] theorem high_ofBytes (lo hi : Byte) : high (ofBytes lo hi) = hi := by
  have hlo := lo.toNat_lt
  apply UInt8.toNat_inj.1
  rw [toNat_high, toNat_ofBytes]
  omega

@[simp] theorem ofBytes_low_high (w : Word) : ofBytes (low w) (high w) = w := by
  apply UInt16.toNat_inj.1
  rw [toNat_ofBytes, toNat_low, toNat_high]
  omega

/-- A word is its two bytes. -/
theorem eq_iff_low_high (v w : Word) : v = w ↔ low v = low w ∧ high v = high w := by
  constructor
  · rintro rfl
    exact ⟨rfl, rfl⟩
  · rintro ⟨hlow, hhigh⟩
    rw [← ofBytes_low_high v, hlow, hhigh, ofBytes_low_high]

/-- A displacement adds its signed value, modulo the size of the address space. -/
theorem toNat_displace (w : Word) (d : Byte) :
    ((displace w d).toNat : Int) = ((w.toNat : Int) + Byte.signed d) % 65536 := by
  have hw := w.toNat_lt
  have hd := d.toNat_lt
  unfold displace Byte.signed
  split
  · simp [UInt16.toNat_sub, UInt16.toNat_add]
    omega
  · simp [UInt16.toNat_add]

end Word

end Nmos6502
