import Nmos6502.Status

/-!
# Flags by weight and by bit

A status in memory is a number: `Status.weight` adds up the weights of the flags that are
set, and `Status.ofPulledBits` reads the flags off a number bit by bit.  Both are given
without the functions of the status itself, which `toNat_toByte` and `ofPulled_eq` compare
with them.

A set of flags is a byte in the same way, and the operations on sets are the bitwise ones on
their bytes.  The letters show seven flags; the unused one is *not* among them.
-/

namespace Nmos6502

/-! ## Bits of bytes -/

namespace Byte

theorem bit_or (a b : Byte) (k : Nat) : bit (a ||| b) k = (bit a k || bit b k) := by
  rw [bit, UInt8.toNat_or, Nat.testBit_or]
  rfl

theorem bit_and (a b : Byte) (k : Nat) : bit (a &&& b) k = (bit a k && bit b k) := by
  rw [bit, UInt8.toNat_and, Nat.testBit_and]
  rfl

theorem bit_xor (a b : Byte) (k : Nat) : bit (a ^^^ b) k = (bit a k ^^ bit b k) := by
  rw [bit, UInt8.toNat_xor, Nat.testBit_xor]
  rfl

theorem bit_complement (b : Byte) {k : Nat} (hk : k < 8) : bit (~~~b) k = !bit b k := by
  have hsize : UInt8.size - 1 - b.toNat = 2 ^ 8 - (b.toNat + 1) := by
    change 255 - b.toNat = 256 - (b.toNat + 1)
    omega
  rw [bit, UInt8.toNat_not, hsize, Nat.testBit_two_pow_sub_succ b.toNat_lt, decide_eq_true hk,
    Bool.true_and]
  rfl

end Byte

namespace Status

/-! ## The status as a number -/

/-- The sum of the weights of the flags that are set. -/
def weight (s : Status) : Nat :=
  s.carry.toNat + 2 * s.zero.toNat + 4 * s.interruptDisable.toNat + 8 * s.decimal.toNat +
    16 * s.breakCommand.toNat + 32 * s.unused.toNat + 64 * s.overflow.toNat +
    128 * s.negative.toNat

/-- The flags of a pulled byte, bit by bit; Break is never pulled. -/
def ofPulledBits (byte : Nat) : Status where
  carry := byte.testBit 0
  zero := byte.testBit 1
  interruptDisable := byte.testBit 2
  decimal := byte.testBit 3
  breakCommand := false
  unused := byte.testBit 5
  overflow := byte.testBit 6
  negative := byte.testBit 7

theorem toNat_toByte (s : Status) : s.toByte.toNat = s.weight := by
  obtain ⟨c, z, i, d, b, u, v, n⟩ := s
  revert c z i d b u v n
  decide +kernel

theorem toByte_eq (s : Status) : s.toByte = UInt8.ofNat s.weight := by
  rw [← toNat_toByte, UInt8.ofNat_toNat]

theorem ofPulled_eq (b : Byte) : ofPulled b = ofPulledBits b.toNat := rfl

/-! ## Sets of flags -/

/-- Flags are combined one by one, and so are the bits of their bytes. -/
theorem toByte_zipWith {f : Bool → Bool → Bool} {op : Byte → Byte → Byte}
    (hop : ∀ a b k, k < 8 → (op a b).bit k = f (a.bit k) (b.bit k)) (s t : Status) :
    (zipWith f s t).toByte = op s.toByte t.toByte := by
  have hflags : ofByte (op s.toByte t.toByte) =
      zipWith f (ofByte s.toByte) (ofByte t.toByte) := by
    simp [ofByte, zipWith, hop]
  rw [ofByte_toByte, ofByte_toByte] at hflags
  rw [← hflags, toByte_ofByte]

theorem toByte_insert (s flags : Status) :
    (s.insert flags).toByte = s.toByte ||| flags.toByte :=
  toByte_zipWith (fun a b k _ => Byte.bit_or a b k) s flags

theorem toByte_remove (s flags : Status) :
    (s.remove flags).toByte = s.toByte &&& ~~~flags.toByte := by
  refine @toByte_zipWith _ (fun a b => a &&& ~~~b) ?_ s flags
  intro a b k hk
  rw [Byte.bit_and, Byte.bit_complement b hk]

theorem toByte_toggle (s flags : Status) :
    (s.toggle flags).toByte = s.toByte ^^^ flags.toByte :=
  toByte_zipWith (fun a b k _ => Byte.bit_xor a b k) s flags

theorem toByte_assign (s flags : Status) (value : Bool) :
    (s.assign flags value).toByte =
      if value then s.toByte ||| flags.toByte else s.toByte &&& ~~~flags.toByte := by
  cases value with
  | false => exact toByte_remove s flags
  | true => exact toByte_insert s flags

theorem eq_iff_toByte_eq (s t : Status) : s = t ↔ s.toByte = t.toByte :=
  ⟨congrArg toByte, toByte_injective⟩

theorem isEmpty_iff (s : Status) : s.isEmpty = true ↔ s.toByte = 0 := by
  rw [isEmpty, beq_iff_eq, eq_iff_toByte_eq]
  rfl

theorem isAll_iff (s : Status) : s.isAll = true ↔ s.toByte = 0xFF := by
  rw [isAll, beq_iff_eq, eq_iff_toByte_eq]
  rfl

/-- The flags that two sets have in common. -/
theorem toByte_common (s flags : Status) :
    (zipWith (· && ·) s flags).toByte = s.toByte &&& flags.toByte :=
  toByte_zipWith (fun a b k _ => Byte.bit_and a b k) s flags

theorem contains_iff (s flags : Status) :
    s.contains flags = true ↔ s.toByte &&& flags.toByte = flags.toByte := by
  have hflag (set flag : Bool) : (flag && !set) = false ↔ (set && flag) = flag := by
    cases set <;> cases flag <;> decide
  rw [← toByte_common, ← eq_iff_toByte_eq, contains, isEmpty, beq_iff_eq]
  cases flags
  simp only [remove, zipWith, empty, Status.mk.injEq, hflag]

theorem intersects_iff (s flags : Status) :
    s.intersects flags = true ↔ s.toByte &&& flags.toByte ≠ 0 := by
  rw [intersects, Bool.not_eq_true', ← Bool.not_eq_true, isEmpty_iff, toByte_common]

/-! ## Letters -/

/-- A flag that is set shows its letter, and the letter is no hyphen. -/
theorem letter_inj {letter : Char} (hletter : letter ≠ '-') (flag other : Bool) :
    (if flag then letter else '-') = (if other then letter else '-') ↔ flag = other := by
  cases flag <;> cases other <;> simp [hletter, hletter.symm]

/-- Statuses show the same letters when they differ in the unused flag at most. -/
theorem letters_eq_iff (s t : Status) :
    s.letters = t.letters ↔ { s with unused := t.unused } = t := by
  rw [letters, letters, String.ofList_inj]
  simp only [List.cons.injEq, and_true, ne_eq, Char.reduceEq, not_false_eq_true, letter_inj]
  cases t
  simp only [Status.mk.injEq]
  constructor
  · rintro ⟨rfl, rfl, rfl, rfl, rfl, rfl, rfl⟩
    exact ⟨rfl, rfl, rfl, rfl, rfl, trivial, rfl, rfl⟩
  · rintro ⟨rfl, rfl, rfl, rfl, rfl, -, rfl, rfl⟩
    exact ⟨rfl, rfl, rfl, rfl, rfl, rfl, rfl⟩

end Status

end Nmos6502
