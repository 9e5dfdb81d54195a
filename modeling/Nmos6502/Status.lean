import Nmos6502.Byte

/-!
# The processor status

The status is a set of eight independent flags.  Sets of flags that are given to
be inserted, removed or tested are statuses themselves.  In memory the status is
one byte, and `ofByte_toByte` and `toByte_ofByte` say that the two forms carry the
same information: no byte is refused and no flag is lost, the unused one included.
-/

namespace Nmos6502

/-- The flags, from bit 0 up. -/
structure Status where
  /-- The carry out of bit 7, or the absence of a borrow. -/
  carry : Bool := false
  /-- Whether the last result was zero. -/
  zero : Bool := false
  /-- Whether interrupt requests are held back. -/
  interruptDisable : Bool := false
  /-- Decimal mode, which is kept but which arithmetic ignores. -/
  decimal : Bool := false
  /-- The flag that tells a pushed status of `BRK` from others. -/
  breakCommand : Bool := false
  /-- The flag that no instruction uses. -/
  unused : Bool := false
  /-- Whether the last sum left the range of signed bytes. -/
  overflow : Bool := false
  /-- The sign of the last result. -/
  negative : Bool := false
  deriving DecidableEq

namespace Status

/-- The status with no flag set. -/
def empty : Status := {}

/-- The status with every flag set. -/
def all : Status := ⟨true, true, true, true, true, true, true, true⟩

/-! ## The status as a byte -/

/-- The flags whose bits are set in a byte. -/
def ofByte (b : Byte) : Status where
  carry := b.bit 0
  zero := b.bit 1
  interruptDisable := b.bit 2
  decimal := b.bit 3
  breakCommand := b.bit 4
  unused := b.bit 5
  overflow := b.bit 6
  negative := b.bit 7

/-- The weight of a flag in the byte. -/
private def weigh (flag : Bool) (weight : Byte) : Byte := if flag then weight else 0

/-- The byte with a bit set for each flag. -/
def toByte (s : Status) : Byte :=
  weigh s.carry 0x01 + weigh s.zero 0x02 + weigh s.interruptDisable 0x04 +
    weigh s.decimal 0x08 + weigh s.breakCommand 0x10 + weigh s.unused 0x20 +
    weigh s.overflow 0x40 + weigh s.negative 0x80

@[simp] theorem ofByte_toByte (s : Status) : ofByte s.toByte = s := by
  obtain ⟨c, z, i, d, b, u, v, n⟩ := s
  revert c z i d b u v n
  decide +kernel

@[simp] theorem toByte_ofByte (b : Byte) : (ofByte b).toByte = b := by
  have hall : ∀ n : Fin 256, (ofByte (UInt8.ofFin n)).toByte = UInt8.ofFin n := by
    decide +kernel
  simpa using hall b.toFin

/-- Two statuses with the same byte are equal. -/
theorem toByte_injective {s t : Status} (h : s.toByte = t.toByte) : s = t := by
  rw [← ofByte_toByte s, h, ofByte_toByte]

/-- The flags that a pulled byte stands for.  Break is a mark on pushed bytes and is
never pulled. -/
def ofPulled (b : Byte) : Status := { ofByte b with breakCommand := false }

/-! ## Sets of flags -/

/-- The status that combines each flag of two statuses. -/
def zipWith (f : Bool → Bool → Bool) (s t : Status) : Status where
  carry := f s.carry t.carry
  zero := f s.zero t.zero
  interruptDisable := f s.interruptDisable t.interruptDisable
  decimal := f s.decimal t.decimal
  breakCommand := f s.breakCommand t.breakCommand
  unused := f s.unused t.unused
  overflow := f s.overflow t.overflow
  negative := f s.negative t.negative

/-- Sets every flag of `flags`. -/
def insert (s flags : Status) : Status := zipWith (· || ·) s flags

/-- Clears every flag of `flags`. -/
def remove (s flags : Status) : Status := zipWith (fun old flag => old && !flag) s flags

/-- Inverts every flag of `flags`. -/
def toggle (s flags : Status) : Status := zipWith (· ^^ ·) s flags

/-- Sets or clears every flag of `flags`. -/
def assign (s flags : Status) (value : Bool) : Status :=
  if value then s.insert flags else s.remove flags

/-- Whether no flag is set. -/
def isEmpty (s : Status) : Bool := s == empty

/-- Whether every flag is set. -/
def isAll (s : Status) : Bool := s == all

/-- Whether every flag of `flags` is set. -/
def contains (s flags : Status) : Bool := (flags.remove s).isEmpty

/-- Whether some flag of `flags` is set. -/
def intersects (s flags : Status) : Bool := !(zipWith (· && ·) s flags).isEmpty

/-! ## Flags from a result -/

/-- The status after an instruction whose result is a byte: Zero and Negative are
taken from the result, and the other flags are kept. -/
@[inline] def withResult (s : Status) (result : Byte) : Status :=
  { s with zero := result == 0, negative := result.isNegative }

/-! ## The flags as letters -/

/-- The letters `NVBDIZC`, with `-` for a flag that is clear. -/
def letters (s : Status) : String :=
  String.ofList [
    if s.negative then 'N' else '-',
    if s.overflow then 'V' else '-',
    if s.breakCommand then 'B' else '-',
    if s.decimal then 'D' else '-',
    if s.interruptDisable then 'I' else '-',
    if s.zero then 'Z' else '-',
    if s.carry then 'C' else '-']

end Status

end Nmos6502
