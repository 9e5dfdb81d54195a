import Nmos6502.Byte

/-!
# The bus

Everything the processor knows of the outside is a byte read from or written to
one of 65536 addresses; neither can fail.  Words, blocks and programs reach the
bus as single bytes, at ascending addresses that wrap from `0xFFFF` to `0x0000`.

A bus need *not* be a memory: a write may be ignored, and two addresses may share
a cell.  So the order of the writes below is part of what they mean.
-/

namespace Nmos6502

/-- Writes one value to `count` successive addresses through a given `write`. -/
def fillThrough {M : Type} (write : M → Word → Byte → M) (value : Byte) :
    Nat → Word → M → M
  | 0, _, m => m
  | count + 1, address, m =>
      fillThrough write value count (address + 1) (write m address value)

/-- What the processor needs of the thing it is wired to. -/
class Bus (M : Type) where
  /-- The byte that an address answers with. -/
  read : M → Word → Byte
  /-- The effect of writing a byte to an address. -/
  write : M → Word → Byte → M
  /-- Zeroes the whole address space; unless a bus says otherwise, by writing zero
  to each address from the lowest up. -/
  clear : M → M := fillThrough write 0 65536 0

namespace Bus

variable {M : Type} [Bus M]

/-- The word at an address, low byte first. -/
@[inline] def readWord (m : M) (address : Word) : Word :=
  .ofBytes (read m address) (read m (address + 1))

/-- Writes a word, low byte first. -/
def writeWord (m : M) (address value : Word) : M :=
  write (write m address value.low) (address + 1) value.high

/-- Writes one value to `count` successive addresses. -/
def fill (m : M) (address : Word) (count : Nat) (value : Byte) : M :=
  fillThrough write value count address m

/-- Writes the given bytes to successive addresses. -/
def load (m : M) (address : Word) : List Byte → M
  | [] => m
  | b :: bytes => load (write m address b) (address + 1) bytes

/-- The bytes at `count` successive addresses. -/
def readBytes (m : M) (address : Word) : Nat → List Byte
  | 0 => []
  | count + 1 => read m address :: readBytes m (address + 1) count

@[simp] theorem fill_zero (m : M) (address : Word) (value : Byte) :
    fill m address 0 value = m := rfl

theorem fill_succ (m : M) (address : Word) (count : Nat) (value : Byte) :
    fill m address (count + 1) value =
      fill (write m address value) (address + 1) count value := rfl

@[simp] theorem load_nil (m : M) (address : Word) : load m address [] = m := rfl

theorem load_cons (m : M) (address : Word) (b : Byte) (bytes : List Byte) :
    load m address (b :: bytes) = load (write m address b) (address + 1) bytes := rfl

@[simp] theorem length_readBytes (m : M) (address : Word) (count : Nat) :
    (readBytes m address count).length = count := by
  induction count generalizing address with
  | zero => rfl
  | succ count ih => simp [readBytes, ih]

end Bus

end Nmos6502
