import Nmos6502.Bus
import Nmos6502.Isa.Encoding

/-!
# Instructions in memory

Decoding reads an instruction out of memory without executing it.  It never fails:
an undocumented opcode is an instruction of one byte that has no mnemonic.  So a
listing can be made of any memory, and it tiles the addresses that it runs over,
around the end of the address space if need be.
-/

namespace Nmos6502

/-- An instruction and the bytes it was read from. -/
structure Instruction where
  address : Word
  opcode : Byte
  /-- There is none if the opcode is not documented. -/
  mnemonic : Option Mnemonic
  mode : AddressingMode
  /-- The bytes behind the opcode. -/
  operands : List Byte
  /-- The cycles of the opcode, before penalties. -/
  cycles : Nat
  deriving DecidableEq

namespace Instruction

variable {M : Type} [Bus M]

/-- The number of bytes that the instruction takes up. -/
def size (i : Instruction) : Nat := i.mode.length

/-- The bytes that the instruction takes up. -/
def bytes (i : Instruction) : List Byte := i.opcode :: i.operands

/-- Whether the opcode is documented. -/
def isDocumented (i : Instruction) : Bool := i.mnemonic.isSome

/-- The address behind the instruction. -/
def nextAddress (i : Instruction) : Word := i.address + UInt16.ofNat i.size

/-- The instruction at an address. -/
def decode (m : M) (address : Word) : Instruction :=
  let opcode := Bus.read m address
  match Encoding.lookup opcode with
  | none =>
      { address, opcode, mnemonic := none, mode := .invalid, operands := [], cycles := 0 }
  | some e =>
      { address, opcode
        mnemonic := e.mnemonic
        mode := e.mode
        operands := Bus.readBytes m (address + 1) e.mode.operandBytes
        cycles := e.cycles }

/-- The given number of instructions from an address on, each behind the one
before. -/
def listing (m : M) (address : Word) : Nat → List Instruction
  | 0 => []
  | count + 1 =>
      let i := decode m address
      i :: listing m i.nextAddress count

@[simp] theorem address_decode (m : M) (address : Word) :
    (decode m address).address = address := by
  simp only [decode]
  split <;> rfl

@[simp] theorem opcode_decode (m : M) (address : Word) :
    (decode m address).opcode = Bus.read m address := by
  simp only [decode]
  split <;> rfl

/-- A decoded instruction has as many operand bytes as its mode asks for. -/
theorem length_operands_decode (m : M) (address : Word) :
    (decode m address).operands.length = (decode m address).mode.operandBytes := by
  simp only [decode]
  split
  · rfl
  · simp

/-- The size of a decoded instruction is the number of its bytes. -/
theorem length_bytes_decode (m : M) (address : Word) :
    (decode m address).bytes.length = (decode m address).size := by
  simp [bytes, size, AddressingMode.length, length_operands_decode, Nat.add_comm]

@[simp] theorem length_listing (m : M) (address : Word) (count : Nat) :
    (listing m address count).length = count := by
  induction count generalizing address with
  | zero => rfl
  | succ count ih => simp [listing, ih]

end Instruction

end Nmos6502
