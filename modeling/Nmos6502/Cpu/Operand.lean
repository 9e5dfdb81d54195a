import Nmos6502.Cpu.Basic
import Nmos6502.Isa.AddressingMode

/-!
# Operands

`Cpu.resolve` follows an addressing mode from the bytes behind the opcode to the
operand.  There are four rules of wrapping: indexed addresses in page zero stay in
page zero, the two cells of a pointer stay in one page, other sums run through the
whole address space, and a displacement is signed.
-/

namespace Nmos6502

/-- What an instruction works on. -/
inductive Operand
  | implied
  | accumulator
  | immediate (value : Byte)
  /-- A cell of memory, and whether indexing or a displacement led to it from
  another page. -/
  | memory (address : Word) (pageCrossed : Bool)
  deriving DecidableEq

namespace Operand

/-- The extra cycles that it takes to read the operand: one for a crossed page. -/
@[inline] def penalty : Operand → Nat
  | .memory _ true => 1
  | _ => 0

/-- The cell at a base plus an index. -/
def indexed (base : Word) (index : Byte) : Operand :=
  let address := base + index.toUInt16
  .memory address (Word.crossesPage base address)

/-- The cell at a signed displacement from a base. -/
def displaced (base : Word) (displacement : Byte) : Operand :=
  let address := base.displace displacement
  .memory address (Word.crossesPage base address)

theorem penalty_le_one (operand : Operand) : operand.penalty ≤ 1 := by
  unfold penalty
  split <;> decide

end Operand

/-- A pointer whose two cells lie in one page, the offset of the second wrapping
within it. -/
@[inline] def Bus.readPointer {M : Type} [Bus M] (m : M) (page offset : Byte) : Word :=
  .ofBytes (read m (.ofBytes offset page)) (read m (.ofBytes (offset + 1) page))

namespace Cpu

variable {M : Type} [Bus M]

/-- The first byte behind the opcode. -/
@[inline] def operandByte (cpu : Cpu M) : Byte := Bus.read cpu.memory (cpu.pc + 1)

/-- The two bytes behind the opcode, as a word. -/
@[inline] def operandWord (cpu : Cpu M) : Word := Bus.readWord cpu.memory (cpu.pc + 1)

/-- The operand that an addressing mode leads to from the program counter. -/
@[inline] def resolve (cpu : Cpu M) : AddressingMode → Operand
  | .implicit | .invalid => .implied
  | .accumulator => .accumulator
  | .immediate => .immediate cpu.operandByte
  | .zeroPage => .memory (.ofBytes cpu.operandByte 0) false
  | .zeroPageX => .memory (.ofBytes (cpu.operandByte + cpu.x) 0) false
  | .zeroPageY => .memory (.ofBytes (cpu.operandByte + cpu.y) 0) false
  | .relative => .displaced (cpu.pc + 2) cpu.operandByte
  | .absolute => .memory cpu.operandWord false
  | .absoluteX => .indexed cpu.operandWord cpu.x
  | .absoluteY => .indexed cpu.operandWord cpu.y
  | .indirect =>
      let pointer := cpu.operandWord
      .memory (Bus.readPointer cpu.memory pointer.high pointer.low) false
  | .indirectX => .memory (Bus.readPointer cpu.memory 0 (cpu.operandByte + cpu.x)) false
  | .indirectY => .indexed (Bus.readPointer cpu.memory 0 cpu.operandByte) cpu.y

/-- The byte of an operand; an instruction without operand reads zero. -/
@[inline] def readOperand (cpu : Cpu M) : Operand → Byte
  | .implied => 0
  | .accumulator => cpu.a
  | .immediate value => value
  | .memory address _ => Bus.read cpu.memory address

/-- Replaces the byte of an operand.  Only the accumulator and memory have a place
for it. -/
def writeOperand (cpu : Cpu M) (value : Byte) : Operand → Cpu M
  | .accumulator => { cpu with a := value }
  | .memory address _ => cpu.poke address value
  | .implied | .immediate _ => cpu

end Cpu

end Nmos6502
