/-!
# Addressing modes

An addressing mode says how many operand bytes follow the opcode and how they
lead to the operand.  `invalid` is the mode of an opcode that is not documented;
it has no operand bytes, so such an opcode is one byte long.
-/

namespace Nmos6502

/-- The ways in which an instruction names its operand. -/
inductive AddressingMode
  /-- The instruction has no operand. -/
  | implicit
  /-- The operand is the accumulator. -/
  | accumulator
  /-- The operand is the byte behind the opcode. -/
  | immediate
  /-- An address in page zero. -/
  | zeroPage
  /-- An address in page zero plus X, which stays in page zero. -/
  | zeroPageX
  /-- An address in page zero plus Y, which stays in page zero. -/
  | zeroPageY
  /-- A signed displacement from the next instruction. -/
  | relative
  /-- An address. -/
  | absolute
  /-- An address plus X. -/
  | absoluteX
  /-- An address plus Y. -/
  | absoluteY
  /-- The address of a pointer; the pointer does not cross a page. -/
  | indirect
  /-- A pointer in page zero, found after X is added. -/
  | indirectX
  /-- A pointer in page zero, to which Y is added. -/
  | indirectY
  /-- The mode of an opcode that is not documented. -/
  | invalid
  deriving DecidableEq

namespace AddressingMode

/-- The number of operand bytes behind the opcode. -/
@[inline] def operandBytes : AddressingMode → Nat
  | implicit | accumulator | invalid => 0
  | immediate | zeroPage | zeroPageX | zeroPageY | relative | indirectX | indirectY => 1
  | absolute | absoluteX | absoluteY | indirect => 2

/-- The number of bytes of the instruction, the opcode included. -/
@[inline] def length (mode : AddressingMode) : Nat := 1 + mode.operandBytes

theorem length_bounds (mode : AddressingMode) : 1 ≤ mode.length ∧ mode.length ≤ 3 := by
  cases mode <;> decide

end AddressingMode

end Nmos6502
