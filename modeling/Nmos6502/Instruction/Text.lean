import Nmos6502.Cpu.Basic
import Nmos6502.Instruction
import Nmos6502.Hex

/-!
# Instructions as text

An instruction is written as its mnemonic and its operand.  The operand shows the
addressing mode by its marks, addresses in hexadecimal, and a displacement in
decimal with its sign.  An undocumented opcode is written as a byte of data.
-/

namespace Nmos6502

/-- A byte in two's complement, in decimal. -/
def Byte.signedText (b : Byte) : String :=
  if b.isNegative then "-" ++ Nat.repr (256 - b.toNat) else Nat.repr b.toNat

namespace AddressingMode

/-- The operand of the given bytes.  Too few bytes are read as if zeros followed,
and bytes that the mode does not use are passed over. -/
def operandText (mode : AddressingMode) (operands : List Byte) : String :=
  let byte := operands.headD 0
  let hexByte := "$" ++ Hex.ofByte byte
  let hexWord := "$" ++ Hex.ofWord (.ofBytes byte (operands.tail.headD 0))
  match mode with
  | implicit | invalid => ""
  | accumulator => "A"
  | immediate => "#" ++ hexByte
  | zeroPage => hexByte
  | zeroPageX => hexByte ++ ", X"
  | zeroPageY => hexByte ++ ", Y"
  | relative => byte.signedText
  | absolute => hexWord
  | absoluteX => hexWord ++ ", X"
  | absoluteY => hexWord ++ ", Y"
  | indirect => "(" ++ hexWord ++ ")"
  | indirectX => "(" ++ hexByte ++ ", X)"
  | indirectY => "(" ++ hexByte ++ "), Y"

/-- Whether an operand is written in this mode. -/
def hasOperandText (mode : AddressingMode) : Bool :=
  mode != implicit && mode != invalid

end AddressingMode

/-- The instruction in assembly text. -/
def Instruction.text (i : Instruction) : String :=
  match i.mnemonic with
  | none => "db $" ++ Hex.ofByte i.opcode
  | some mnemonic =>
      if i.mode.hasOperandText then
        mnemonic.name ++ " " ++ i.mode.operandText i.operands
      else mnemonic.name

/-- The text of the instruction at an address, and the bytes that it takes up. -/
def Cpu.disassemble {M : Type} [Bus M] (cpu : Cpu M) (address : Word) : String × Nat :=
  let i := Instruction.decode cpu.memory address
  (i.text, i.size)

end Nmos6502
