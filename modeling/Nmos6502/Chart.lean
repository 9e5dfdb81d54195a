import Nmos6502.Bus.Ram
import Nmos6502.Instruction.Text
import Nmos6502.Cpu.Basic

/-!
# The opcode chart

The chart has a line for each of the 256 opcodes, which shows the bytes of the
instruction and its text.  The opcodes are written one after another to the same
address of one machine, with the operand bytes `ff ee` behind it.
-/

namespace Nmos6502.Chart

/-- The column at which the text of an instruction begins. -/
def textColumn : Nat := 18

/-- Fills up a text with blanks to a width. -/
def padRight (width : Nat) (text : String) : String :=
  text ++ String.ofList (List.replicate (width - text.length) ' ')

/-- Bytes in hexadecimal, separated by single blanks. -/
def bytesText : List Byte → String
  | [] => ""
  | [b] => "$" ++ Hex.ofByte b
  | b :: bytes => "$" ++ Hex.ofByte b ++ " " ++ bytesText bytes

/-- The line of the instruction at an address. -/
def line (cpu : Cpu Ram) (address : Word) : String :=
  let i := Instruction.decode cpu.memory address
  padRight textColumn (bytesText (Bus.readBytes cpu.memory address i.size) ++ ":") ++ i.text

/-- Writes each opcode in turn to an address and shows its line. -/
def linesOf (cpu : Cpu Ram) (address : Word) : List Byte → List String
  | [] => []
  | opcode :: opcodes =>
      let cpu := cpu.poke address opcode
      line cpu address :: linesOf cpu address opcodes

/-- The chart that is made at an address. -/
def lines (origin : Word) : List String :=
  let cpu := (Cpu.powerUp Ram.zeroed).hardReset origin
  linesOf (cpu.pokeWord (origin + 1) 0xEEFF) origin ((List.range 256).map UInt8.ofNat)

end Nmos6502.Chart
