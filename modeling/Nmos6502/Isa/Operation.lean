import Nmos6502.Registers
import Nmos6502.Isa.Mnemonic

/-!
# What each mnemonic does

The instructions fall into a dozen kinds, by the way in which they touch the
machine: those of one kind differ only in a function on registers, flags and a
byte.  So each kind is carried out in one place, and `Mnemonic.operation` says
which kind, with which function, a mnemonic is.
-/

namespace Nmos6502

/-- The kinds of instruction. -/
inductive Operation
  /-- Computes with the byte of the operand. -/
  | read (use : Registers → Byte → Registers)
  /-- Stores a byte at the operand. -/
  | store (value : Registers → Byte)
  /-- Replaces the byte of the operand, with a change of flags. -/
  | modify (change : Status → Byte → Byte × Status)
  /-- Works on the registers alone. -/
  | internal (change : Registers → Registers)
  /-- Pushes a byte. -/
  | push (value : Registers → Byte)
  /-- Pulls a byte and computes with it. -/
  | pull (use : Registers → Byte → Registers)
  /-- Goes to the operand if the flags say so. -/
  | branch (taken : Status → Bool)
  /-- Goes to the operand. -/
  | jump
  /-- Goes to a subroutine. -/
  | call
  /-- Comes back from a subroutine. -/
  | callReturn
  /-- Goes to the interrupt handler. -/
  | interrupt
  /-- Comes back from an interrupt handler. -/
  | interruptReturn

namespace Operation

/-- Steps the byte of the operand by a given amount. -/
def stepBy (amount : Byte) : Operation :=
  .modify fun status b => (b + amount, status.withResult (b + amount))

/-- Shifts the byte of the operand. -/
def shift (f : Status → Byte → Alu.Shifted) : Operation :=
  .modify fun status b =>
    let shifted := f status b
    (shifted.value, { status with carry := shifted.carry }.withResult shifted.value)

/-- Changes the flags alone. -/
def flags (change : Status → Status) : Operation := .internal fun r => r.mapStatus change

end Operation

/-- The kind of each instruction, with its function. -/
def Mnemonic.operation : Mnemonic → Operation
  | .lda => .read .withA
  | .ldx => .read .withX
  | .ldy => .read .withY
  | .sta => .store (·.a)
  | .stx => .store (·.x)
  | .sty => .store (·.y)
  | .inc => .stepBy 1
  | .dec => .stepBy (-1)
  | .inx => .internal fun r => r.withX (r.x + 1)
  | .iny => .internal fun r => r.withY (r.y + 1)
  | .dex => .internal fun r => r.withX (r.x - 1)
  | .dey => .internal fun r => r.withY (r.y - 1)
  | .tax => .internal fun r => r.withX r.a
  | .tay => .internal fun r => r.withY r.a
  | .txa => .internal fun r => r.withA r.x
  | .tya => .internal fun r => r.withA r.y
  | .tsx => .internal fun r => r.withX r.sp
  | .txs => .internal fun r => { r with sp := r.x }
  | .clc => .flags ({ · with carry := false })
  | .sec => .flags ({ · with carry := true })
  | .cld => .flags ({ · with decimal := false })
  | .sed => .flags ({ · with decimal := true })
  | .cli => .flags ({ · with interruptDisable := false })
  | .sei => .flags ({ · with interruptDisable := true })
  | .clv => .flags ({ · with overflow := false })
  | .pha => .push (·.a)
  | .php => .push (·.status.toByte)
  | .pla => .pull .withA
  | .plp => .pull fun r b => { r with status := .ofPulled b }
  | .bpl => .branch (!·.negative)
  | .bmi => .branch (·.negative)
  | .bvc => .branch (!·.overflow)
  | .bvs => .branch (·.overflow)
  | .bcc => .branch (!·.carry)
  | .bcs => .branch (·.carry)
  | .bne => .branch (!·.zero)
  | .beq => .branch (·.zero)
  | .brk => .interrupt
  | .jmp => .jump
  | .jsr => .call
  | .rts => .callReturn
  | .rti => .interruptReturn
  | .nop => .internal id
  | .adc => .read fun r b => r.withSum (Alu.add r.a b r.status.carry)
  | .sbc => .read fun r b => r.withSum (Alu.subtract r.a b r.status.carry)
  | .and => .read fun r b => r.withA (r.a &&& b)
  | .ora => .read fun r b => r.withA (r.a ||| b)
  | .eor => .read fun r b => r.withA (r.a ^^^ b)
  | .bit => .read .withBitTest
  | .cmp => .read fun r b => r.withComparison r.a b
  | .cpx => .read fun r b => r.withComparison r.x b
  | .cpy => .read fun r b => r.withComparison r.y b
  | .asl => .shift fun _ b => Alu.shiftLeft b false
  | .lsr => .shift fun _ b => Alu.shiftRight b false
  | .rol => .shift fun status b => Alu.shiftLeft b status.carry
  | .ror => .shift fun status b => Alu.shiftRight b status.carry

end Nmos6502
