import Nmos6502.Cpu.Basic

/-!
# The stack

The stack lies in page one and grows downwards.  The stack pointer is the low byte
of the next free cell, and it wraps within the page, so a push never fails and
never leaves the page.  A word is pushed high byte first and so lies in memory low
byte first.
-/

namespace Nmos6502

/-- The lowest address of the page that holds the stack. -/
def stackBase : Word := 0x0100

/-- The cell that a stack pointer names. -/
def stackCell (sp : Byte) : Word := .ofBytes sp 1

theorem stackCell_eq (sp : Byte) : stackCell sp = stackBase + sp.toUInt16 := by
  apply UInt16.toNat_inj.1
  have hsp := sp.toNat_lt
  rw [stackCell, Word.toNat_ofBytes]
  simp [stackBase, UInt16.toNat_add]
  omega

theorem stackCell_injective {s t : Byte} (h : stackCell s = stackCell t) : s = t := by
  have hlow := congrArg Word.low h
  simpa [stackCell] using hlow

namespace Cpu

variable {M : Type} [Bus M]

/-- Pushes a byte. -/
def push (cpu : Cpu M) (value : Byte) : Cpu M :=
  { cpu with
    memory := Bus.write cpu.memory (stackCell cpu.sp) value
    sp := cpu.sp - 1 }

/-- Pulls a byte. -/
def pull (cpu : Cpu M) : Byte × Cpu M :=
  let sp := cpu.sp + 1
  (Bus.read cpu.memory (stackCell sp), { cpu with sp := sp })

/-- Pushes a word, high byte first. -/
def pushWord (cpu : Cpu M) (value : Word) : Cpu M :=
  (cpu.push value.high).push value.low

/-- Pulls a word, low byte first. -/
def pullWord (cpu : Cpu M) : Word × Cpu M :=
  let (low, cpu) := cpu.pull
  let (high, cpu) := cpu.pull
  (.ofBytes low high, cpu)

end Cpu

end Nmos6502
