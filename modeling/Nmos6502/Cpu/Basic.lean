import Nmos6502.Bus
import Nmos6502.Registers

/-!
# The processor

A processor is its registers, its program counter, the cycles it has counted and
what it is wired to.  The cycle counter has 64 bits and wraps like every other
number of the machine.  Power-up, the two resets and access to memory from outside
are here; none of them counts cycles.
-/

namespace Nmos6502

/-- The cell pair for the handler of interrupts that cannot be held back; no instruction
goes through it. -/
def nmiVector : Word := 0xFFFA

/-- The cell pair that holds the address at which execution starts. -/
def resetVector : Word := 0xFFFC

/-- The cell pair that holds the address of the interrupt handler. -/
def irqVector : Word := 0xFFFE

/-- A processor wired to an `M`. -/
structure Cpu (M : Type) extends Registers where
  /-- The address of the next instruction. -/
  pc : Word
  /-- The cycles counted since power-up or the last hard reset. -/
  cycles : UInt64 := 0
  memory : M

namespace Cpu

variable {M : Type} [Bus M]

/-- A processor at power-up, about to start where the reset vector points. -/
def powerUp (memory : M) : Cpu M where
  pc := Bus.readWord memory resetVector
  memory := memory

/-- Clears memory and registers and starts at an address, by way of the reset
vector.  Where the vector does not hold what is written to it, execution starts
where the vector then points. -/
def hardReset (cpu : Cpu M) (start : Word) : Cpu M :=
  powerUp (Bus.writeWord (Bus.clear cpu.memory) resetVector start)

/-- Starts again where the reset vector points, with an empty stack.  Memory,
flags, the other registers and the cycle count are kept. -/
def softReset (cpu : Cpu M) : Cpu M :=
  { cpu with sp := 0xFF, pc := Bus.readWord cpu.memory resetVector }

/-! ## Memory from outside -/

/-- The byte at an address. -/
def peek (cpu : Cpu M) (address : Word) : Byte := Bus.read cpu.memory address

/-- The word at an address. -/
def peekWord (cpu : Cpu M) (address : Word) : Word := Bus.readWord cpu.memory address

/-- Writes a byte. -/
def poke (cpu : Cpu M) (address : Word) (value : Byte) : Cpu M :=
  { cpu with memory := Bus.write cpu.memory address value }

/-- Writes a word. -/
def pokeWord (cpu : Cpu M) (address value : Word) : Cpu M :=
  { cpu with memory := Bus.writeWord cpu.memory address value }

/-- Writes one value to successive addresses. -/
def fill (cpu : Cpu M) (address : Word) (count : Nat) (value : Byte) : Cpu M :=
  { cpu with memory := Bus.fill cpu.memory address count value }

/-- Writes bytes to successive addresses. -/
def load (cpu : Cpu M) (address : Word) (bytes : List Byte) : Cpu M :=
  { cpu with memory := Bus.load cpu.memory address bytes }

/-- Clears memory and nothing else. -/
def clearMemory (cpu : Cpu M) : Cpu M := { cpu with memory := Bus.clear cpu.memory }

end Cpu

end Nmos6502
