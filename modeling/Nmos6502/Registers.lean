import Nmos6502.Alu
import Nmos6502.Status

/-!
# The registers that instructions compute with

The program counter is kept apart from these, because no instruction computes a
value from it.  A result that goes into a register, and one that is only looked at,
leave their marks in the flags; which marks is said here once for each kind of
result.
-/

namespace Nmos6502

/-- The accumulator, the two index registers, the stack pointer and the flags. -/
structure Registers where
  a : Byte := 0
  x : Byte := 0
  y : Byte := 0
  /-- The low byte of the next free stack cell, which lies in page one. -/
  sp : Byte := 0xFF
  status : Status := .empty
  deriving DecidableEq

namespace Registers

/-- Loads the accumulator. -/
def withA (r : Registers) (value : Byte) : Registers :=
  { r with a := value, status := r.status.withResult value }

/-- Loads the X register. -/
def withX (r : Registers) (value : Byte) : Registers :=
  { r with x := value, status := r.status.withResult value }

/-- Loads the Y register. -/
def withY (r : Registers) (value : Byte) : Registers :=
  { r with y := value, status := r.status.withResult value }

/-- Takes a sum into the accumulator, with its carry and overflow. -/
def withSum (r : Registers) (sum : Alu.Sum) : Registers :=
  let status := { r.status with carry := sum.carry, overflow := sum.overflow }
  { r with a := sum.value, status := status.withResult sum.value }

/-- Compares a register with a byte: Carry says that the register is not smaller,
and Zero and Negative belong to the difference. -/
def withComparison (r : Registers) (register operand : Byte) : Registers :=
  let status := { r.status with carry := decide (operand ≤ register) }
  { r with status := status.withResult (register - operand) }

/-- Tests a byte against the accumulator: Zero says that they share no bit, and
Negative and Overflow are the two highest bits of the byte. -/
def withBitTest (r : Registers) (operand : Byte) : Registers :=
  { r with status := { r.status with
      zero := r.a &&& operand == 0
      negative := operand.bit 7
      overflow := operand.bit 6 } }

/-- Changes the flags alone. -/
def mapStatus (r : Registers) (change : Status → Status) : Registers :=
  { r with status := change r.status }

end Registers

end Nmos6502
