import Nmos6502.Bus.Ram
import Nmos6502.Cpu.Run
import Nmos6502.Instruction.Text
import Nmos6502.Monitor.Parser

/-!
# A whole machine

A machine is a processor with a full address space of memory.  Its commands are
lines of text and its budgets have 32 bits, as a host without wider numbers needs
them; the faults of steps, runs and commands are of one type.
-/

namespace Nmos6502

/-- A processor with sixty-four kilobytes of memory. -/
structure Machine where
  cpu : Cpu Ram

namespace Machine

/-- Why a machine did not do what it was asked to do. -/
inductive Fault
  | decode (e : DecodeError)
  | command (e : Monitor.CommandError)
  deriving DecidableEq

/-- The fault in words. -/
def Fault.message : Fault → String
  | decode e => e.message
  | command e => e.message

/-- A machine with cleared memory that starts at an address. -/
def boot (start : Word) : Machine := ⟨(Cpu.powerUp Ram.zeroed).hardReset start⟩

/-- Clears the machine and starts at an address. -/
def hardReset (machine : Machine) (start : Word) : Machine := ⟨machine.cpu.hardReset start⟩

/-- Starts again where the reset vector points. -/
def softReset (machine : Machine) : Machine := ⟨machine.cpu.softReset⟩

/-- Moves the program counter. -/
def setCounter (machine : Machine) (address : Word) : Machine :=
  ⟨{ machine.cpu with pc := address }⟩

/-- The byte at an address. -/
def peek (machine : Machine) (address : Word) : Byte := machine.cpu.peek address

/-- The word at an address. -/
def peekWord (machine : Machine) (address : Word) : Word := machine.cpu.peekWord address

/-- Writes a byte. -/
def poke (machine : Machine) (address : Word) (value : Byte) : Machine :=
  ⟨machine.cpu.poke address value⟩

/-- Writes a program to memory and moves the program counter to its first byte. -/
def loadProgram (machine : Machine) (start : Word) (program : List Byte) : Machine :=
  ⟨{ machine.cpu.load start program with pc := start }⟩

/-- Executes one instruction, and tells the cycles it took. -/
def step (machine : Machine) : Except Fault (Nat × Machine) :=
  match machine.cpu.step with
  | .error e => .error (.decode e)
  | .ok (cost, cpu) => .ok (cost, ⟨cpu⟩)

/-- Runs until the budget is used up, and tells the cycles counted, of which the
lowest 32 bits are kept. -/
def run (machine : Machine) (budget : UInt32) : Machine × Except Fault UInt32 :=
  match machine.cpu.run budget.toUInt64 with
  | (cpu, .ok elapsed) => (⟨cpu⟩, .ok elapsed.toUInt32)
  | (cpu, .error e) => (⟨cpu⟩, .error (.decode e))

/-- The instruction at an address. -/
def disassemble (machine : Machine) (address : Word) : Instruction :=
  .decode machine.cpu.memory address

/-- Carries out a line of monitor commands, and tells whether it asks to quit. -/
def command (machine : Machine) (line : String) : Except Fault (Bool × Machine) :=
  match Monitor.Command.parse line with
  | .error e => .error (.command e)
  | .ok command => .ok (command.isQuit, ⟨command.apply machine.cpu⟩)

end Machine

end Nmos6502
