import Nmos6502.Cpu.Stack

/-!
# Monitor commands

A monitor changes a machine at rest: it sets memory and registers and pushes bytes,
and it can be told to quit.  No command counts cycles or moves the program counter.
-/

namespace Nmos6502.Monitor

/-- The registers that a command can set. -/
inductive Register
  | a | x | y
  deriving DecidableEq

/-- What a command is to do, without its arguments. -/
inductive Verb
  | setMemory | setBlock | setRegister | pushStack | quit
  deriving DecidableEq

namespace Verb

/-- The verbs in the order in which help shows them. -/
def all : List Verb := [setMemory, setBlock, setRegister, pushStack, quit]

/-- The word that a command begins with. -/
def keyword : Verb → String
  | setMemory => "sm"
  | setBlock => "sb"
  | setRegister => "sr"
  | pushStack => "ps"
  | quit => "q"

/-- The line of help. -/
def usage : Verb → String
  | setMemory => "Set Memory:   sm <address> <value>"
  | setBlock => "Set Block:    sb <address> <count> <value>"
  | setRegister => "Set Register: sr <reg> <value>"
  | pushStack => "Push Stack:   ps <value>"
  | quit => "Quit:         q"

/-- The verb of a word. -/
def ofKeyword? (text : String) : Option Verb := all.find? fun v => v.keyword == text

theorem ofKeyword?_eq_some_iff (text : String) (v : Verb) :
    ofKeyword? text = some v ↔ text = v.keyword := by
  constructor
  · intro h
    have hkeyword := List.find?_some h
    exact (beq_iff_eq.1 hkeyword).symm
  · rintro rfl
    cases v <;> decide

end Verb

/-- A command with its arguments. -/
inductive Command
  | setMemory (address : Word) (value : Byte)
  | setBlock (address count : Word) (value : Byte)
  | setRegister (register : Register) (value : Byte)
  | pushStack (value : Byte)
  | quit
  deriving DecidableEq

namespace Command

/-- What the command is to do. -/
def verb : Command → Verb
  | setMemory .. => .setMemory
  | setBlock .. => .setBlock
  | setRegister .. => .setRegister
  | pushStack .. => .pushStack
  | quit => .quit

/-- Whether the command asks to leave the monitor. -/
def isQuit (command : Command) : Bool := command == quit

/-- Carries out a command. -/
def apply {M : Type} [Bus M] (command : Command) (cpu : Cpu M) : Cpu M :=
  match command with
  | setMemory address value => cpu.poke address value
  | setBlock address count value => cpu.fill address count.toNat value
  | setRegister .a value => { cpu with a := value }
  | setRegister .x value => { cpu with x := value }
  | setRegister .y value => { cpu with y := value }
  | pushStack value => { cpu.poke (stackBase + cpu.sp.toUInt16) value with sp := cpu.sp - 1 }
  | quit => cpu

/-- The monitor pushes as an instruction does: adding the base of the stack to the stack
pointer finds the cell that the stack pointer names. -/
theorem apply_pushStack {M : Type} [Bus M] (value : Byte) (cpu : Cpu M) :
    (pushStack value).apply cpu = cpu.push value := by
  rw [apply, ← stackCell_eq]
  rfl

end Command

end Nmos6502.Monitor
