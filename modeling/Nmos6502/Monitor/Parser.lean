import Nmos6502.Monitor.Command
import Nmos6502.Hex
import Nmos6502.Words

/-!
# Reading monitor commands

A command line is a verb and its arguments, separated by blanks.  The arguments are
read from left to right and the first fault decides; that there are too many is
found last.  Numbers are hexadecimal, and may be marked as such.
-/

namespace Nmos6502.Monitor

/-- Why a line is not a command. -/
inductive CommandError
  /-- The line has no words. -/
  | empty
  /-- The first word is no verb. -/
  | unknownCommand (text : String)
  /-- The arguments end too soon. -/
  | missingArgument (verb : Verb)
  /-- A word is left over. -/
  | tooManyArguments (verb : Verb)
  /-- A word is not a number of so many bits. -/
  | invalidNumber (text : String) (bits : Nat)
  /-- A word is not a register. -/
  | invalidRegister (text : String)
  deriving DecidableEq

/-- The error in words. -/
def CommandError.message : CommandError → String
  | empty => "empty command"
  | unknownCommand text => "unknown command: " ++ text
  | missingArgument verb => "not enough arguments: " ++ verb.usage
  | tooManyArguments verb => "too many arguments: " ++ verb.usage
  | invalidNumber text bits => "invalid " ++ Nat.repr bits ++ "-bit hex number: " ++ text
  | invalidRegister text => "invalid register: " ++ text

/-- Leaves out the mark of a hexadecimal number, if there is one. -/
def dropMark : List Char → List Char
  | '$' :: digits => digits
  | '0' :: 'x' :: digits => digits
  | '0' :: 'X' :: digits => digits
  | digits => digits

/-- The number that a word stands for, if it fits into so many bits. -/
def number? (bits : Nat) (text : String) : Option Nat :=
  Hex.toNatBelow? (Nat.pow 2 bits) (dropMark text.toList)

namespace Register

/-- The name of the register. -/
def name : Register → String
  | a => "A"
  | x => "X"
  | y => "Y"

/-- The register of a name in either case. -/
def ofName (text : String) : Except CommandError Register :=
  if text = "a" ∨ text = "A" then .ok a
  else if text = "x" ∨ text = "X" then .ok x
  else if text = "y" ∨ text = "Y" then .ok y
  else .error (.invalidRegister text)

end Register

/-- The first argument of those left, with the others. -/
def takeArgument (verb : Verb) : List String → Except CommandError (String × List String)
  | [] => .error (.missingArgument verb)
  | text :: rest => .ok (text, rest)

/-- Reads a number of so many bits off the arguments left. -/
def takeNumber (verb : Verb) (bits : Nat) (arguments : List String) :
    Except CommandError (Nat × List String) := do
  let (text, rest) ← takeArgument verb arguments
  match number? bits text with
  | none => .error (.invalidNumber text bits)
  | some n => .ok (n, rest)

/-- Reads a byte off the arguments left. -/
def takeByte (verb : Verb) (arguments : List String) :
    Except CommandError (Byte × List String) := do
  let (n, rest) ← takeNumber verb 8 arguments
  .ok (UInt8.ofNat n, rest)

/-- Reads a word off the arguments left. -/
def takeWord (verb : Verb) (arguments : List String) :
    Except CommandError (Word × List String) := do
  let (n, rest) ← takeNumber verb 16 arguments
  .ok (UInt16.ofNat n, rest)

/-- Reads a register off the arguments left. -/
def takeRegister (verb : Verb) (arguments : List String) :
    Except CommandError (Register × List String) := do
  let (text, rest) ← takeArgument verb arguments
  let register ← Register.ofName text
  .ok (register, rest)

namespace Command

/-- Reads the arguments of a verb, and tells those that are left over. -/
def ofArguments (verb : Verb) (arguments : List String) :
    Except CommandError (Command × List String) :=
  match verb with
  | .setMemory => do
      let (address, rest) ← takeWord verb arguments
      let (value, rest) ← takeByte verb rest
      .ok (.setMemory address value, rest)
  | .setBlock => do
      let (address, rest) ← takeWord verb arguments
      let (count, rest) ← takeWord verb rest
      let (value, rest) ← takeByte verb rest
      .ok (.setBlock address count value, rest)
  | .setRegister => do
      let (register, rest) ← takeRegister verb arguments
      let (value, rest) ← takeByte verb rest
      .ok (.setRegister register value, rest)
  | .pushStack => do
      let (value, rest) ← takeByte verb arguments
      .ok (.pushStack value, rest)
  | .quit => .ok (.quit, arguments)

/-- Reads a command from words. -/
def ofWords : List String → Except CommandError Command
  | [] => .error .empty
  | keyword :: arguments =>
      match Verb.ofKeyword? keyword with
      | none => .error (.unknownCommand keyword)
      | some verb => do
          let (command, rest) ← ofArguments verb arguments
          if rest.isEmpty then .ok command else .error (.tooManyArguments verb)

/-- Reads a command from a line. -/
def parse (line : String) : Except CommandError Command := ofWords (Words.ofLine line)

end Command

end Nmos6502.Monitor
