import Nmos6502.Cpu.Operand
import Nmos6502.Cpu.Stack
import Nmos6502.Isa.Encoding
import Nmos6502.Isa.Operation
import Nmos6502.Hex

/-!
# One instruction

A step looks up the opcode at the program counter and carries out what it stands
for.  An undocumented opcode is an error, and then nothing at all has changed.
`step_cost_bounds` bounds what a step costs, which is why a run with a budget ends.
-/

namespace Nmos6502

/-- An opcode that is not documented, and where it was met. -/
structure DecodeError where
  opcode : Byte
  address : Word
  deriving DecidableEq

/-- The error in words. -/
def DecodeError.message (e : DecodeError) : String :=
  "invalid opcode $" ++ Hex.ofByte e.opcode ++ " at $" ++ Hex.ofWord e.address

namespace Cpu

variable {M : Type} [Bus M]

/-- Goes on to the instruction behind one of the given mode. -/
@[inline] def advance (cpu : Cpu M) (mode : AddressingMode) : Cpu M :=
  { cpu with pc := cpu.pc + UInt16.ofNat mode.length }

/-- Goes to a subroutine.  The operand is read before the return address is pushed,
since the push may overwrite it. -/
def call (cpu : Cpu M) : Cpu M :=
  let target := cpu.operandWord
  { cpu.pushWord (cpu.pc + 2) with pc := target }

/-- Comes back from a subroutine, to the byte behind the pushed address. -/
def callReturn (cpu : Cpu M) : Cpu M :=
  let (address, cpu) := cpu.pullWord
  { cpu with pc := address + 1 }

/-- Goes to the interrupt handler.  The pushed status is marked with Break, and the
vector is read after the pushes. -/
def interrupt (cpu : Cpu M) : Cpu M :=
  let pushed := (cpu.pushWord (cpu.pc + 1)).push { cpu.status with breakCommand := true }.toByte
  { pushed with
    status := { pushed.status with interruptDisable := true }
    pc := Bus.readWord pushed.memory irqVector }

/-- Comes back from the interrupt handler, to the pushed address itself. -/
def interruptReturn (cpu : Cpu M) : Cpu M :=
  let (status, cpu) := cpu.pull
  let (address, cpu) := cpu.pullWord
  { cpu with status := .ofPulled status, pc := address }

/-- Carries out an operation on the operand of the given mode.  The number is what
the operand adds to the cycles of the opcode: only reads and taken branches pay for
a crossed page, and a taken branch pays one cycle more. -/
@[inline] def execute (cpu : Cpu M) (mode : AddressingMode) : Operation → Nat × Cpu M
  | .read use =>
      let operand := cpu.resolve mode
      let registers := use cpu.toRegisters (cpu.readOperand operand)
      (operand.penalty, { cpu with toRegisters := registers }.advance mode)
  | .store value =>
      (0, (cpu.writeOperand (value cpu.toRegisters) (cpu.resolve mode)).advance mode)
  | .modify change =>
      let operand := cpu.resolve mode
      let (value, status) := change cpu.status (cpu.readOperand operand)
      (0, { cpu.writeOperand value operand with status := status }.advance mode)
  | .internal change => (0, { cpu with toRegisters := change cpu.toRegisters }.advance mode)
  | .push value => (0, (cpu.push (value cpu.toRegisters)).advance mode)
  | .pull use =>
      let (value, cpu) := cpu.pull
      (0, { cpu with toRegisters := use cpu.toRegisters value }.advance mode)
  | .branch taken =>
      match taken cpu.status, cpu.resolve mode with
      | true, .memory address crossed => (1 + crossed.toNat, { cpu with pc := address })
      | _, _ => (0, cpu.advance mode)
  | .jump =>
      match cpu.resolve mode with
      | .memory address _ => (0, { cpu with pc := address })
      | _ => (0, cpu.advance mode)
  | .call => (0, cpu.call)
  | .callReturn => (0, cpu.callReturn)
  | .interrupt => (0, cpu.interrupt)
  | .interruptReturn => (0, cpu.interruptReturn)

/-- Adds to the cycle counter. -/
@[inline] def spend (cpu : Cpu M) (cost : Nat) : Cpu M :=
  { cpu with cycles := cpu.cycles + UInt64.ofNat cost }

/-- Executes a documented instruction, and tells the cycles it took. -/
@[inline] def perform (cpu : Cpu M) (e : Encoding) : Nat × Cpu M :=
  let (penalty, next) := cpu.execute e.mode e.mnemonic.operation
  let cost := e.cycles + penalty
  (cost, next.spend cost)

/-- The opcode at the program counter. -/
@[inline] def opcode (cpu : Cpu M) : Byte := Bus.read cpu.memory cpu.pc

/-- Executes the instruction at the program counter, and tells the cycles it took. -/
@[inline] def step (cpu : Cpu M) : Except DecodeError (Nat × Cpu M) :=
  match Encoding.lookup cpu.opcode with
  | none => .error ⟨cpu.opcode, cpu.pc⟩
  | some e => .ok (cpu.perform e)

/-- A step fails exactly on an undocumented opcode. -/
theorem step_eq_error_iff (cpu : Cpu M) (e : DecodeError) :
    cpu.step = .error e ↔
      Encoding.lookup cpu.opcode = none ∧ e = ⟨cpu.opcode, cpu.pc⟩ := by
  unfold step
  cases Encoding.lookup cpu.opcode with
  | none => simp [eq_comm]
  | some found => simp

/-- A step that succeeds performs the documented instruction of the opcode. -/
theorem step_eq_ok_iff (cpu : Cpu M) (outcome : Nat × Cpu M) :
    cpu.step = .ok outcome ↔
      ∃ e, Encoding.lookup cpu.opcode = some e ∧ outcome = cpu.perform e := by
  unfold step
  cases Encoding.lookup cpu.opcode with
  | none => simp
  | some found => simp [eq_comm]

/-! ## The cost of a step -/

theorem execute_penalty_le_two (cpu : Cpu M) (mode : AddressingMode) (op : Operation) :
    (cpu.execute mode op).1 ≤ 2 := by
  cases op with
  | read use =>
      have hpenalty := (cpu.resolve mode).penalty_le_one
      change (cpu.resolve mode).penalty ≤ 2
      omega
  | branch taken =>
      simp only [execute]
      split
      · rename_i crossed _ _
        have hcrossed := Bool.toNat_le crossed
        change 1 + crossed.toNat ≤ 2
        omega
      · exact Nat.zero_le 2
  | jump =>
      simp only [execute]
      split <;> exact Nat.zero_le 2
  | store | modify | internal | push | pull | call | callReturn | interrupt |
    interruptReturn => exact Nat.zero_le 2

theorem step_cost_bounds {cpu next : Cpu M} {cost : Nat}
    (h : cpu.step = .ok (cost, next)) : 2 ≤ cost ∧ cost ≤ 9 := by
  obtain ⟨e, hlookup, houtcome⟩ := (step_eq_ok_iff cpu (cost, next)).1 h
  have hmem := ((Encoding.lookup_eq_some_iff cpu.opcode e).1 hlookup).1
  have hbounds := Encoding.cycles_bounds e hmem
  have hpenalty := cpu.execute_penalty_le_two e.mode e.mnemonic.operation
  have hcost : cost = e.cycles + (cpu.execute e.mode e.mnemonic.operation).1 :=
    congrArg Prod.fst houtcome
  omega

end Cpu

end Nmos6502
