import Nmos6502.Proofs.Requests
import Nmos6502.Proofs.Writes

/-!
# A processor on another bus

Wire a processor to another bus, and its next instruction does the same there as long as it
reads the same: it costs the same, leaves the same registers and makes the same writes in
the same order.  `Cpu.ReadsAlike` says for each kind of operation what it reads, and
`execute_wiredTo` and `stepped_wiredTo` draw the conclusion.

The buses may be of two types, and no law of cells is needed of either.  An interrupt reads
its vector *behind* its pushes, so for it the vectors have to be compared after them.
-/

namespace Nmos6502

namespace Bus

/-- The writes that put bytes at successive addresses. -/
def rowWrites (address : Word) : List Byte → List (Word × Byte)
  | [] => []
  | b :: bytes => (address, b) :: rowWrites (address + 1) bytes

section WriteAll

variable {M : Type} [Bus M]

/-- Writes bytes to addresses, one after the other. -/
def writeAll (m : M) : List (Word × Byte) → M
  | [] => m
  | (address, value) :: writes => writeAll (write m address value) writes

theorem writeAll_append (m : M) (first second : List (Word × Byte)) :
    writeAll m (first ++ second) = writeAll (writeAll m first) second := by
  induction first generalizing m with
  | nil => rfl
  | cons head first ih => exact ih (write m head.1 head.2)

theorem load_eq_writeAll (m : M) (address : Word) (bytes : List Byte) :
    load m address bytes = writeAll m (rowWrites address bytes) := by
  induction bytes generalizing m address with
  | nil => rfl
  | cons b bytes ih => exact ih (write m address b) (address + 1)

/-- To fill is to load one value as often as one fills. -/
theorem fill_eq_load (m : M) (address : Word) (count : Nat) (value : Byte) :
    fill m address count value = load m address (List.replicate count value) := by
  induction count generalizing m address with
  | zero => rfl
  | succ count ih => exact ih (write m address value) (address + 1)

end WriteAll

end Bus

namespace Cpu

variable {M N : Type}

/-- The processor, wired to something else. -/
def wiredTo (cpu : Cpu M) (n : N) : Cpu N where
  toRegisters := cpu.toRegisters
  pc := cpu.pc
  cycles := cpu.cycles
  memory := n

theorem eq_wiredTo {s : Cpu M} {t : Cpu N} (hregisters : t.toRegisters = s.toRegisters)
    (hpc : t.pc = s.pc) (hcycles : t.cycles = s.cycles) : t = s.wiredTo t.memory := by
  rw [wiredTo, ← hregisters, ← hpc, ← hcycles]

variable [Bus M] [Bus N]

/-- What an operation reads of the bus is the same when the processor is wired to `n`. -/
def ReadsAlike (cpu : Cpu M) (n : N) (mode : AddressingMode) : Operation → Prop
  | .read _ | .modify _ =>
      (cpu.wiredTo n).resolve mode = cpu.resolve mode ∧
        (cpu.wiredTo n).readOperand (cpu.resolve mode) = cpu.readOperand (cpu.resolve mode)
  | .store _ | .branch _ | .jump => (cpu.wiredTo n).resolve mode = cpu.resolve mode
  | .internal _ | .push _ => True
  | .pull _ => (cpu.wiredTo n).pull.1 = cpu.pull.1
  | .call => (cpu.wiredTo n).operandWord = cpu.operandWord
  | .callReturn => (cpu.wiredTo n).pullWord.1 = cpu.pullWord.1
  | .interrupt => (cpu.wiredTo n).interrupt.pc = cpu.interrupt.pc
  | .interruptReturn =>
      (cpu.wiredTo n).pull.1 = cpu.pull.1 ∧
        (cpu.wiredTo n).pull.2.pullWord.1 = cpu.pull.2.pullWord.1

theorem writeOperand_wiredTo (cpu : Cpu M) (n : N) (value : Byte) (operand : Operand) :
    ∃ writes, (cpu.writeOperand value operand).memory = Bus.writeAll cpu.memory writes ∧
      (cpu.wiredTo n).writeOperand value operand =
        (cpu.writeOperand value operand).wiredTo (Bus.writeAll n writes) := by
  cases operand with
  | memory address crossed => exact ⟨[(address, value)], rfl, rfl⟩
  | implied | accumulator | immediate => exact ⟨[], rfl, rfl⟩

/-- An operation that reads the same does the same, and writes the same to both buses. -/
theorem execute_wiredTo (cpu : Cpu M) {n : N} {mode : AddressingMode} {op : Operation}
    (hreads : cpu.ReadsAlike n mode op) :
    ∃ writes, (cpu.execute mode op).2.memory = Bus.writeAll cpu.memory writes ∧
      (cpu.wiredTo n).execute mode op =
        ((cpu.execute mode op).1, (cpu.execute mode op).2.wiredTo (Bus.writeAll n writes)) := by
  cases op with
  | read use =>
      obtain ⟨hresolve, hoperand⟩ := hreads
      refine ⟨[], rfl, ?_⟩
      simp only [execute, hresolve, hoperand]
      rfl
  | store value =>
      obtain ⟨writes, hmemory, hwritten⟩ :=
        cpu.writeOperand_wiredTo n (value cpu.toRegisters) (cpu.resolve mode)
      refine ⟨writes, hmemory, ?_⟩
      change (0, ((cpu.wiredTo n).writeOperand _ ((cpu.wiredTo n).resolve mode)).advance mode) = _
      rw [hreads]
      exact congrArg (fun written => (0, written.advance mode)) hwritten
  | modify change_ =>
      obtain ⟨hresolve, hoperand⟩ := hreads
      let result := change_ cpu.status (cpu.readOperand (cpu.resolve mode))
      obtain ⟨writes, hmemory, hwritten⟩ :=
        cpu.writeOperand_wiredTo n result.1 (cpu.resolve mode)
      refine ⟨writes, hmemory, ?_⟩
      simp only [execute, hresolve, hoperand]
      exact congrArg (fun written => (0, { written with status := result.2 }.advance mode))
        hwritten
  | internal change_ => exact ⟨[], rfl, rfl⟩
  | push value => exact ⟨[(stackCell cpu.sp, value cpu.toRegisters)], rfl, rfl⟩
  | pull use =>
      refine ⟨[], rfl, ?_⟩
      change (0, { (cpu.wiredTo n).pull.2 with
        toRegisters := use cpu.pull.2.toRegisters (cpu.wiredTo n).pull.1 }.advance mode) = _
      rw [hreads]
      rfl
  | branch taken =>
      have hresolve : (cpu.wiredTo n).resolve mode = cpu.resolve mode := hreads
      have hstatus : (cpu.wiredTo n).status = cpu.status := rfl
      refine ⟨[], cpu.memory_execute_of_not_writesMemory mode rfl, ?_⟩
      simp only [execute, hresolve, hstatus]
      split <;> rfl
  | jump =>
      have hresolve : (cpu.wiredTo n).resolve mode = cpu.resolve mode := hreads
      refine ⟨[], cpu.memory_execute_of_not_writesMemory mode rfl, ?_⟩
      simp only [execute, hresolve]
      split <;> rfl
  | call =>
      refine ⟨[(stackCell cpu.sp, (cpu.pc + 2).high), (stackCell (cpu.sp - 1), (cpu.pc + 2).low)],
        rfl, ?_⟩
      change (0, { (cpu.wiredTo n).pushWord (cpu.pc + 2) with
        pc := (cpu.wiredTo n).operandWord }) = _
      rw [hreads]
      rfl
  | callReturn =>
      refine ⟨[], rfl, ?_⟩
      change (0, { (cpu.wiredTo n).pullWord.2 with pc := (cpu.wiredTo n).pullWord.1 + 1 }) = _
      rw [hreads]
      rfl
  | interrupt =>
      let status : Status := { cpu.status with breakCommand := true }
      refine ⟨[(stackCell cpu.sp, (cpu.pc + 1).high), (stackCell (cpu.sp - 1), (cpu.pc + 1).low),
        (stackCell (cpu.sp - 1 - 1), status.toByte)], rfl, ?_⟩
      change (0, { (cpu.wiredTo n).interrupt with pc := (cpu.wiredTo n).interrupt.pc }) = _
      rw [hreads]
      rfl
  | interruptReturn =>
      obtain ⟨hstatus, haddress⟩ := hreads
      refine ⟨[], rfl, ?_⟩
      change (0, { (cpu.wiredTo n).pull.2.pullWord.2 with
        status := .ofPulled (cpu.wiredTo n).pull.1
        pc := (cpu.wiredTo n).pull.2.pullWord.1 }) = _
      rw [hstatus, haddress]
      rfl

/-- A step that finds the same opcode and reads the same does the same. -/
theorem stepped_wiredTo (cpu : Cpu M) {n : N} (hopcode : (cpu.wiredTo n).opcode = cpu.opcode)
    (hreads : ∀ e ∈ Encoding.lookup cpu.opcode,
      cpu.ReadsAlike n e.mode e.mnemonic.operation) :
    ∃ writes, cpu.stepped.memory = Bus.writeAll cpu.memory writes ∧
      (cpu.wiredTo n).stepped = cpu.stepped.wiredTo (Bus.writeAll n writes) ∧
      (cpu.wiredTo n).answer = cpu.answer := by
  cases hlookup : Encoding.lookup cpu.opcode with
  | none =>
      have hstep : cpu.step = .error ⟨cpu.opcode, cpu.pc⟩ :=
        (cpu.step_eq_error_iff _).2 ⟨hlookup, rfl⟩
      have hwired : (cpu.wiredTo n).step = .error ⟨cpu.opcode, cpu.pc⟩ := by
        rw [step_eq_error_iff, hopcode]
        exact ⟨hlookup, rfl⟩
      rw [stepped_of_error hstep, stepped_of_error hwired, answer, answer, hstep, hwired]
      exact ⟨[], rfl, rfl, rfl⟩
  | some e =>
      obtain ⟨writes, hmemory, hexecute⟩ := cpu.execute_wiredTo (hreads e hlookup)
      have hstep : cpu.step = .ok (cpu.perform e) := step_of_lookup hlookup
      have hwired : (cpu.wiredTo n).step = .ok ((cpu.wiredTo n).perform e) := by
        apply step_of_lookup
        rw [hopcode]
        exact hlookup
      have hperform : (cpu.wiredTo n).perform e =
          ((cpu.perform e).1, (cpu.perform e).2.wiredTo (Bus.writeAll n writes)) := by
        rw [perform, hexecute]
        rfl
      rw [hperform] at hwired
      rw [stepped_of_ok hstep, stepped_of_ok hwired, answer, answer, hstep, hwired]
      exact ⟨writes, hmemory, rfl, rfl⟩

end Cpu

end Nmos6502
