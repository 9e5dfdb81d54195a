import Mathlib.Logic.Function.Iterate
import Nmos6502.Proofs.Decoding
import Nmos6502.Proofs.Requests

/-!
# Four flags that nothing tests

InterruptDisable, Decimal, Break and the unused flag are set and cleared, pushed and pulled,
but nothing is computed from them: two processors that differ in these flags alone execute
the same instructions at the same cost, with results that differ in these flags alone.

`Cpu.tested` forgets the four flags.  A step may forget them before or after, and the two
runs are compared by what is left when they are forgotten.  Only an instruction that pushes
the status is *not* like that, since a program can read in memory what it pushed.
-/

namespace Nmos6502

/-! ## Forgetting flags -/

/-- The flags that instructions test, with the others cleared. -/
def Status.tested (s : Status) : Status :=
  { s with interruptDisable := false, decimal := false, breakCommand := false, unused := false }

/-- The registers with the flags that instructions test. -/
def Registers.tested (r : Registers) : Registers := { r with status := r.status.tested }

/-- The functions of an operation give the same, up to the untested flags, when they are not
told these flags. -/
def Operation.IgnoresUntested : Operation → Prop
  | .read use | .pull use => ∀ r b, (use r.tested b).tested = (use r b).tested
  | .store value | .push value => ∀ r, value r.tested = value r
  | .modify change => ∀ s b, (change s.tested b).1 = (change s b).1 ∧
      (change s.tested b).2.tested = (change s b).2.tested
  | .internal change => ∀ r, (change r.tested).tested = (change r).tested
  | .branch taken => ∀ s, taken s.tested = taken s
  | .jump | .call | .callReturn | .interruptReturn => True
  -- It pushes the whole status.
  | .interrupt => False

theorem Mnemonic.ignoresUntested_operation {m : Mnemonic} (hphp : m ≠ .php) (hbrk : m ≠ .brk) :
    m.operation.IgnoresUntested := by
  cases m with
  | php => exact absurd rfl hphp
  | brk => exact absurd rfl hbrk
  | lda | ldx | ldy | adc | sbc | and | ora | eor | bit | cmp | cpx | cpy | pla | plp =>
      exact fun _ _ => rfl
  | inc | dec | asl | lsr | rol | ror => exact fun _ _ => ⟨rfl, rfl⟩
  | inx | iny | dex | dey | tax | tay | txa | tya | tsx | txs | clc | sec | cld | sed | cli |
    sei | clv | nop => exact fun _ => rfl
  | sta | stx | sty | pha => exact fun _ => rfl
  | bpl | bmi | bvc | bvs | bcc | bcs | bne | beq => exact fun _ => rfl
  | jmp | jsr | rts | rti => trivial

namespace Cpu

variable {M : Type}

/-- The processor with the flags that instructions test. -/
def tested (cpu : Cpu M) : Cpu M := { cpu with status := cpu.status.tested }

/-- Two processors that may differ in the untested flags, and differ in nothing else. -/
structure Alike (s t : Cpu M) : Prop where
  a : s.a = t.a
  x : s.x = t.x
  y : s.y = t.y
  sp : s.sp = t.sp
  pc : s.pc = t.pc
  cycles : s.cycles = t.cycles
  memory : s.memory = t.memory
  carry : s.status.carry = t.status.carry
  zero : s.status.zero = t.status.zero
  overflow : s.status.overflow = t.status.overflow
  negative : s.status.negative = t.status.negative

theorem alike_iff_tested (s t : Cpu M) : s.Alike t ↔ s.tested = t.tested := by
  constructor
  · intro h
    simp only [tested, Status.tested, h.a, h.x, h.y, h.sp, h.pc, h.cycles, h.memory, h.carry,
      h.zero, h.overflow, h.negative]
  · intro h
    have hstatus : s.status.tested = t.status.tested := congrArg (·.status) h
    exact ⟨congrArg (·.a) h, congrArg (·.x) h, congrArg (·.y) h, congrArg (·.sp) h,
      congrArg (·.pc) h, congrArg (·.cycles) h, congrArg (·.memory) h,
      congrArg (·.carry) hstatus, congrArg (·.zero) hstatus, congrArg (·.overflow) hstatus,
      congrArg (·.negative) hstatus⟩

/-- Where an instruction leaves registers behind, their untested flags are forgotten. -/
theorem tested_advance_congr (cpu : Cpu M) (mode : AddressingMode) {r s : Registers}
    (h : r.tested = s.tested) :
    ({ cpu with toRegisters := r }.advance mode).tested =
      ({ cpu with toRegisters := s }.advance mode).tested :=
  congrArg (fun r => { cpu with toRegisters := r }.advance mode) h

/-! ## One step -/

variable [Bus M]

theorem resolve_tested (cpu : Cpu M) (mode : AddressingMode) :
    cpu.tested.resolve mode = cpu.resolve mode := by
  cases mode <;> rfl

theorem readOperand_tested (cpu : Cpu M) (operand : Operand) :
    cpu.tested.readOperand operand = cpu.readOperand operand := by
  cases operand <;> rfl

theorem writeOperand_tested (cpu : Cpu M) (value : Byte) (operand : Operand) :
    cpu.tested.writeOperand value operand = (cpu.writeOperand value operand).tested := by
  cases operand <;> rfl

theorem execute_tested (cpu : Cpu M) (mode : AddressingMode) {op : Operation}
    (hop : op.IgnoresUntested) :
    (cpu.tested.execute mode op).1 = (cpu.execute mode op).1 ∧
      (cpu.tested.execute mode op).2.tested = (cpu.execute mode op).2.tested := by
  cases op with
  | read use =>
      simp only [execute, resolve_tested, readOperand_tested]
      exact ⟨trivial, tested_advance_congr cpu mode (hop cpu.toRegisters _)⟩
  | store value =>
      simp only [execute, resolve_tested, writeOperand_tested]
      refine ⟨trivial, ?_⟩
      change ((cpu.writeOperand (value cpu.toRegisters.tested) _).advance mode).tested = _
      rw [hop]
  | modify change_ =>
      obtain ⟨hvalue, hstatus⟩ := hop cpu.status (cpu.readOperand (cpu.resolve mode))
      simp only [execute, resolve_tested, readOperand_tested]
      refine ⟨trivial, ?_⟩
      change ({ cpu.tested.writeOperand (change_ cpu.status.tested _).1 _ with
        status := (change_ cpu.status.tested _).2 }.advance mode).tested = _
      rw [hvalue, writeOperand_tested]
      -- The same byte has been written in both, so only the flags are left to compare.
      let written := cpu.writeOperand
        (change_ cpu.status (cpu.readOperand (cpu.resolve mode))).1 (cpu.resolve mode)
      exact tested_advance_congr written mode
        (congrArg (fun s => { written.toRegisters with status := s }) hstatus)
  | internal change_ =>
      exact ⟨rfl, tested_advance_congr cpu mode (hop cpu.toRegisters)⟩
  | push value =>
      refine ⟨rfl, ?_⟩
      change ((cpu.push (value cpu.toRegisters.tested)).advance mode).tested = _
      rw [hop]
      rfl
  | pull use =>
      exact ⟨rfl, tested_advance_congr cpu.pull.2 mode (hop cpu.pull.2.toRegisters cpu.pull.1)⟩
  | branch taken =>
      have htaken : taken cpu.tested.status = taken cpu.status := hop cpu.status
      simp only [execute, resolve_tested, htaken]
      split <;> exact ⟨rfl, rfl⟩
  | jump =>
      simp only [execute, resolve_tested]
      split <;> exact ⟨rfl, rfl⟩
  | call | callReturn | interruptReturn => exact ⟨rfl, rfl⟩
  | interrupt => exact hop.elim

theorem perform_tested (cpu : Cpu M) {e : Encoding}
    (hop : e.mnemonic.operation.IgnoresUntested) :
    (cpu.tested.perform e).1 = (cpu.perform e).1 ∧
      (cpu.tested.perform e).2.tested = (cpu.perform e).2.tested := by
  obtain ⟨hpenalty, hstate⟩ := cpu.execute_tested e.mode hop
  have hcost : (cpu.tested.perform e).1 = (cpu.perform e).1 := congrArg (e.cycles + ·) hpenalty
  refine ⟨hcost, ?_⟩
  change (cpu.tested.execute e.mode e.mnemonic.operation).2.tested.spend
    (cpu.tested.perform e).1 = _
  rw [hstate, hcost]
  rfl

/-- A step that pushes no status may as well forget the untested flags before. -/
theorem step_tested {cpu : Cpu M} (hphp : cpu.mnemonic ≠ some .php)
    (hbrk : cpu.mnemonic ≠ some .brk) :
    cpu.tested.answer = cpu.answer ∧ cpu.tested.stepped.tested = cpu.stepped.tested := by
  cases hlookup : Encoding.lookup cpu.opcode with
  | none =>
      have hstep : cpu.step = .error ⟨cpu.opcode, cpu.pc⟩ :=
        (step_eq_error_iff cpu _).2 ⟨hlookup, rfl⟩
      have hstepTested : cpu.tested.step = .error ⟨cpu.opcode, cpu.pc⟩ :=
        (step_eq_error_iff cpu.tested _).2 ⟨hlookup, rfl⟩
      rw [answer, answer, stepped_of_error hstep, stepped_of_error hstepTested, hstep,
        hstepTested]
      exact ⟨rfl, rfl⟩
  | some e =>
      have hstep : cpu.step = .ok (cpu.perform e) := step_of_lookup hlookup
      have hstepTested : cpu.tested.step = .ok (cpu.tested.perform e) := step_of_lookup hlookup
      have hmnemonic : cpu.mnemonic = some e.mnemonic :=
        congrArg Instruction.mnemonic (Instruction.decode_of_lookup hlookup)
      rw [hmnemonic] at hphp hbrk
      obtain ⟨hcost, hstate⟩ := cpu.perform_tested
        (Mnemonic.ignoresUntested_operation (mt (congrArg some) hphp) (mt (congrArg some) hbrk))
      rw [answer, answer, stepped_of_ok hstep, stepped_of_ok hstepTested, hstep, hstepTested]
      exact ⟨congrArg Except.ok hcost, hstate⟩

/-! ## Two runs -/

theorem Alike.mnemonic_eq {s t : Cpu M} (h : s.Alike t) : s.mnemonic = t.mnemonic := by
  rw [mnemonic, mnemonic, h.memory, h.pc]

theorem Alike.stepped {s t : Cpu M} (h : s.Alike t) (hphp : s.mnemonic ≠ some .php)
    (hbrk : s.mnemonic ≠ some .brk) :
    s.answer = t.answer ∧ s.stepped.Alike t.stepped := by
  have htested : s.tested = t.tested := (alike_iff_tested s t).1 h
  obtain ⟨hs, hsNext⟩ := step_tested hphp hbrk
  rw [h.mnemonic_eq] at hphp hbrk
  obtain ⟨ht, htNext⟩ := step_tested hphp hbrk
  constructor
  · rw [← hs, ← ht, htested]
  · rw [alike_iff_tested, ← hsNext, ← htNext, htested]

/-- As long as neither pushes its status, two processors that differ in the untested flags
alone give the same answer at every step, with the same cycles or the same error, and never
differ in anything else. -/
theorem untested_flags_never_show {s t : Cpu M} (halike : s.Alike t) {n : Nat}
    (hphp : ∀ k < n, (Cpu.stepped^[k] s).mnemonic ≠ some .php)
    (hbrk : ∀ k < n, (Cpu.stepped^[k] s).mnemonic ≠ some .brk) :
    (∀ k < n, (Cpu.stepped^[k] s).answer = (Cpu.stepped^[k] t).answer) ∧
      ∀ k ≤ n, (Cpu.stepped^[k] s).Alike (Cpu.stepped^[k] t) := by
  have hruns : ∀ k ≤ n, (Cpu.stepped^[k] s).Alike (Cpu.stepped^[k] t) := by
    intro k
    induction k with
    | zero => exact fun _ => halike
    | succ k ih =>
        intro hk
        rw [Function.iterate_succ_apply', Function.iterate_succ_apply']
        exact ((ih (by omega)).stepped (hphp k hk) (hbrk k hk)).2
  refine ⟨?_, hruns⟩
  intro k hk
  exact ((hruns k (by omega)).stepped (hphp k hk) (hbrk k hk)).1

/-- Adds, pulls a status and meets an undocumented opcode. -/
def additionProgram : Cpu Ram where
  a := 0x09
  sp := 0xFE
  pc := 0x0400
  memory := Bus.load Ram.zeroed 0x0400 [0x69, 0x01, 0x28, 0x02]

/-- The same in decimal mode, with the other three flags set as well. -/
def decimalProgram : Cpu Ram :=
  { additionProgram with
    status :=
      { interruptDisable := true, decimal := true, breakCommand := true, unused := true } }

theorem untested_decimalProgram :
    decimalProgram.stepped.a = 0x0A ∧
      (Cpu.stepped^[2] decimalProgram).answer = .error ⟨0x02, 0x0403⟩ := by
  have halike : additionProgram.Alike decimalProgram := by constructor <;> rfl
  have hphp : ∀ k < 3, (Cpu.stepped^[k] additionProgram).mnemonic ≠ some .php := by
    decide +kernel
  have hbrk : ∀ k < 3, (Cpu.stepped^[k] additionProgram).mnemonic ≠ some .brk := by
    decide +kernel
  obtain ⟨hanswers, hruns⟩ := untested_flags_never_show halike hphp hbrk
  have hsum : additionProgram.stepped.a = 0x0A := by decide +kernel
  have herror : (Cpu.stepped^[2] additionProgram).answer = .error ⟨0x02, 0x0403⟩ := rfl
  constructor
  · rw [← hsum]
    exact ((hruns 1 (by decide)).a).symm
  · rw [← herror]
    exact (hanswers 2 (by decide)).symm

end Cpu

end Nmos6502
