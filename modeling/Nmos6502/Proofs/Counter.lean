import Mathlib.Algebra.Group.Nat.Defs
import Nmos6502.Cpu.Run
import Nmos6502.Proofs.Decoding
import Nmos6502.Proofs.Stack

/-!
# Where a step goes on

A step either fails on an undocumented opcode and leaves everything as it was, or it
counts its cost and moves the program counter.  Most instructions go on behind
themselves; `CounterLaw` says where each of the others goes, in terms of the state
*before* the step.  That matters for a call, whose return address may overwrite its
own operand, and for an interrupt, whose vector is read after three pushes.
-/

namespace Nmos6502

/-- The operations that go on to the instruction behind. -/
def Operation.isSequential : Operation → Bool
  | .read _ | .store _ | .modify _ | .internal _ | .push _ | .pull _ => true
  | .branch _ | .jump | .call | .callReturn | .interrupt | .interruptReturn => false

theorem Mnemonic.isSequential_operation (m : Mnemonic) :
    m.operation.isSequential = !m.setsCounter := by
  cases m <;> rfl

theorem AddressingMode.toNat_add_length (mode : AddressingMode) (pc : Word) :
    (pc + UInt16.ofNat mode.length).toNat = (pc.toNat + mode.length) % 65536 := by
  simp [UInt16.toNat_add]

namespace Encoding

theorem jump_entries : ∀ e ∈ documented, e.mnemonic = .jmp →
    e.mode = .absolute ∨ e.mode = .indirect := by
  decide +kernel

theorem call_entries : ∀ e ∈ documented, e.mnemonic = .jsr → e.mode = .absolute := by
  decide +kernel

end Encoding

namespace Cpu

section Execute

variable {M : Type} [Bus M]

theorem pc_writeOperand (cpu : Cpu M) (value : Byte) (operand : Operand) :
    (cpu.writeOperand value operand).pc = cpu.pc := by
  cases operand <;> rfl

theorem pc_execute_of_isSequential (cpu : Cpu M) (mode : AddressingMode) {op : Operation}
    (hsequential : op.isSequential = true) :
    (cpu.execute mode op).2.pc = cpu.pc + UInt16.ofNat mode.length := by
  cases op with
  | read | internal | push | pull => rfl
  | store value =>
      change (cpu.writeOperand _ _).pc + _ = _
      rw [pc_writeOperand]
  | modify change_ =>
      change (cpu.writeOperand _ _).pc + _ = _
      rw [pc_writeOperand]
  | branch | jump | call | callReturn | interrupt | interruptReturn => cases hsequential

end Execute

/-! ## The vector of an interrupt -/

/-- The pushes of an interrupt stay away from its vector. -/
theorem toNat_pc_interrupt (cpu : Cpu Ram) :
    cpu.interrupt.pc.toNat = cpu.cell 0xFFFE + 256 * cpu.cell 0xFFFF := by
  let pushed := ((cpu.push (cpu.pc + 1).high).push (cpu.pc + 1).low).push
    { cpu.status with breakCommand := true }.toByte
  have hcell : ∀ n, n % 65536 / 256 ≠ 1 → pushed.cell n = cpu.cell n := by
    intro n hpage
    rw [cell_push_of_not_stack _ _ hpage, cell_push_of_not_stack _ _ hpage,
      cell_push_of_not_stack _ _ hpage]
  change (Bus.readWord pushed.memory irqVector).toNat = _
  rw [Bus.readWord, Word.toNat_ofBytes, toNat_read, toNat_read]
  change pushed.cell 0xFFFE + 256 * pushed.cell 0xFFFF = _
  rw [hcell _ (by decide), hcell _ (by decide)]

/-! ## The program counter after a step -/

/-- Where the processor goes on after the instruction `i` with mnemonic `m`. -/
structure CounterLaw (cpu next : Cpu Ram) (i : Instruction) (m : Mnemonic) : Prop where
  sequential : m.setsCounter = false →
    next.pc.toNat = (cpu.pc.toNat + i.size) % 65536
  branchNotTaken : ∀ flag expected, m.branchFlag = some (flag, expected) →
    flag cpu.status ≠ expected → next.pc.toNat = (cpu.pc.toNat + i.size) % 65536
  branchTaken : ∀ flag expected, m.branchFlag = some (flag, expected) →
    flag cpu.status = expected →
    (next.pc.toNat : Int) = (cpu.pc.toNat + 2 + cpu.displacement) % 65536
  jump : m = .jmp →
    i.mode = .absolute ∧ next.pc.toNat = littleEndian i.operands ∨
    i.mode = .indirect ∧ ∃ low high, i.operands = [low, high] ∧
      next.pc.toNat = cpu.cell (low.toNat + 256 * high.toNat) +
        256 * cpu.cell ((low.toNat + 1) % 256 + 256 * high.toNat)
  call : m = .jsr → next.pc.toNat = littleEndian i.operands
  callReturn : m = .rts →
    next.pc.toNat = (cpu.stackByte 1 + 256 * cpu.stackByte 2 + 1) % 65536
  interruptReturn : m = .rti →
    next.pc.toNat = cpu.stackByte 2 + 256 * cpu.stackByte 3
  interrupt : m = .brk → next.pc.toNat = cpu.cell 0xFFFE + 256 * cpu.cell 0xFFFF

theorem toNat_pc_sequential (cpu : Cpu Ram) {e : Encoding}
    (hsequential : e.mnemonic.setsCounter = false) :
    (cpu.perform e).2.pc.toNat = (cpu.pc.toNat + e.mode.length) % 65536 := by
  change (cpu.execute e.mode e.mnemonic.operation).2.pc.toNat = _
  rw [pc_execute_of_isSequential, AddressingMode.toNat_add_length]
  rw [Mnemonic.isSequential_operation, hsequential]
  rfl

theorem toNat_pc_branch (cpu : Cpu Ram) {e : Encoding} {flag : Status → Bool} {expected : Bool}
    (hdocumented : e ∈ Encoding.documented)
    (hflag : e.mnemonic.branchFlag = some (flag, expected)) :
    (flag cpu.status = expected → ((cpu.perform e).2.pc.toNat : Int) =
      (cpu.pc.toNat + 2 + cpu.displacement) % 65536) ∧
    (flag cpu.status ≠ expected → (cpu.perform e).2.pc.toNat =
      (cpu.pc.toNat + e.mode.length) % 65536) := by
  obtain ⟨hmode, -⟩ := Encoding.branch_entries e hdocumented (by rw [hflag]; rfl)
  change (_ → ((cpu.execute e.mode e.mnemonic.operation).2.pc.toNat : Int) = _) ∧
    (_ → (cpu.execute e.mode e.mnemonic.operation).2.pc.toNat = _)
  rw [hmode, execute_branch cpu hflag]
  constructor
  · intro htaken
    rw [if_pos htaken]
    change ((UInt16.ofNat _).toNat : Int) = _
    rw [UInt16.toNat_ofNat']
    omega
  · intro htaken
    rw [if_neg htaken]
    exact AddressingMode.toNat_add_length .relative cpu.pc

theorem toNat_pc_jump (cpu : Cpu Ram) {mode : AddressingMode} {address : Nat}
    (haddress : cpu.effectiveAddress mode = some address) :
    (cpu.execute mode .jump).2.pc.toNat = address := by
  have hbound := cpu.effectiveAddress_lt haddress
  rw [execute, cpu.resolve_of_effectiveAddress haddress]
  change (UInt16.ofNat address).toNat = address
  rw [UInt16.toNat_ofNat', Nat.mod_eq_of_lt hbound]

theorem toNat_pc_callReturn (cpu : Cpu Ram) :
    cpu.callReturn.pc.toNat = (cpu.stackByte 1 + 256 * cpu.stackByte 2 + 1) % 65536 := by
  change (cpu.pullWord.1 + 1).toNat = _
  rw [UInt16.toNat_add, toNat_pullWord]
  rfl

theorem toNat_pc_interruptReturn (cpu : Cpu Ram) :
    cpu.interruptReturn.pc.toNat = cpu.stackByte 2 + 256 * cpu.stackByte 3 := by
  change (cpu.pull.2.pullWord.1).toNat = _
  rw [toNat_pullWord, stackByte_pull, stackByte_pull]

/-- A documented instruction goes on where the law says. -/
theorem counterLaw_perform (cpu : Cpu Ram) {e : Encoding}
    (hlookup : Encoding.lookup cpu.opcode = some e) :
    CounterLaw cpu (cpu.perform e).2 (Instruction.decode cpu.memory cpu.pc) e.mnemonic := by
  obtain ⟨hdocumented, -⟩ := (Encoding.lookup_eq_some_iff cpu.opcode e).1 hlookup
  have hdecode := Instruction.decode_of_lookup hlookup
  have hmode : (Instruction.decode cpu.memory cpu.pc).mode = e.mode := by rw [hdecode]
  have hsize : (Instruction.decode cpu.memory cpu.pc).size = e.mode.length := by
    rw [Instruction.size, hmode]
  constructor
  case sequential =>
    intro hsequential
    rw [hsize]
    exact toNat_pc_sequential cpu hsequential
  case branchNotTaken =>
    intro flag expected hflag htaken
    rw [hsize]
    exact (toNat_pc_branch cpu hdocumented hflag).2 htaken
  case branchTaken =>
    intro flag expected hflag htaken
    exact (toNat_pc_branch cpu hdocumented hflag).1 htaken
  case jump =>
    intro hjump
    have hpc : ∀ address, cpu.effectiveAddress e.mode = some address →
        (cpu.perform e).2.pc.toNat = address := by
      intro address haddress
      change (cpu.execute e.mode e.mnemonic.operation).2.pc.toNat = address
      rw [hjump]
      exact toNat_pc_jump cpu haddress
    rw [hmode]
    rcases Encoding.jump_entries e hdocumented hjump with habsolute | hindirect
    · left
      rw [habsolute] at hpc
      refine ⟨habsolute, ?_⟩
      rw [hpc _ rfl, Instruction.littleEndian_operands_decode]
      rw [hmode, habsolute]
      rfl
    · right
      rw [hindirect] at hpc
      refine ⟨hindirect, _, _, Instruction.operands_decode _ _ (by rw [hmode, hindirect]; rfl), ?_⟩
      have hlow : (Bus.read cpu.memory (cpu.pc + 1)).toNat = cpu.cell (cpu.pc.toNat + 1) :=
        cpu.toNat_operandByte
      have hbound := cpu.cell_lt (cpu.pc.toNat + 1)
      rw [hpc _ rfl, hlow, toNat_operandHighByte, wordInPage, Nat.mod_eq_of_lt hbound,
        Nat.add_comm (256 * _), Nat.add_comm (256 * _)]
  case call =>
    intro hcall
    have habsolute := Encoding.call_entries e hdocumented hcall
    rw [Instruction.littleEndian_operands_decode cpu (by rw [hmode, habsolute]; rfl),
      ← toNat_operandWord]
    change (cpu.execute e.mode e.mnemonic.operation).2.pc.toNat = _
    rw [hcall]
    rfl
  case callReturn =>
    intro hreturn
    change (cpu.execute e.mode e.mnemonic.operation).2.pc.toNat = _
    rw [hreturn]
    exact toNat_pc_callReturn cpu
  case interruptReturn =>
    intro hreturn
    change (cpu.execute e.mode e.mnemonic.operation).2.pc.toNat = _
    rw [hreturn]
    exact toNat_pc_interruptReturn cpu
  case interrupt =>
    intro hinterrupt
    change (cpu.execute e.mode e.mnemonic.operation).2.pc.toNat = _
    rw [hinterrupt]
    exact toNat_pc_interrupt cpu

/-- A step fails exactly where decoding finds no mnemonic, and then a run of any
budget finds the processor as it was.  Otherwise it counts what the instruction costs
and goes on where the law says. -/
theorem step_counter_and_cycles (cpu : Cpu Ram) (hroom : cpu.cycles.toNat + 7 < 2 ^ 64) :
    let i := Instruction.decode cpu.memory cpu.pc
    let error : DecodeError := ⟨Bus.read cpu.memory cpu.pc, cpu.pc⟩
    (∀ e, cpu.step = .error e ↔ i.mnemonic = none ∧ e = error) ∧
    (i.mnemonic = none → ∀ budget : UInt64, 0 < budget →
      cpu.run budget = (cpu, .error error)) ∧
    ∀ m, i.mnemonic = some m → ∃ cost next, cpu.step = .ok (cost, next) ∧
      cost = i.cycles + cpu.extraCycles m i.mode ∧
      next.cycles.toNat = cpu.cycles.toNat + cost ∧
      CounterLaw cpu next i m := by
  refine ⟨cpu.step_eq_error_iff_mnemonic_decode, ?_, ?_⟩
  · intro hnone budget hbudget
    have hstep := (cpu.step_eq_error_iff_mnemonic_decode _).2 ⟨hnone, rfl⟩
    rw [run, runUntil_of_error (UInt64.lt_iff_toNat_lt.1 hbudget) hstep]
  · intro m hmnemonic
    obtain ⟨e, hdocumented, hlookup, rfl, hmode, hcycles, hstep⟩ :=
      step_of_mnemonic_decode hmnemonic
    have hcost := cost_perform cpu hdocumented
    obtain ⟨-, hseven⟩ := cost_perform_bounds cpu hdocumented
    refine ⟨_, _, hstep, ?_, ?_, counterLaw_perform cpu hlookup⟩
    · rw [hmode, hcycles, hcost]
    · rw [cycles_perform, UInt64.toNat_add, UInt64.toNat_ofNat']
      omega

/-- A call in page one whose return address goes over its own operand. -/
def selfOverwritingCall : Cpu Ram where
  pc := 0x01FD
  memory := Bus.load Ram.zeroed 0x01FD [0x20, 0x34, 0x12]

theorem step_selfOverwritingCall :
    selfOverwritingCall.cycles.toNat + 7 < 2 ^ 64 ∧
    ∃ cost next, selfOverwritingCall.step = .ok (cost, next) ∧
      cost = 6 ∧ next.cycles.toNat = 6 ∧ next.pc.toNat = 0x1234 := by
  have hroom : selfOverwritingCall.cycles.toNat + 7 < 2 ^ 64 := by decide
  have hdecode : Instruction.decode selfOverwritingCall.memory selfOverwritingCall.pc =
      ⟨0x01FD, 0x20, some .jsr, .absolute, [0x34, 0x12], 6⟩ := by decide +kernel
  obtain ⟨-, -, hdocumented⟩ := step_counter_and_cycles selfOverwritingCall hroom
  rw [hdecode] at hdocumented
  obtain ⟨cost, next, hstep, hcost, hcycles, hlaw⟩ := hdocumented .jsr rfl
  subst hcost
  exact ⟨hroom, _, next, hstep, rfl, hcycles, hlaw.call rfl⟩

end Cpu

end Nmos6502
