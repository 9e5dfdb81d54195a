import Nmos6502.Cpu.Step
import Nmos6502.Proofs.Addressing

/-!
# What an instruction costs

The table gives each opcode its cycles.  Two kinds of instruction may take more: one
that reads its operand pays a cycle for a crossed page, and a branch pays one for
being taken and one more for leaving the page of the next instruction.  Stores and
read-modify-write instructions do *not* pay, since their entries are dear enough.
`cost_perform` is the exact cost, and `step_cost_le_seven` the bound that it leads to.
-/

namespace Nmos6502

namespace Mnemonic

/-- The flag that a branch tests, and the value for which it is taken. -/
def branchFlag : Mnemonic → Option ((Status → Bool) × Bool)
  | .bpl => some (Status.negative, false)
  | .bmi => some (Status.negative, true)
  | .bvc => some (Status.overflow, false)
  | .bvs => some (Status.overflow, true)
  | .bcc => some (Status.carry, false)
  | .bcs => some (Status.carry, true)
  | .bne => some (Status.zero, false)
  | .beq => some (Status.zero, true)
  | _ => none

/-- Whether the instruction reads its operand and does not write it back. -/
def readsOperand : Mnemonic → Bool
  | .lda | .ldx | .ldy => true
  | .adc | .sbc | .and | .ora | .eor | .bit => true
  | .cmp | .cpx | .cpy => true
  | _ => false

theorem operation_of_branchFlag {m : Mnemonic} {flag : Status → Bool} {expected : Bool}
    (hflag : m.branchFlag = some (flag, expected)) :
    ∃ taken, m.operation = .branch taken ∧
      ∀ status, taken status = (flag status == expected) := by
  cases m with
  | bpl | bmi | bvc | bvs | bcc | bcs | bne | beq =>
      cases hflag
      exact ⟨_, rfl, fun status => by simp⟩
  | _ => cases hflag

theorem operation_of_readsOperand {m : Mnemonic} (hreads : m.readsOperand = true) :
    ∃ use, m.operation = .read use := by
  cases m with
  | lda | ldx | ldy | adc | sbc | and | ora | eor | bit | cmp | cpx | cpy => exact ⟨_, rfl⟩
  | _ => cases hreads

end Mnemonic

namespace Encoding

theorem branch_entries : ∀ e ∈ documented, e.mnemonic.branchFlag.isSome = true →
    e.mode = .relative ∧ e.cycles = 2 := by
  decide +kernel

theorem read_entries : ∀ e ∈ documented, e.mnemonic.readsOperand = true →
    e.cycles ≤ 6 := by
  decide +kernel

end Encoding

namespace Cpu

variable {M : Type} [Bus M]

/-- The cycles that an instruction takes beyond those of its entry. -/
def extraCycles (cpu : Cpu M) (m : Mnemonic) (mode : AddressingMode) : Nat :=
  match m.branchFlag with
  | some (flag, expected) =>
      if flag cpu.status = expected then 1 + (cpu.crossesIntoPage mode).toNat else 0
  | none => if m.readsOperand then (cpu.crossesIntoPage mode).toNat else 0

theorem cycles_writeOperand (cpu : Cpu M) (value : Byte) (operand : Operand) :
    (cpu.writeOperand value operand).cycles = cpu.cycles := by
  cases operand <;> rfl

/-- Carrying out an operation counts no cycles; the step does that. -/
theorem cycles_execute (cpu : Cpu M) (mode : AddressingMode) (op : Operation) :
    (cpu.execute mode op).2.cycles = cpu.cycles := by
  cases op with
  | read | internal | push | pull | call | callReturn | interrupt | interruptReturn => rfl
  | store value => exact cycles_writeOperand ..
  | modify change_ => exact cycles_writeOperand ..
  | branch taken =>
      simp only [execute]
      split <;> rfl
  | jump =>
      simp only [execute]
      split <;> rfl

/-- The counter goes up by the cost of the instruction. -/
theorem cycles_perform (cpu : Cpu M) (e : Encoding) :
    (cpu.perform e).2.cycles = cpu.cycles + UInt64.ofNat (cpu.perform e).1 := by
  change (cpu.execute e.mode e.mnemonic.operation).2.cycles + UInt64.ofNat _ = _
  rw [cycles_execute]
  rfl

/-- A branch goes to its effective address if the flag has the expected value. -/
theorem execute_branch (cpu : Cpu M) {m : Mnemonic} {flag : Status → Bool} {expected : Bool}
    (hflag : m.branchFlag = some (flag, expected)) :
    cpu.execute .relative m.operation =
      if flag cpu.status = expected then
        (1 + (cpu.crossesIntoPage .relative).toNat,
          { cpu with pc := UInt16.ofNat ((cpu.pc.toNat + 2 + cpu.displacement) % 65536).toNat })
      else (0, cpu.advance .relative) := by
  obtain ⟨taken, hoperation, htaken⟩ := Mnemonic.operation_of_branchFlag hflag
  have hresolve := cpu.resolve_of_effectiveAddress
    (show cpu.effectiveAddress .relative = some _ from rfl)
  rw [hoperation, execute, htaken, hresolve]
  by_cases h : flag cpu.status = expected
  · rw [if_pos h, beq_iff_eq.2 h]
  · rw [if_neg h, beq_eq_false_iff_ne.2 h]

theorem fst_execute_of_branchFlag_eq_none (cpu : Cpu M) {m : Mnemonic} (mode : AddressingMode)
    (hflag : m.branchFlag = none) :
    (cpu.execute mode m.operation).1 = cpu.extraCycles m mode := by
  rw [extraCycles, hflag]
  cases hreads : m.readsOperand with
  | true =>
      obtain ⟨use, hoperation⟩ := Mnemonic.operation_of_readsOperand hreads
      rw [hoperation]
      exact cpu.penalty_resolve mode
  | false =>
      cases m with
      | bpl | bmi | bvc | bvs | bcc | bcs | bne | beq => cases hflag
      | lda | ldx | ldy | adc | sbc | and | ora | eor | bit | cmp | cpx | cpy => cases hreads
      | jmp =>
          simp only [Mnemonic.operation, execute]
          split <;> rfl
      | _ => rfl

/-- The exact cost of a documented instruction. -/
theorem cost_perform (cpu : Cpu M) {e : Encoding} (hdocumented : e ∈ Encoding.documented) :
    (cpu.perform e).1 = e.cycles + cpu.extraCycles e.mnemonic e.mode := by
  change e.cycles + (cpu.execute e.mode e.mnemonic.operation).1 = _
  congr 1
  cases hflag : e.mnemonic.branchFlag with
  | none => exact cpu.fst_execute_of_branchFlag_eq_none e.mode hflag
  | some test =>
      obtain ⟨flag, expected⟩ := test
      obtain ⟨hmode, -⟩ := Encoding.branch_entries e hdocumented (by rw [hflag]; rfl)
      rw [hmode, execute_branch cpu hflag, extraCycles, hflag]
      by_cases htaken : flag cpu.status = expected
      · simp only [if_pos htaken]
      · simp only [if_neg htaken]

theorem cost_perform_bounds (cpu : Cpu M) {e : Encoding}
    (hdocumented : e ∈ Encoding.documented) :
    2 ≤ (cpu.perform e).1 ∧ (cpu.perform e).1 ≤ 7 := by
  obtain ⟨hlower, hupper⟩ := Encoding.cycles_bounds e hdocumented
  have hcross := Bool.toNat_le (cpu.crossesIntoPage e.mode)
  rw [cost_perform cpu hdocumented, extraCycles]
  cases hflag : e.mnemonic.branchFlag with
  | some test =>
      obtain ⟨-, hcycles⟩ := Encoding.branch_entries e hdocumented (by rw [hflag]; rfl)
      obtain ⟨flag, expected⟩ := test
      simp only
      split <;> omega
  | none =>
      simp only
      split
      · rename_i hreads
        have hcycles := Encoding.read_entries e hdocumented hreads
        omega
      · omega

theorem step_of_lookup {cpu : Cpu M} {e : Encoding}
    (hlookup : Encoding.lookup cpu.opcode = some e) : cpu.step = .ok (cpu.perform e) := by
  rw [step, hlookup]

theorem step_cost_le_seven {cpu next : Cpu M} {cost : Nat}
    (hstep : cpu.step = .ok (cost, next)) : cost ≤ 7 := by
  obtain ⟨e, hlookup, houtcome⟩ := (step_eq_ok_iff cpu (cost, next)).1 hstep
  have hdocumented := ((Encoding.lookup_eq_some_iff cpu.opcode e).1 hlookup).1
  have hcost : cost = (cpu.perform e).1 := congrArg Prod.fst houtcome
  rw [hcost]
  exact (cost_perform_bounds cpu hdocumented).2

end Cpu

end Nmos6502
