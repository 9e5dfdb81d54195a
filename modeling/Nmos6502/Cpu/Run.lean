import Nmos6502.Cpu.Step

/-!
# A run with a budget

A run executes instructions until they have used up a number of cycles, or until
one fails.  The last instruction is *not* cut short, so a run may take more cycles
than its budget.  A run that fails keeps what the steps before the failure did.

A budget may be worth billions of steps.  So a run is specialized to its bus, and what a step
does with an operand is inlined into it.
-/

namespace Nmos6502.Cpu

variable {M : Type} [Bus M]

/-- Executes instructions until `budget` cycles are used up, and tells the error
that ended the run early, if one did. -/
@[specialize] def runUntil (cpu : Cpu M) (budget : Nat) : Cpu M × Option DecodeError :=
  if hbudget : budget = 0 then (cpu, none)
  else
    match hstep : cpu.step with
    | .error e => (cpu, some e)
    | .ok (cost, next) =>
        have : budget - cost < budget := by
          have hcost := step_cost_bounds hstep
          omega
        next.runUntil (budget - cost)
termination_by budget

/-- Runs until `budget` cycles are used up, and tells the cycles counted, or the
error that ended the run early. -/
@[specialize] def run (cpu : Cpu M) (budget : UInt64) : Cpu M × Except DecodeError UInt64 :=
  match cpu.runUntil budget.toNat with
  | (final, none) => (final, .ok (final.cycles - cpu.cycles))
  | (final, some e) => (final, .error e)

@[simp] theorem runUntil_zero (cpu : Cpu M) : cpu.runUntil 0 = (cpu, none) := by
  rw [runUntil]
  simp

theorem runUntil_of_error {cpu : Cpu M} {budget : Nat} {e : DecodeError}
    (hbudget : 0 < budget) (hstep : cpu.step = .error e) :
    cpu.runUntil budget = (cpu, some e) := by
  rw [runUntil, dif_neg (by omega)]
  split
  · simp_all
  · simp_all

theorem runUntil_of_ok {cpu next : Cpu M} {budget cost : Nat}
    (hbudget : 0 < budget) (hstep : cpu.step = .ok (cost, next)) :
    cpu.runUntil budget = next.runUntil (budget - cost) := by
  rw [runUntil, dif_neg (by omega)]
  split
  · simp_all
  · simp_all

end Nmos6502.Cpu
