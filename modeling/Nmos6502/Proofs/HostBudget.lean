import Nmos6502.Proofs.Interchange

/-!
# Budgets of 32 bits

A machine tells its host in 32 bits how many cycles a run has taken.  The budget has 32 bits,
too, but a run may go over it by up to six cycles, and so the count need *not* fit.  Of a run
that takes `2 ^ 32` cycles or more, the host is told what is beyond `2 ^ 32`: fewer than six
cycles, and fewer than it asked for.

Only the six greatest budgets can lead to that.  What a run *does* is right in any case, and a
fault is told as it is.
-/

namespace Nmos6502

/-! ## Steps that cost the same -/

namespace Cpu

variable {M : Type} [Bus M] {P : Cpu M → Prop} {cost : Nat}

/-- Steps that all cost the same cost as many times that together. -/
theorem exists_steps_of_constant_cost
    (hstep : ∀ cpu, P cpu → ∃ next, cpu.step = .ok (cost, next) ∧ P next)
    {cpu : Cpu M} (hcpu : P cpu) (k : Nat) :
    ∃ final, cpu.steps k = .ok (cost * k, final) ∧ P final := by
  induction k generalizing cpu with
  | zero => exact ⟨cpu, rfl, hcpu⟩
  | succ k ih =>
      obtain ⟨next, hfirst, hnext⟩ := hstep cpu hcpu
      obtain ⟨final, hrest, hfinal⟩ := ih hnext
      refine ⟨final, ?_, hfinal⟩
      rw [Nat.mul_succ, Nat.add_comm (cost * k)]
      exact steps_succ_of_ok hfirst hrest

theorem exists_reaches_of_constant_cost
    (hstep : ∀ cpu, P cpu → ∃ next, cpu.step = .ok (cost, next) ∧ P next)
    {cpu : Cpu M} (hcpu : P cpu) {budget k : Nat} (hreached : budget ≤ cost * k)
    (hleast : ∀ j < k, cost * j < budget) :
    ∃ final, Reaches cpu budget k (cost * k) final := by
  obtain ⟨final, htaken, -⟩ := exists_steps_of_constant_cost hstep hcpu k
  refine ⟨final, htaken, hreached, ?_⟩
  intro j hj
  obtain ⟨middle, hsteps, -⟩ := exists_steps_of_constant_cost hstep hcpu j
  exact ⟨cost * j, middle, hsteps, hleast j hj⟩

/-- Where every byte is the opcode of a load through an indexed pointer, the processor loads
that byte again and again, for six cycles each. -/
theorem exists_step_of_all_loads (cpu : Cpu M) (hmemory : ∀ a, Bus.read cpu.memory a = 0xA1) :
    ∃ next, cpu.step = .ok (6, next) ∧ ∀ a, Bus.read next.memory a = 0xA1 := by
  let load : Encoding := ⟨0xA1, .lda, .indirectX, 6⟩
  have hlookup : Encoding.lookup cpu.opcode = some load := by
    rw [opcode, hmemory]
    decide +kernel
  have hstep : cpu.step = .ok (6, (cpu.perform load).2) := step_of_lookup hlookup
  exact ⟨(cpu.perform load).2, hstep, hmemory⟩

end Cpu

namespace Machine

/-! ## What a host is told of a run -/

/-- A run that succeeds uses up its budget, by at most six cycles too many, and the host is
told the lowest 32 bits of what it used up. -/
theorem exists_elapsed_of_run_eq_ok {machine final : Machine} {budget n : UInt32}
    (hroom : machine.cpu.cycles.toNat + 2 ^ 32 + 6 < 2 ^ 64)
    (hrun : machine.run budget = (final, .ok n)) :
    ∃ elapsed, final.cpu.cycles.toNat = machine.cpu.cycles.toNat + elapsed ∧
      budget.toNat ≤ elapsed ∧ elapsed ≤ budget.toNat + 6 ∧ n.toNat = elapsed % 2 ^ 32 := by
  have hbudget := budget.toNat_lt
  have hwide : budget.toUInt64.toNat = budget.toNat := UInt32.toNat_toUInt64 budget
  rw [run] at hrun
  rcases hcpu : machine.cpu.run budget.toUInt64 with ⟨last, result⟩
  rw [hcpu] at hrun
  cases result with
  | error e => cases hrun
  | ok spent =>
      cases hrun
      obtain ⟨k, hreaches⟩ := Cpu.reaches_of_run_eq_ok (by omega) hcpu
      rw [hwide] at hreaches
      have hover := hreaches.overshoot
      refine ⟨spent.toNat, ?_, hreaches.reached, hover, UInt64.toNat_toUInt32 spent⟩
      rw [Cpu.cycles_steps hreaches.taken, UInt64.toNat_add, UInt64.ofNat_toNat]
      omega

/-- The fault of a run is that of the processor's run, which also leaves the state. -/
theorem exists_error_of_run_eq_error {machine final : Machine} {budget : UInt32} {fault : Fault}
    (hrun : machine.run budget = (final, .error fault)) :
    ∃ e, machine.cpu.run budget.toUInt64 = (final.cpu, .error e) ∧ fault = .decode e := by
  rw [run] at hrun
  rcases hcpu : machine.cpu.run budget.toUInt64 with ⟨last, result⟩
  rw [hcpu] at hrun
  cases result with
  | ok spent => cases hrun
  | error e =>
      cases hrun
      exact ⟨e, rfl, rfl⟩

/-- The host is told the elapsed cycles if they fit in 32 bits.  If they do not, it is told what
is beyond `2 ^ 32`, and that is less than the budget. -/
theorem run_reports_low_bits (machine : Machine) (budget : UInt32)
    (hroom : machine.cpu.cycles.toNat + 2 ^ 32 + 6 < 2 ^ 64) :
    (∀ final n, machine.run budget = (final, .ok n) →
      ∃ elapsed, final.cpu.cycles.toNat = machine.cpu.cycles.toNat + elapsed ∧
        budget.toNat ≤ elapsed ∧ elapsed ≤ budget.toNat + 6 ∧
        (elapsed < 2 ^ 32 → n.toNat = elapsed ∧ budget ≤ n) ∧
        (2 ^ 32 ≤ elapsed → n.toNat + 2 ^ 32 = elapsed ∧ n.toNat < 6 ∧ n < budget)) ∧
    ∀ final fault, machine.run budget = (final, .error fault) →
      ∃ e, machine.cpu.run budget.toUInt64 = (final.cpu, .error e) ∧
        fault.message = e.message := by
  constructor
  · intro final n hrun
    have hbudget := budget.toNat_lt
    obtain ⟨elapsed, hcycles, hreached, hover, htold⟩ := exists_elapsed_of_run_eq_ok hroom hrun
    refine ⟨elapsed, hcycles, hreached, hover, ?_, ?_⟩
    · intro hfits
      rw [Nat.mod_eq_of_lt hfits] at htold
      exact ⟨htold, UInt32.le_iff_toNat_le.2 (by omega)⟩
    · intro hbeyond
      have htold : n.toNat + 2 ^ 32 = elapsed := by omega
      exact ⟨htold, by omega, UInt32.lt_iff_toNat_lt.2 (by omega)⟩
  · intro final fault hrun
    obtain ⟨e, hcpu, rfl⟩ := exists_error_of_run_eq_error hrun
    exact ⟨e, hcpu, rfl⟩

/-! ## A run that is told wrong -/

/-- A machine that executes loads of six cycles wherever it is. -/
def sixCycleLoads : Machine := ⟨(boot 0).cpu.fill 0 65536 0xA1⟩

theorem read_sixCycleLoads (a : Word) : Bus.read sixCycleLoads.cpu.memory a = 0xA1 := by
  simp only [sixCycleLoads, Cpu.fill]
  rw [Bus.read_fill Ram.read_write _ 0 a (Nat.le_refl 65536), if_pos (UInt16.toNat_lt _)]

/-- The number of loads is the budget divided by six, rounded up. -/
theorem exists_run_sixCycleLoads (budget : UInt32) {k : Nat} (hreached : budget.toNat ≤ 6 * k)
    (hleast : 6 * k < budget.toNat + 6) :
    ∃ final, sixCycleLoads.run budget = (final, .ok (UInt64.ofNat (6 * k)).toUInt32) ∧
      final.cpu.cycles = UInt64.ofNat (6 * k) := by
  rw [← UInt32.toNat_toUInt64 budget] at hreached hleast
  have hfewer : ∀ j < k, 6 * j < budget.toUInt64.toNat := by
    intro j hj
    omega
  obtain ⟨last, hreaches⟩ := Cpu.exists_reaches_of_constant_cost
    (P := fun cpu => ∀ a, Bus.read cpu.memory a = 0xA1) Cpu.exists_step_of_all_loads
    read_sixCycleLoads hreached hfewer
  refine ⟨⟨last⟩, ?_, ?_⟩
  · rw [run, hreaches.run_eq]
  · have hcycles := Cpu.cycles_steps hreaches.taken
    rw [show sixCycleLoads.cpu.cycles = 0 from rfl, UInt64.zero_add] at hcycles
    exact hcycles

theorem run_twoLoads :
    sixCycleLoads.cpu.cycles.toNat + 2 ^ 32 + 6 < 2 ^ 64 ∧
    ∃ final, sixCycleLoads.run 7 = (final, .ok 12) ∧ final.cpu.cycles.toNat = 12 := by
  have hcycles : sixCycleLoads.cpu.cycles.toNat = 0 := rfl
  have hroom : sixCycleLoads.cpu.cycles.toNat + 2 ^ 32 + 6 < 2 ^ 64 := by omega
  obtain ⟨final, hrun, -⟩ := exists_run_sixCycleLoads 7 (k := 2) (by decide) (by decide)
  obtain ⟨hreports, -⟩ := run_reports_low_bits sixCycleLoads 7 hroom
  obtain ⟨elapsed, hfinal, -, hover, hfits, -⟩ := hreports final 12 hrun
  have hbudget : (7 : UInt32).toNat = 7 := rfl
  obtain ⟨htold, -⟩ := hfits (by omega)
  refine ⟨hroom, final, hrun, ?_⟩
  rw [hfinal, hcycles, ← htold]
  rfl

/-- With the greatest budget there is, the loads take two cycles more than fit in 32 bits, and
two is what the host is told. -/
theorem run_sixCycleLoads :
    sixCycleLoads.cpu.cycles.toNat + 2 ^ 32 + 6 < 2 ^ 64 ∧
    ∃ final, sixCycleLoads.run 0xFFFFFFFF = (final, .ok 2) ∧
      final.cpu.cycles.toNat - sixCycleLoads.cpu.cycles.toNat = 4294967298 := by
  have hcycles : sixCycleLoads.cpu.cycles.toNat = 0 := rfl
  have hbudget : (0xFFFFFFFF : UInt32).toNat = 4294967295 := rfl
  obtain ⟨final, hrun, hfinal⟩ :=
    exists_run_sixCycleLoads 0xFFFFFFFF (k := 715827883) (by omega) (by omega)
  refine ⟨by omega, final, hrun, ?_⟩
  rw [hfinal, hcycles]
  rfl

end Machine

end Nmos6502
