import Mathlib.Algebra.Group.Nat.Defs
import Nmos6502.Bus.Ram
import Nmos6502.Cpu.Run
import Nmos6502.Proofs.Cycles

/-!
# A run is a number of steps

A run with a budget takes the *least* number of steps that use it up, or stops before
the first step that fails.  The counter it goes by is the sum of the costs, so a run
may be cut in two: a second run with what is left of the budget goes on from where the
first one stopped, unless the first one failed or its last step used up everything.
-/

namespace Nmos6502.Cpu

variable {M : Type} [Bus M]

/-- Takes `k` steps, and tells what they cost together. -/
def steps (cpu : Cpu M) : Nat → Except DecodeError (Nat × Cpu M)
  | 0 => .ok (0, cpu)
  | k + 1 =>
      match cpu.step with
      | .error e => .error e
      | .ok (cost, next) =>
          match next.steps k with
          | .error e => .error e
          | .ok (spent, final) => .ok (cost + spent, final)

/-- The costs of the first `k` steps reach the budget, and no fewer steps do. -/
structure Reaches (cpu : Cpu M) (budget k n : Nat) (final : Cpu M) : Prop where
  taken : cpu.steps k = .ok (n, final)
  reached : budget ≤ n
  least : ∀ j < k, ∃ spent middle, cpu.steps j = .ok (spent, middle) ∧ spent < budget

/-- The first `k` steps leave a part of the budget, and the step after them fails. -/
structure Fails (cpu : Cpu M) (budget k n : Nat) (final : Cpu M) (e : DecodeError) :
    Prop where
  taken : cpu.steps k = .ok (n, final)
  short : n < budget
  failed : final.step = .error e

/-! ## Steps one by one -/

theorem steps_succ_of_ok {cpu next final : Cpu M} {k cost spent : Nat}
    (hstep : cpu.step = .ok (cost, next)) (hsteps : next.steps k = .ok (spent, final)) :
    cpu.steps (k + 1) = .ok (cost + spent, final) := by
  simp only [steps, hstep, hsteps]

/-- Steps that succeed begin with one that does. -/
theorem exists_step_of_steps_succ {cpu final : Cpu M} {k n : Nat}
    (hsteps : cpu.steps (k + 1) = .ok (n, final)) :
    ∃ cost next spent, cpu.step = .ok (cost, next) ∧
      next.steps k = .ok (spent, final) ∧ n = cost + spent := by
  rw [steps] at hsteps
  cases hstep : cpu.step with
  | error e =>
      rw [hstep] at hsteps
      cases hsteps
  | ok outcome =>
      obtain ⟨cost, next⟩ := outcome
      rw [hstep] at hsteps
      cases hrest : next.steps k with
      | error e =>
          simp only [hrest] at hsteps
          cases hsteps
      | ok rest =>
          obtain ⟨spent, last⟩ := rest
          simp only [hrest] at hsteps
          cases hsteps
          exact ⟨cost, next, spent, rfl, hrest, rfl⟩

theorem steps_of_succ {cpu next final : Cpu M} {k cost n : Nat}
    (hstep : cpu.step = .ok (cost, next)) (hsteps : cpu.steps (k + 1) = .ok (n, final)) :
    ∃ spent, next.steps k = .ok (spent, final) ∧ n = cost + spent := by
  obtain ⟨cost', next', spent, hstep', hrest, rfl⟩ := exists_step_of_steps_succ hsteps
  rw [hstep] at hstep'
  cases hstep'
  exact ⟨spent, hrest, rfl⟩

theorem cycles_step {cpu next : Cpu M} {cost : Nat} (hstep : cpu.step = .ok (cost, next)) :
    next.cycles = cpu.cycles + UInt64.ofNat cost := by
  obtain ⟨e, -, houtcome⟩ := (step_eq_ok_iff cpu (cost, next)).1 hstep
  have hperform := cycles_perform cpu e
  rw [← houtcome] at hperform
  exact hperform

/-- The counter goes up by what the steps cost together. -/
theorem cycles_steps {cpu final : Cpu M} {k n : Nat}
    (hsteps : cpu.steps k = .ok (n, final)) :
    final.cycles = cpu.cycles + UInt64.ofNat n := by
  induction k generalizing cpu n with
  | zero =>
      cases hsteps
      exact (UInt64.add_zero _).symm
  | succ k ih =>
      obtain ⟨cost, next, spent, hstep, hrest, rfl⟩ := exists_step_of_steps_succ hsteps
      rw [ih hrest, cycles_step hstep, UInt64.ofNat_add, UInt64.add_assoc]

theorem two_mul_le_of_steps {cpu final : Cpu M} {k n : Nat}
    (hsteps : cpu.steps k = .ok (n, final)) : 2 * k ≤ n := by
  induction k generalizing cpu n with
  | zero => exact Nat.zero_le n
  | succ k ih =>
      obtain ⟨cost, next, spent, hstep, hrest, rfl⟩ := exists_step_of_steps_succ hsteps
      have hrest := ih hrest
      obtain ⟨hcost, -⟩ := step_cost_bounds hstep
      omega

/-! ## The first step of a run -/

theorem Reaches.zero (cpu : Cpu M) : Reaches cpu 0 0 0 cpu where
  taken := rfl
  reached := Nat.le_refl 0
  least j hj := absurd hj (Nat.not_lt_zero j)

theorem Reaches.cons {cpu next final : Cpu M} {budget k cost n : Nat}
    (hbudget : 0 < budget) (hstep : cpu.step = .ok (cost, next))
    (hrest : Reaches next (budget - cost) k n final) :
    Reaches cpu budget (k + 1) (cost + n) final := by
  constructor
  · exact steps_succ_of_ok hstep hrest.taken
  · have hreached := hrest.reached
    omega
  · intro j hj
    cases j with
    | zero => exact ⟨0, cpu, rfl, hbudget⟩
    | succ j =>
        obtain ⟨spent, middle, hsteps, hspent⟩ := hrest.least j (by omega)
        exact ⟨cost + spent, middle, steps_succ_of_ok hstep hsteps, by omega⟩

/-- What is left of the budget after the first step is reached by the others. -/
theorem Reaches.uncons {cpu final : Cpu M} {budget k n : Nat}
    (hreaches : Reaches cpu budget (k + 1) n final) :
    ∃ cost next spent, 0 < budget ∧ cpu.step = .ok (cost, next) ∧ n = cost + spent ∧
      Reaches next (budget - cost) k spent final := by
  obtain ⟨cost, next, spent, hstep, hrest, rfl⟩ := exists_step_of_steps_succ hreaches.taken
  obtain ⟨_, _, _, hfirst⟩ := hreaches.least 0 (Nat.succ_pos k)
  have hbudget : 0 < budget := Nat.zero_lt_of_lt hfirst
  refine ⟨cost, next, spent, hbudget, hstep, rfl, hrest, ?_, ?_⟩
  · have hreached := hreaches.reached
    omega
  · intro j hj
    obtain ⟨n, middle, hsteps, hn⟩ := hreaches.least (j + 1) (by omega)
    obtain ⟨spent, hspent, rfl⟩ := steps_of_succ hstep hsteps
    exact ⟨spent, middle, hspent, by omega⟩

theorem Fails.cons {cpu next final : Cpu M} {budget k cost n : Nat} {e : DecodeError}
    (hstep : cpu.step = .ok (cost, next)) (hrest : Fails next (budget - cost) k n final e) :
    Fails cpu budget (k + 1) (cost + n) final e where
  taken := steps_succ_of_ok hstep hrest.taken
  short := by
    have hshort := hrest.short
    omega
  failed := hrest.failed

/-- Steps either use up a budget or fail before that. -/
theorem reaches_or_fails (cpu : Cpu M) (budget : Nat) :
    (∃ k n final, Reaches cpu budget k n final) ∨
      ∃ k n final e, Fails cpu budget k n final e := by
  -- What is left goes down with each step, since every step costs something.
  induction budget using Nat.strongRecOn generalizing cpu with
  | ind budget ih =>
      rcases Nat.eq_zero_or_pos budget with rfl | hbudget
      · exact .inl ⟨0, 0, cpu, Reaches.zero cpu⟩
      · cases hstep : cpu.step with
        | error e => exact .inr ⟨0, 0, cpu, e, rfl, hbudget, hstep⟩
        | ok outcome =>
            obtain ⟨cost, next⟩ := outcome
            obtain ⟨hcost, -⟩ := step_cost_bounds hstep
            rcases ih (budget - cost) (by omega) next with
              ⟨k, n, final, hreaches⟩ | ⟨k, n, final, e, hfails⟩
            · exact .inl ⟨k + 1, cost + n, final, hreaches.cons hbudget hstep⟩
            · exact .inr ⟨k + 1, cost + n, final, e, hfails.cons hstep⟩

/-! ## How far a run goes -/

theorem Reaches.count_le {cpu final : Cpu M} {budget k n : Nat}
    (hreaches : Reaches cpu budget k n final) : k ≤ (budget + 1) / 2 := by
  cases k with
  | zero => exact Nat.zero_le _
  | succ k =>
      obtain ⟨spent, middle, hsteps, hspent⟩ := hreaches.least k (Nat.lt_succ_self k)
      have htwo := two_mul_le_of_steps hsteps
      omega

theorem Fails.count_lt {cpu final : Cpu M} {budget k n : Nat} {e : DecodeError}
    (hfails : Fails cpu budget k n final e) : k + 1 ≤ (budget + 1) / 2 := by
  have htwo := two_mul_le_of_steps hfails.taken
  have hshort := hfails.short
  omega

theorem Reaches.eq_of_zero {cpu final : Cpu M} {k n : Nat}
    (hreaches : Reaches cpu 0 k n final) : n = 0 ∧ final = cpu := by
  have hcount := hreaches.count_le
  obtain rfl : k = 0 := by omega
  cases hreaches.taken
  exact ⟨rfl, rfl⟩

/-- Only the last step goes over the budget, by at most six cycles. -/
theorem Reaches.overshoot {cpu final : Cpu M} {budget k n : Nat}
    (hreaches : Reaches cpu budget k n final) : n ≤ budget + 6 := by
  induction k generalizing cpu budget n with
  | zero =>
      cases hreaches.taken
      exact Nat.zero_le _
  | succ k ih =>
      obtain ⟨cost, next, spent, hbudget, hstep, rfl, hrest⟩ := hreaches.uncons
      have hcost := step_cost_le_seven hstep
      rcases Nat.eq_zero_or_pos (budget - cost) with hzero | hleft
      · rw [hzero] at hrest
        obtain ⟨rfl, -⟩ := hrest.eq_of_zero
        omega
      · have hspent := ih hrest
        omega

/-! ## Steps after steps -/

/-- Steps that go on with what is left of a budget reach all of it. -/
theorem Reaches.append {cpu middle final : Cpu M} {first budget k n j m : Nat}
    (hreaches : Reaches cpu first k n middle) (hle : first ≤ budget)
    (hrest : Reaches middle (budget - n) j m final) :
    Reaches cpu budget (j + k) (n + m) final := by
  induction k generalizing cpu first budget n with
  | zero =>
      cases hreaches.taken
      rw [Nat.zero_add]
      exact hrest
  | succ k ih =>
      obtain ⟨cost, next, spent, hfirst, hstep, rfl, hnext⟩ := hreaches.uncons
      rw [← Nat.sub_sub] at hrest
      rw [Nat.add_assoc cost]
      exact (ih hnext (by omega) hrest).cons (by omega) hstep

theorem Reaches.append_fails {cpu middle final : Cpu M} {first budget k n j m : Nat}
    {e : DecodeError} (hreaches : Reaches cpu first k n middle) (hle : first ≤ budget)
    (hrest : Fails middle (budget - n) j m final e) :
    Fails cpu budget (j + k) (n + m) final e := by
  induction k generalizing cpu first budget n with
  | zero =>
      cases hreaches.taken
      rw [Nat.zero_add]
      exact hrest
  | succ k ih =>
      obtain ⟨cost, next, spent, -, hstep, rfl, hnext⟩ := hreaches.uncons
      rw [← Nat.sub_sub] at hrest
      rw [Nat.add_assoc cost]
      exact (ih hnext (by omega) hrest).cons hstep

theorem Fails.mono {cpu final : Cpu M} {first budget k n : Nat} {e : DecodeError}
    (hfails : Fails cpu first k n final e) (hle : first ≤ budget) :
    Fails cpu budget k n final e :=
  ⟨hfails.taken, Nat.lt_of_lt_of_le hfails.short hle, hfails.failed⟩

/-! ## Runs -/

theorem Reaches.runUntil_eq {cpu final : Cpu M} {budget k n : Nat}
    (hreaches : Reaches cpu budget k n final) : cpu.runUntil budget = (final, none) := by
  induction k generalizing cpu budget n with
  | zero =>
      have hreached := hreaches.reached
      cases hreaches.taken
      rw [Nat.le_zero.1 hreached, runUntil_zero]
  | succ k ih =>
      obtain ⟨cost, next, spent, hbudget, hstep, -, hrest⟩ := hreaches.uncons
      rw [runUntil_of_ok hbudget hstep]
      exact ih hrest

theorem Fails.runUntil_eq {cpu final : Cpu M} {budget k n : Nat} {e : DecodeError}
    (hfails : Fails cpu budget k n final e) : cpu.runUntil budget = (final, some e) := by
  obtain ⟨htaken, hshort, hfailed⟩ := hfails
  induction k generalizing cpu budget n with
  | zero =>
      cases htaken
      exact runUntil_of_error hshort hfailed
  | succ k ih =>
      obtain ⟨cost, next, spent, hstep, hrest, rfl⟩ := exists_step_of_steps_succ htaken
      rw [runUntil_of_ok (by omega) hstep]
      exact ih hrest (by omega)

/-- A run tells the sum of the costs, even if the counter wraps on the way. -/
theorem Reaches.run_eq {cpu final : Cpu M} {budget : UInt64} {k n : Nat}
    (hreaches : Reaches cpu budget.toNat k n final) :
    cpu.run budget = (final, .ok (UInt64.ofNat n)) := by
  rw [run, hreaches.runUntil_eq]
  change (final, Except.ok (final.cycles - cpu.cycles)) = _
  rw [cycles_steps hreaches.taken, UInt64.add_comm, UInt64.add_sub_cancel]

theorem Fails.run_eq {cpu final : Cpu M} {budget : UInt64} {k n : Nat} {e : DecodeError}
    (hfails : Fails cpu budget.toNat k n final e) :
    cpu.run budget = (final, .error e) := by
  rw [run, hfails.runUntil_eq]

/-- A run that succeeds takes steps that reach its budget. -/
theorem reaches_of_run_eq_ok {cpu final : Cpu M} {budget spent : UInt64}
    (hroom : budget.toNat + 6 < 2 ^ 64) (hrun : cpu.run budget = (final, .ok spent)) :
    ∃ k, Reaches cpu budget.toNat k spent.toNat final := by
  rcases reaches_or_fails cpu budget.toNat with
    ⟨k, n, last, hreaches⟩ | ⟨k, n, last, e, hfails⟩
  · rw [hreaches.run_eq] at hrun
    cases hrun
    have hover := hreaches.overshoot
    rw [UInt64.toNat_ofNat', Nat.mod_eq_of_lt (by omega)]
    exact ⟨k, hreaches⟩
  · rw [hfails.run_eq] at hrun
    cases hrun

theorem fails_of_run_eq_error {cpu final : Cpu M} {budget : UInt64} {e : DecodeError}
    (hrun : cpu.run budget = (final, .error e)) :
    ∃ k n, Fails cpu budget.toNat k n final e := by
  rcases reaches_or_fails cpu budget.toNat with
    ⟨k, n, last, hreaches⟩ | ⟨k, n, last, e', hfails⟩
  · rw [hreaches.run_eq] at hrun
    cases hrun
  · rw [hfails.run_eq] at hrun
    cases hrun
    exact ⟨k, n, hfails⟩

/-! ## Slices of a budget -/

/-- What a run with a budget does, told by a run with a part of it and a run with what
that one leaves. -/
structure Sliced (cpu : Cpu M) (first budget : UInt64) : Prop where
  failed : ∀ middle e, cpu.run first = (middle, .error e) →
    cpu.run budget = (middle, .error e)
  usedUp : ∀ middle spent, cpu.run first = (middle, .ok spent) → budget ≤ spent →
    cpu.run budget = (middle, .ok spent)
  resumed : ∀ middle spent final rest, cpu.run first = (middle, .ok spent) →
    spent < budget → middle.run (budget - spent) = (final, .ok rest) →
    cpu.run budget = (final, .ok (spent + rest)) ∧ spent.toNat + rest.toNat < 2 ^ 64
  resumedFailed : ∀ middle spent final e, cpu.run first = (middle, .ok spent) →
    spent < budget → middle.run (budget - spent) = (final, .error e) →
    cpu.run budget = (final, .error e)

theorem sliced (cpu : Cpu M) {first budget : UInt64} (hroom : budget.toNat + 6 < 2 ^ 64)
    (hle : first.toNat ≤ budget.toNat) : Sliced cpu first budget := by
  have hleft : ∀ spent, spent < budget →
      (budget - spent).toNat = budget.toNat - spent.toNat :=
    fun spent hspent => UInt64.toNat_sub_of_le _ _ (UInt64.le_of_lt hspent)
  constructor
  case failed =>
    intro middle e hrun
    obtain ⟨k, n, hfails⟩ := fails_of_run_eq_error hrun
    exact (hfails.mono hle).run_eq
  case usedUp =>
    intro middle spent hrun hspent
    obtain ⟨k, hreaches⟩ := reaches_of_run_eq_ok (by omega) hrun
    have hrest : Reaches middle (budget.toNat - spent.toNat) 0 0 middle := by
      rw [Nat.sub_eq_zero_of_le (UInt64.le_iff_toNat_le.1 hspent)]
      exact Reaches.zero middle
    rw [(hreaches.append hle hrest).run_eq, Nat.add_zero, UInt64.ofNat_toNat]
  case resumed =>
    intro middle spent final rest hrun hspent hresumed
    obtain ⟨k, hreaches⟩ := reaches_of_run_eq_ok (by omega) hrun
    have hrest := hleft spent hspent
    obtain ⟨j, hlast⟩ := reaches_of_run_eq_ok (by omega) hresumed
    rw [hrest] at hlast
    have hwhole := hreaches.append hle hlast
    have hover := hwhole.overshoot
    refine ⟨?_, by omega⟩
    rw [hwhole.run_eq, UInt64.ofNat_add, UInt64.ofNat_toNat, UInt64.ofNat_toNat]
  case resumedFailed =>
    intro middle spent final e hrun hspent hresumed
    obtain ⟨k, hreaches⟩ := reaches_of_run_eq_ok (by omega) hrun
    obtain ⟨j, n, hlast⟩ := fails_of_run_eq_error hresumed
    rw [hleft spent hspent] at hlast
    exact (hreaches.append_fails hle hlast).run_eq

/-- A run takes the least number of steps that use up its budget, or stops where one
fails, and it may be cut in two wherever one likes. -/
theorem run_iterates_step (cpu : Cpu M) (budget : UInt64)
    (hroom : cpu.cycles.toNat + budget.toNat + 6 ≤ 2 ^ 64 - 1) :
    ((∃ k n final, k ≤ (budget.toNat + 1) / 2 ∧ Reaches cpu budget.toNat k n final) ∨
      ∃ k n final e, k + 1 ≤ (budget.toNat + 1) / 2 ∧
        Fails cpu budget.toNat k n final e) ∧
    (∀ k n final, Reaches cpu budget.toNat k n final →
      cpu.run budget = (final, .ok (UInt64.ofNat n)) ∧ n < 2 ^ 64 ∧
      final.cycles.toNat = cpu.cycles.toNat + n ∧
      budget.toNat ≤ n ∧ n ≤ budget.toNat + 6 ∧ (budget = 0 → n = 0 ∧ final = cpu)) ∧
    (∀ k n final e, Fails cpu budget.toNat k n final e →
      cpu.run budget = (final, .error e) ∧
      final.cycles.toNat = cpu.cycles.toNat + n) ∧
    ∀ first second : UInt64, first.toNat + second.toNat = budget.toNat →
      Sliced cpu first budget := by
  have hcounter : ∀ k n (final : Cpu M), cpu.steps k = .ok (n, final) →
      n ≤ budget.toNat + 6 → final.cycles.toNat = cpu.cycles.toNat + n := by
    intro k n final hsteps hn
    rw [cycles_steps hsteps, UInt64.toNat_add, UInt64.toNat_ofNat']
    omega
  refine ⟨?_, ?_, ?_, ?_⟩
  · rcases reaches_or_fails cpu budget.toNat with
      ⟨k, n, final, hreaches⟩ | ⟨k, n, final, e, hfails⟩
    · exact .inl ⟨k, n, final, hreaches.count_le, hreaches⟩
    · exact .inr ⟨k, n, final, e, hfails.count_lt, hfails⟩
  · intro k n final hreaches
    have hover := hreaches.overshoot
    refine ⟨hreaches.run_eq, by omega, hcounter k n final hreaches.taken hover,
      hreaches.reached, hover, ?_⟩
    rintro rfl
    exact hreaches.eq_of_zero
  · intro k n final e hfails
    have hshort := hfails.short
    exact ⟨hfails.run_eq, hcounter k n final hfails.taken (by omega)⟩
  · intro first second hsum
    exact sliced cpu (by omega) (by omega)

/-- A program of one instruction, with an undocumented opcode behind it. -/
def shortProgram : Cpu Ram where
  pc := 0x8000
  memory := Bus.load Ram.zeroed 0x8000 [0xEA, 0x02]

theorem run_shortProgram :
    shortProgram.cycles.toNat + (100 : UInt64).toNat + 6 ≤ 2 ^ 64 - 1 ∧
    ∃ final, shortProgram.run 100 = (final, .error ⟨0x02, 0x8001⟩) ∧
      final.cycles.toNat = 2 := by
  have hroom : shortProgram.cycles.toNat + (100 : UInt64).toNat + 6 ≤ 2 ^ 64 - 1 := by
    decide
  let nop : Encoding := ⟨0xEA, .nop, .implicit, 2⟩
  have hstep : shortProgram.step = .ok (2, (shortProgram.perform nop).2) := by
    rw [step_of_lookup (show Encoding.lookup shortProgram.opcode = some nop by decide +kernel)]
    rfl
  have hfailed : (shortProgram.perform nop).2.step = .error ⟨0x02, 0x8001⟩ :=
    (step_eq_error_iff _ _).2 (by decide +kernel)
  have htaken : shortProgram.steps (0 + 1) = .ok (2 + 0, (shortProgram.perform nop).2) :=
    steps_succ_of_ok hstep rfl
  obtain ⟨-, -, hrun, -⟩ := run_iterates_step shortProgram 100 hroom
  obtain ⟨hresult, hcycles⟩ := hrun 1 2 _ _ ⟨htaken, by decide, hfailed⟩
  exact ⟨hroom, _, hresult, hcycles⟩

end Nmos6502.Cpu
