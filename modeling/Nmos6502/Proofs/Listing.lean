import Mathlib.Algebra.BigOperators.Group.List.Basic
import Mathlib.Algebra.Ring.Nat
import Nmos6502.Proofs.Budget
import Nmos6502.Proofs.Counter

/-!
# Straight-line code

A listing is made by reading alone, before anything is executed.  If its instructions
all go on behind themselves, execution comes past each of them in turn: its bytes are
what decoding and execution both go by, so it is enough that they are still in memory
when their turn comes.  What was executed already may be overwritten, and the code may
run around the end of the address space; the exact costs are *not* in the listing, since
indexing may cross a page.
-/

namespace Nmos6502

/-- The modes in which reading the operand may cross a page. -/
def AddressingMode.mayCrossPage : AddressingMode → Bool
  | .absoluteX | .absoluteY | .indirectY => true
  | _ => false

theorem Encoding.sequential_entries : ∀ e ∈ documented, e.mnemonic.setsCounter = false →
    e.mode ≠ .relative := by
  decide +kernel

theorem Mnemonic.branchFlag_eq_none {m : Mnemonic} (hsequential : m.setsCounter = false) :
    m.branchFlag = none := by
  cases m with
  | bpl | bmi | bvc | bvs | bcc | bcs | bne | beq => cases hsequential
  | _ => rfl

namespace Instruction

section Decode

variable {M : Type} [Bus M]

/-- The instruction is documented and goes on to the one behind it. -/
def fallsThrough (i : Instruction) : Bool :=
  match i.mnemonic with
  | some m => !m.setsCounter
  | none => false

/-- The bytes of the instruction are in memory at its address. -/
def IsIn (i : Instruction) (m : M) : Prop := Bus.readBytes m i.address i.size = i.bytes

instance (i : Instruction) (m : M) : Decidable (i.IsIn m) :=
  inferInstanceAs (Decidable (Bus.readBytes m i.address i.size = i.bytes))

theorem exists_of_fallsThrough {i : Instruction} (hfalls : i.fallsThrough = true) :
    ∃ m, i.mnemonic = some m ∧ m.setsCounter = false := by
  rw [fallsThrough] at hfalls
  cases hmnemonic : i.mnemonic with
  | none =>
      rw [hmnemonic] at hfalls
      cases hfalls
  | some m =>
      rw [hmnemonic] at hfalls
      exact ⟨m, rfl, by simpa using hfalls⟩

/-- Decoding is reading the bytes and nothing else: where the bytes of a decoded
instruction are, the same instruction is decoded. -/
theorem decode_of_isIn {N : Type} [Bus N] {m : M} {n : N} {address : Word}
    (hin : (decode m address).IsIn n) : decode n address = decode m address := by
  have hread : Bus.readBytes n address (decode m address).size = (decode m address).bytes := by
    rw [IsIn, address_decode] at hin
    exact hin
  rw [size, AddressingMode.length, Nat.add_comm, bytes, Bus.readBytes, opcode_decode] at hread
  obtain ⟨hopcode, hoperands⟩ := List.cons.inj hread
  cases hlookup : Encoding.lookup (Bus.read m address) with
  | none => simp only [decode, hopcode, hlookup]
  | some e =>
      have hlookup' : Encoding.lookup (Bus.read n address) = some e := by rw [hopcode, hlookup]
      rw [decode_of_lookup hlookup] at hoperands ⊢
      rw [decode_of_lookup hlookup', hopcode]
      exact congrArg (fun bytes => Instruction.mk address _ _ _ bytes _) hoperands

/-! ## The entries of a listing -/

/-- The address behind the given number of instructions. -/
def behind (m : M) (address : Word) : Nat → Word
  | 0 => address
  | count + 1 => behind m (decode m address).nextAddress count

theorem behind_succ (m : M) (address : Word) (count : Nat) :
    behind m address (count + 1) = (decode m (behind m address count)).nextAddress := by
  induction count generalizing address with
  | zero => rfl
  | succ count ih => exact ih (decode m address).nextAddress

theorem getElem?_listing (m : M) (address : Word) {count k : Nat} (hk : k < count) :
    (listing m address count)[k]? = some (decode m (behind m address k)) := by
  induction count generalizing address k with
  | zero => cases hk
  | succ count ih =>
      cases k with
      | zero => rfl
      | succ k =>
          rw [listing, List.getElem?_cons_succ, ih _ (Nat.lt_of_succ_lt_succ hk)]
          rfl

/-- A longer listing begins with the shorter one. -/
theorem listing_succ (m : M) (address : Word) (count : Nat) :
    listing m address (count + 1) =
      listing m address count ++ [decode m (behind m address count)] := by
  induction count generalizing address with
  | zero => rfl
  | succ count ih =>
      rw [listing, ih]
      rfl

theorem toNat_nextAddress (i : Instruction) :
    i.nextAddress.toNat = (i.address.toNat + i.size) % 65536 :=
  AddressingMode.toNat_add_length i.mode i.address

/-- The sizes of the entries add up, around the end of the address space if need be. -/
theorem toNat_behind (m : M) (address : Word) (count : Nat) :
    (behind m address count).toNat =
      (address.toNat + ((listing m address count).map size).sum) % 65536 := by
  induction count with
  | zero => exact (Nat.mod_eq_of_lt address.toNat_lt).symm
  | succ count ih =>
      rw [behind_succ, toNat_nextAddress, address_decode, ih, listing_succ, List.map_append,
        List.sum_append]
      simp [Nat.add_assoc]

end Decode

end Instruction

namespace Cpu

variable {M : Type} [Bus M]

/-! ## One instruction -/

theorem pc_perform_of_sequential (cpu : Cpu M) {e : Encoding}
    (hsequential : e.mnemonic.setsCounter = false) :
    (cpu.perform e).2.pc = cpu.pc + UInt16.ofNat e.mode.length := by
  change (cpu.execute e.mode e.mnemonic.operation).2.pc = _
  rw [pc_execute_of_isSequential]
  rw [Mnemonic.isSequential_operation, hsequential]
  rfl

theorem crossesIntoPage_le (cpu : Cpu M) {mode : AddressingMode} (hmode : mode ≠ .relative) :
    (cpu.crossesIntoPage mode).toNat ≤ mode.mayCrossPage.toNat := by
  cases mode with
  | relative => exact absurd rfl hmode
  | absoluteX | absoluteY | indirectY => exact Bool.toNat_le _
  | _ => exact Nat.le_refl 0

/-- A sequential instruction pays for at most one crossed page. -/
theorem extraCycles_le_of_sequential (cpu : Cpu M) {e : Encoding}
    (hdocumented : e ∈ Encoding.documented) (hsequential : e.mnemonic.setsCounter = false) :
    cpu.extraCycles e.mnemonic e.mode ≤ e.mode.mayCrossPage.toNat := by
  have hcross :=
    cpu.crossesIntoPage_le (Encoding.sequential_entries e hdocumented hsequential)
  rw [extraCycles, Mnemonic.branchFlag_eq_none hsequential]
  simp only
  split
  · exact hcross
  · exact Nat.zero_le _

/-- Where an instruction is decoded that goes on behind itself, a step does so, at the
listed cost and at most one cycle more. -/
theorem step_of_fallsThrough {cpu : Cpu M}
    (hfalls : (Instruction.decode cpu.memory cpu.pc).fallsThrough = true) :
    let i := Instruction.decode cpu.memory cpu.pc
    ∃ cost next, cpu.step = .ok (cost, next) ∧ next.pc = i.nextAddress ∧
      i.cycles ≤ cost ∧ cost ≤ i.cycles + i.mode.mayCrossPage.toNat := by
  obtain ⟨m, hmnemonic, hsequential⟩ := Instruction.exists_of_fallsThrough hfalls
  obtain ⟨e, hdocumented, -, rfl, hmode, hcycles, hstep⟩ := step_of_mnemonic_decode hmnemonic
  have hextra := cpu.extraCycles_le_of_sequential hdocumented hsequential
  refine ⟨_, _, hstep, ?_, ?_, ?_⟩
  · rw [pc_perform_of_sequential cpu hsequential, Instruction.nextAddress, Instruction.size,
      hmode, Instruction.address_decode]
  · rw [hcycles, cost_perform cpu hdocumented]
    exact Nat.le_add_right ..
  · rw [hcycles, hmode, cost_perform cpu hdocumented]
    exact Nat.add_le_add_left hextra _

/-! ## The run -/

/-- One more step after the others. -/
theorem steps_concat {cpu middle next : Cpu M} {k spent cost : Nat}
    (hsteps : cpu.steps k = .ok (spent, middle)) (hstep : middle.step = .ok (cost, next)) :
    cpu.steps (k + 1) = .ok (spent + cost, next) := by
  induction k generalizing cpu spent with
  | zero =>
      cases hsteps
      have hnone : next.steps 0 = .ok (0, next) := rfl
      rw [Nat.zero_add cost]
      exact steps_succ_of_ok hstep hnone
  | succ k ih =>
      obtain ⟨first, second, rest, hfirst, hrest, rfl⟩ := exists_step_of_steps_succ hsteps
      rw [Nat.add_assoc first]
      exact steps_succ_of_ok hfirst (ih hrest)

/-- When the turn of an instruction comes, its bytes are in memory as they were listed. -/
def KeepsCode (cpu : Cpu M) (code : List Instruction) : Prop :=
  ∀ k i spent middle, code[k]? = some i → cpu.steps k = .ok (spent, middle) →
    i.IsIn middle.memory

/-- Whether the entry with a number is in memory when its turn comes. -/
def keepsEntry (cpu : Cpu M) (code : List Instruction) (k : Nat) : Bool :=
  match code[k]?, cpu.steps k with
  | some i, .ok (_, middle) => decide (i.IsIn middle.memory)
  | _, _ => true

theorem keepsCode_of_keepsEntry {cpu : Cpu M} {code : List Instruction}
    (hkeeps : ∀ k < code.length, cpu.keepsEntry code k = true) : cpu.KeepsCode code := by
  intro k i spent middle hentry hsteps
  obtain ⟨hk, -⟩ := List.getElem?_eq_some_iff.1 hentry
  have hin := hkeeps k hk
  rw [keepsEntry, hentry, hsteps] at hin
  exact of_decide_eq_true hin

/-- The first `k` steps execute the first `k` entries. -/
structure Follows (cpu : Cpu M) (k spent : Nat) (middle : Cpu M) : Prop where
  taken : cpu.steps k = .ok (spent, middle)
  counter : middle.pc = Instruction.behind cpu.memory cpu.pc k
  lower : ((Instruction.listing cpu.memory cpu.pc k).map (·.cycles)).sum ≤ spent
  upper : spent ≤ ((Instruction.listing cpu.memory cpu.pc k).map (·.cycles)).sum +
    (Instruction.listing cpu.memory cpu.pc k).countP (·.mode.mayCrossPage)

theorem Follows.zero (cpu : Cpu M) : Follows cpu 0 0 cpu where
  taken := rfl
  counter := rfl
  lower := Nat.le_refl 0
  upper := Nat.le_refl 0

/-- An entry that is still in memory when the steps before it are done is executed next. -/
theorem Follows.succ {cpu middle : Cpu M} {k spent : Nat} {i : Instruction}
    (hfollows : Follows cpu k spent middle)
    (hentry : Instruction.decode cpu.memory (Instruction.behind cpu.memory cpu.pc k) = i)
    (hin : i.IsIn middle.memory) (hfalls : i.fallsThrough = true) :
    ∃ total next, Follows cpu (k + 1) total next := by
  obtain ⟨htaken, hcounter, hlower, hupper⟩ := hfollows
  have hdecode : Instruction.decode middle.memory middle.pc = i := by
    rw [← hentry] at hin
    rw [hcounter, Instruction.decode_of_isIn hin, hentry]
  rw [← hdecode] at hfalls
  obtain ⟨cost, next, hstep, hnext, hleast, hmost⟩ := step_of_fallsThrough hfalls
  rw [hdecode] at hnext hleast hmost
  have hlisting := Instruction.listing_succ cpu.memory cpu.pc k
  rw [hentry] at hlisting
  have hcycles : ∀ code : List Instruction,
      ((code ++ [i]).map (·.cycles)).sum = (code.map (·.cycles)).sum + i.cycles := by
    intro code
    rw [List.map_append, List.sum_append, List.map_singleton, List.sum_singleton]
  have hcrossing : ∀ code : List Instruction, (code ++ [i]).countP (·.mode.mayCrossPage) =
      code.countP (·.mode.mayCrossPage) + i.mode.mayCrossPage.toNat := by
    intro code
    rw [List.countP_append, List.countP_singleton]
    cases i.mode.mayCrossPage <;> rfl
  refine ⟨spent + cost, next, steps_concat htaken hstep, ?_, ?_, ?_⟩
  · rw [hnext, Instruction.behind_succ, hentry]
  · rw [hlisting, hcycles]
    omega
  · rw [hlisting, hcycles, hcrossing]
    omega

/-- By induction on the steps: each entry is executed where it was listed. -/
theorem follows_of_keepsCode (cpu : Cpu M) {n : Nat}
    (hfalls : ∀ i ∈ Instruction.listing cpu.memory cpu.pc n, i.fallsThrough = true)
    (hkept : cpu.KeepsCode (Instruction.listing cpu.memory cpu.pc n)) {k : Nat} (hk : k ≤ n) :
    ∃ spent middle, Follows cpu k spent middle := by
  induction k with
  | zero => exact ⟨0, cpu, Follows.zero cpu⟩
  | succ k ih =>
      obtain ⟨spent, middle, hfollows⟩ := ih (Nat.le_of_succ_le hk)
      have hentry := Instruction.getElem?_listing cpu.memory cpu.pc hk
      exact hfollows.succ rfl (hkept k _ spent middle hentry hfollows.taken)
        (hfalls _ (List.mem_of_getElem? hentry))

/-- Straight-line code is executed as it is listed, entry by entry, provided that no
entry is overwritten before its turn. -/
theorem steps_follow_listing (cpu : Cpu M) (n : Nat)
    (hfalls : ∀ i ∈ Instruction.listing cpu.memory cpu.pc n, i.fallsThrough = true)
    (hkept : cpu.KeepsCode (Instruction.listing cpu.memory cpu.pc n)) :
    let code := Instruction.listing cpu.memory cpu.pc n
    let base := (code.map (·.cycles)).sum
    ∃ spent final, cpu.steps n = .ok (spent, final) ∧
      (∀ k i, code[k]? = some i →
        ∃ part middle, cpu.steps k = .ok (part, middle) ∧ middle.pc = i.address) ∧
      ((Instruction.listing cpu.memory cpu.pc (n + 1))[n]?).map (·.address) = some final.pc ∧
      final.pc.toNat = (cpu.pc.toNat + (code.map (·.size)).sum) % 65536 ∧
      final.cycles = cpu.cycles + UInt64.ofNat spent ∧
      base ≤ spent ∧ spent ≤ base + code.countP (·.mode.mayCrossPage) := by
  have hfollows : ∀ k ≤ n, ∃ spent middle, Follows cpu k spent middle :=
    fun k hk => follows_of_keepsCode cpu hfalls hkept hk
  obtain ⟨spent, final, htaken, hcounter, hlower, hupper⟩ := hfollows n (Nat.le_refl n)
  refine ⟨spent, final, htaken, ?_, ?_, ?_, cycles_steps htaken, hlower, hupper⟩
  · intro k i hentry
    have hk : k < n := by
      obtain ⟨hk, -⟩ := List.getElem?_eq_some_iff.1 hentry
      rwa [Instruction.length_listing] at hk
    obtain ⟨part, middle, hpart, hmiddle, -⟩ := hfollows k (Nat.le_of_lt hk)
    rw [Instruction.getElem?_listing _ _ hk] at hentry
    obtain rfl := Option.some.inj hentry
    exact ⟨part, middle, hpart, by rw [hmiddle, Instruction.address_decode]⟩
  · rw [Instruction.getElem?_listing _ _ (Nat.lt_succ_self n), Option.map_some,
      Instruction.address_decode, hcounter]
  · rw [hcounter, Instruction.toNat_behind]

/-- A program that runs around the end of the address space.  Its first instruction
overwrites itself, and its second one is indexed into the next page. -/
def wrappingProgram : Cpu Ram where
  a := 0x02
  x := 0x20
  pc := 0xFFFC
  memory := Bus.load Ram.zeroed 0xFFFC [0x8D, 0xFC, 0xFF, 0xBD, 0xF0, 0x12, 0xE8]

theorem steps_wrappingProgram :
    let code := Instruction.listing wrappingProgram.memory wrappingProgram.pc 3
    ((∀ i ∈ code, i.fallsThrough = true) ∧ wrappingProgram.KeepsCode code) ∧
    ∃ spent final, wrappingProgram.steps 3 = .ok (spent, final) ∧
      final.pc.toNat = 3 ∧ 10 ≤ spent ∧ spent ≤ 11 := by
  have hcode : Instruction.listing wrappingProgram.memory wrappingProgram.pc 3 =
      [⟨0xFFFC, 0x8D, some .sta, .absolute, [0xFC, 0xFF], 4⟩,
        ⟨0xFFFF, 0xBD, some .lda, .absoluteX, [0xF0, 0x12], 4⟩,
        ⟨0x0002, 0xE8, some .inx, .implicit, [], 2⟩] := by
    decide +kernel
  have hfalls : ∀ i ∈ Instruction.listing wrappingProgram.memory wrappingProgram.pc 3,
      i.fallsThrough = true := by
    rw [hcode]
    decide
  have hkept : wrappingProgram.KeepsCode
      (Instruction.listing wrappingProgram.memory wrappingProgram.pc 3) := by
    apply keepsCode_of_keepsEntry
    rw [hcode]
    decide +kernel
  obtain ⟨spent, final, hsteps, -, -, hcounter, -, hlower, hupper⟩ :=
    steps_follow_listing wrappingProgram 3 hfalls hkept
  rw [hcode] at hcounter hlower hupper
  exact ⟨⟨hfalls, hkept⟩, spent, final, hsteps, hcounter, hlower, hupper⟩

end Cpu

end Nmos6502
