import Nmos6502.Proofs.OnlyWrites
import Nmos6502.Proofs.Tiling

/-!
# Any memory will do

A bus is a memory if every address has a cell of its own.  How it keeps the cells, and whether
it clears them at once or one by one, shows nowhere: `Cpu.Matches` compares processors on two
buses by their registers and by what each address answers, and any history of requests is
replied to alike by processors that match.

`Ram` is a memory that clears its cells at once; `isMemory_of_clearsByWriting` says that a bus
which clears by writing to each address is one, too.  A board on which addresses share cells is
*not* a memory in this sense.
-/

namespace Nmos6502

/-- An address lies in a row of cells if it is the first or lies in the rest. -/
theorem Word.toNat_sub_lt_succ_iff (first address : Word) {count : Nat} (hcount : count < 65536) :
    (address - first).toNat < count + 1 ↔
      address = first ∨ (address - (first + 1)).toNat < count := by
  have hfirst := first.toNat_lt
  have haddress := address.toNat_lt
  have hnext : (first + 1).toNat = (first.toNat + 1) % 65536 := UInt16.toNat_add first 1
  rw [UInt16.toNat_sub, UInt16.toNat_sub, hnext, ← UInt16.toNat_inj]
  omega

namespace Bus

/-- Every address has a cell of its own: it answers with the byte that was last written to it,
whatever is written to the others. -/
def HasCells (M : Type) [Bus M] : Prop :=
  ∀ (m : M) (a b : Word) (v : Byte), read (write m a v) b = if b = a then v else read m b

/-- Every address has a cell of its own, and clearing zeroes all of them. -/
structure IsMemory (M : Type) [Bus M] : Prop where
  read_write : HasCells M
  read_clear : ∀ (m : M) (a : Word), read (clear m) a = 0

theorem isMemory_ram : IsMemory Ram := ⟨Ram.read_write, Ram.read_clear⟩

section IsMemory

variable {M : Type} [Bus M]

/-- Filling reaches `count` cells from an address on, around the end of the address space if
need be, and no others. -/
theorem read_fill (hcells : HasCells M) (m : M) (first address : Word) {count : Nat}
    (hcount : count ≤ 65536) (value : Byte) :
    read (fill m first count value) address =
      if (address - first).toNat < count then value else read m address := by
  induction count generalizing m first with
  | zero => rfl
  | succ count ih =>
      have hrow := Word.toNat_sub_lt_succ_iff first address (Nat.lt_of_succ_le hcount)
      rw [fill_succ, ih _ _ (Nat.le_of_succ_le hcount), hcells]
      by_cases haddress : address = first
      · rw [if_pos haddress, ite_self, if_pos (hrow.2 (.inl haddress))]
      · simp only [hrow, haddress, if_false, false_or]

theorem isMemory_of_clearsByWriting (hcells : HasCells M) (hclear : ClearsByWriting M) :
    IsMemory M where
  read_write := hcells
  read_clear m a := by
    -- The row of cells from zero on goes through the whole address space and no further.
    rw [hclear, read_fill hcells m 0 a (Nat.le_refl 65536), if_pos (UInt16.toNat_lt _)]

end IsMemory

/-! ## Two memories with the same bytes -/

section SameBytes

variable {M N : Type} [Bus M] [Bus N]

/-- Each address answers the same on both buses. -/
def SameBytes (m : M) (n : N) : Prop := ∀ a, read n a = read m a

namespace SameBytes

variable {m : M} {n : N}

theorem readWord (hsame : SameBytes m n) (address : Word) :
    Bus.readWord n address = Bus.readWord m address := by
  rw [Bus.readWord, Bus.readWord, hsame, hsame]

theorem readPointer (hsame : SameBytes m n) (page offset : Byte) :
    Bus.readPointer n page offset = Bus.readPointer m page offset := by
  rw [Bus.readPointer, Bus.readPointer, hsame, hsame]

theorem decode (hsame : SameBytes m n) (address : Word) :
    Instruction.decode n address = Instruction.decode m address := by
  have hbytes : ∀ start count, readBytes n start count = readBytes m start count :=
    fun start count => readBytes_congr fun k _ => hsame _
  simp only [Instruction.decode, hsame address, hbytes]

theorem write (hm : IsMemory M) (hn : IsMemory N) (hsame : SameBytes m n) (address : Word)
    (value : Byte) : SameBytes (Bus.write m address value) (Bus.write n address value) := by
  intro a
  rw [hn.read_write, hm.read_write, hsame]

theorem writeAll (hm : IsMemory M) (hn : IsMemory N) (hsame : SameBytes m n)
    (writes : List (Word × Byte)) : SameBytes (Bus.writeAll m writes) (Bus.writeAll n writes) := by
  induction writes generalizing m n with
  | nil => exact hsame
  | cons write writes ih => exact ih (hsame.write hm hn write.1 write.2)

theorem load (hm : IsMemory M) (hn : IsMemory N) (hsame : SameBytes m n) (address : Word)
    (bytes : List Byte) : SameBytes (Bus.load m address bytes) (Bus.load n address bytes) := by
  rw [load_eq_writeAll, load_eq_writeAll]
  exact hsame.writeAll hm hn _

theorem fill (hm : IsMemory M) (hn : IsMemory N) (hsame : SameBytes m n) (address : Word)
    (count : Nat) (value : Byte) :
    SameBytes (Bus.fill m address count value) (Bus.fill n address count value) := by
  rw [fill_eq_load, fill_eq_load]
  exact hsame.load hm hn address _

theorem writeWord (hm : IsMemory M) (hn : IsMemory N) (hsame : SameBytes m n)
    (address value : Word) :
    SameBytes (Bus.writeWord m address value) (Bus.writeWord n address value) :=
  (hsame.write hm hn address value.low).write hm hn (address + 1) value.high

theorem clear (hm : IsMemory M) (hn : IsMemory N) (m : M) (n : N) :
    SameBytes (Bus.clear m) (Bus.clear n) := by
  intro a
  rw [hm.read_clear, hn.read_clear]

end SameBytes

end SameBytes

end Bus

namespace Cpu

section Interchange

variable {M N : Type} [Bus M] [Bus N]

/-! ## Processors that match -/

/-- Two processors with the same registers, whose buses answer alike. -/
structure Matches (s : Cpu M) (t : Cpu N) : Prop where
  registers : t.toRegisters = s.toRegisters
  pc : t.pc = s.pc
  cycles : t.cycles = s.cycles
  bytes : Bus.SameBytes s.memory t.memory

namespace Matches

variable {s : Cpu M} {t : Cpu N}

/-- Only what a processor is wired to may differ from a processor that it matches. -/
theorem exists_eq_wiredTo (hmatches : s.Matches t) :
    ∃ n, Bus.SameBytes s.memory n ∧ t = s.wiredTo n := by
  obtain ⟨hregisters, hpc, hcycles, hbytes⟩ := hmatches
  exact ⟨t.memory, hbytes, eq_wiredTo hregisters hpc hcycles⟩

/-- A processor matches what it is when it is wired to the same bytes. -/
theorem wiredTo (cpu : Cpu M) {n : N} (hsame : Bus.SameBytes cpu.memory n) :
    cpu.Matches (cpu.wiredTo n) := ⟨rfl, rfl, rfl, hsame⟩

theorem powerUp {m : M} {n : N} (hsame : Bus.SameBytes m n) :
    (Cpu.powerUp m).Matches (Cpu.powerUp n) :=
  ⟨rfl, hsame.readWord resetVector, rfl, hsame⟩

theorem resolve (hmatches : s.Matches t) (mode : AddressingMode) :
    t.resolve mode = s.resolve mode := by
  have hbyte : t.operandByte = s.operandByte := by
    rw [operandByte, operandByte, hmatches.pc, hmatches.bytes]
  have hword : t.operandWord = s.operandWord := by
    rw [operandWord, operandWord, hmatches.pc, hmatches.bytes.readWord]
  have hx : t.x = s.x := congrArg Registers.x hmatches.registers
  have hy : t.y = s.y := congrArg Registers.y hmatches.registers
  cases mode with
  | implicit | accumulator | invalid => rfl
  | _ => simp only [Cpu.resolve, hbyte, hword, hx, hy, hmatches.pc, hmatches.bytes.readPointer]

theorem readOperand (hmatches : s.Matches t) (operand : Operand) :
    t.readOperand operand = s.readOperand operand := by
  cases operand with
  | accumulator => exact congrArg Registers.a hmatches.registers
  | memory address crossed => exact hmatches.bytes address
  | implied | immediate => rfl

theorem pull (hmatches : s.Matches t) :
    t.pull.1 = s.pull.1 ∧ s.pull.2.Matches t.pull.2 := by
  obtain ⟨n, hsame, rfl⟩ := hmatches.exists_eq_wiredTo
  exact ⟨hsame _, rfl, rfl, rfl, hsame⟩

theorem pullWord (hmatches : s.Matches t) : t.pullWord.1 = s.pullWord.1 := by
  obtain ⟨hlow, hnext⟩ := hmatches.pull
  obtain ⟨hhigh, -⟩ := hnext.pull
  exact congrArg₂ Word.ofBytes hlow hhigh

end Matches

/-! ## Runs that match -/

/-- A processor reads the same from another memory with the same bytes. -/
theorem readsAlike_of_sameBytes (hm : Bus.IsMemory M) (hn : Bus.IsMemory N) (cpu : Cpu M) {n : N}
    (hsame : Bus.SameBytes cpu.memory n) (mode : AddressingMode) (op : Operation) :
    cpu.ReadsAlike n mode op := by
  have hmatches := Matches.wiredTo cpu hsame
  cases op with
  | read | modify => exact ⟨hmatches.resolve mode, hmatches.readOperand _⟩
  | store | branch | jump => exact hmatches.resolve mode
  | internal | push => trivial
  | pull use => exact hmatches.pull.1
  | call => exact hsame.readWord _
  | callReturn => exact hmatches.pullWord
  | interrupt =>
      -- The vector may have been written over by the pushes, and is so in both memories.
      let status : Status := { cpu.status with breakCommand := true }
      have hpushed := hsame.writeAll hm hn [(stackCell cpu.sp, (cpu.pc + 1).high),
        (stackCell (cpu.sp - 1), (cpu.pc + 1).low), (stackCell (cpu.sp - 1 - 1), status.toByte)]
      exact hpushed.readWord irqVector
  | interruptReturn => exact ⟨hmatches.pull.1, hmatches.pull.2.pullWord⟩

namespace Matches

variable {s : Cpu M} {t : Cpu N}

theorem stepped (hm : Bus.IsMemory M) (hn : Bus.IsMemory N) (hmatches : s.Matches t) :
    t.answer = s.answer ∧ s.stepped.Matches t.stepped := by
  obtain ⟨n, hsame, rfl⟩ := hmatches.exists_eq_wiredTo
  obtain ⟨writes, hmemory, hwired, hanswer⟩ := s.stepped_wiredTo (hsame s.pc)
    fun e _ => s.readsAlike_of_sameBytes hm hn hsame e.mode e.mnemonic.operation
  refine ⟨hanswer, ?_⟩
  rw [hwired]
  apply wiredTo
  rw [hmemory]
  exact hsame.writeAll hm hn writes

theorem runUntil (hm : Bus.IsMemory M) (hn : Bus.IsMemory N) (hmatches : s.Matches t)
    (budget : Nat) :
    (s.runUntil budget).1.Matches (t.runUntil budget).1 ∧
      (t.runUntil budget).2 = (s.runUntil budget).2 := by
  -- What is left of the budget goes down with each step, and by the same in both runs.
  induction budget using Nat.strongRecOn generalizing s t with
  | ind budget ih =>
      rcases Nat.eq_zero_or_pos budget with rfl | hbudget
      · rw [runUntil_zero, runUntil_zero]
        exact ⟨hmatches, rfl⟩
      · obtain ⟨hanswer, hstepped⟩ := hmatches.stepped hm hn
        cases hcost : s.answer with
        | error e =>
            rw [hcost] at hanswer
            rw [runUntil_of_error hbudget (step_of_answer_error hcost),
              runUntil_of_error hbudget (step_of_answer_error hanswer)]
            exact ⟨hmatches, rfl⟩
        | ok cost =>
            rw [hcost] at hanswer
            have hstep := step_of_answer_ok hcost
            obtain ⟨hpositive, -⟩ := step_cost_bounds hstep
            rw [runUntil_of_ok hbudget hstep, runUntil_of_ok hbudget (step_of_answer_ok hanswer)]
            exact ih (budget - cost) (by omega) hstepped

theorem run (hm : Bus.IsMemory M) (hn : Bus.IsMemory N) (hmatches : s.Matches t)
    (budget : UInt64) :
    (s.run budget).1.Matches (t.run budget).1 ∧ (t.run budget).2 = (s.run budget).2 := by
  have hboth := hmatches.runUntil hm hn budget.toNat
  rw [Cpu.run, Cpu.run]
  rcases hs : s.runUntil budget.toNat with ⟨sFinal, sEnd⟩
  rcases ht : t.runUntil budget.toNat with ⟨tFinal, tEnd⟩
  rw [hs, ht] at hboth
  obtain ⟨hfinal, hend⟩ := hboth
  obtain rfl : tEnd = sEnd := hend
  cases tEnd with
  | none =>
      have hcycles : tFinal.cycles = sFinal.cycles := hfinal.cycles
      refine ⟨hfinal, ?_⟩
      change Except.ok (tFinal.cycles - t.cycles) = Except.ok (sFinal.cycles - s.cycles)
      rw [hcycles, hmatches.cycles]
  | some e => exact ⟨hfinal, rfl⟩

/-! ## Requests that match -/

theorem apply (hm : Bus.IsMemory M) (hn : Bus.IsMemory N) (hmatches : s.Matches t)
    (command : Monitor.Command) : (command.apply s).Matches (command.apply t) := by
  obtain ⟨n, hsame, rfl⟩ := hmatches.exists_eq_wiredTo
  cases command with
  | setMemory address value => exact ⟨rfl, rfl, rfl, hsame.write hm hn address value⟩
  | setBlock address count value =>
      exact ⟨rfl, rfl, rfl, hsame.fill hm hn address count.toNat value⟩
  | setRegister register value => cases register <;> exact ⟨rfl, rfl, rfl, hsame⟩
  | pushStack value => exact ⟨rfl, rfl, rfl, hsame.write hm hn _ value⟩
  | quit => exact ⟨rfl, rfl, rfl, hsame⟩

theorem after (hm : Bus.IsMemory M) (hn : Bus.IsMemory N) (hmatches : s.Matches t)
    (r : Request) : (s.after r).Matches (t.after r) := by
  cases r with
  | step => exact (hmatches.stepped hm hn).2
  | run budget => exact (hmatches.run hm hn budget).1
  | command command => exact hmatches.apply hm hn command
  | hardReset start =>
      exact powerUp ((Bus.SameBytes.clear hm hn _ _).writeWord hm hn resetVector start)
  | softReset =>
      obtain ⟨n, hsame, rfl⟩ := hmatches.exists_eq_wiredTo
      exact ⟨rfl, hsame.readWord resetVector, rfl, hsame⟩
  | clearMemory =>
      obtain ⟨n, hsame, rfl⟩ := hmatches.exists_eq_wiredTo
      exact ⟨rfl, rfl, rfl, .clear hm hn _ _⟩
  | poke address value =>
      obtain ⟨n, hsame, rfl⟩ := hmatches.exists_eq_wiredTo
      exact ⟨rfl, rfl, rfl, hsame.write hm hn address value⟩
  | pokeWord address value =>
      obtain ⟨n, hsame, rfl⟩ := hmatches.exists_eq_wiredTo
      exact ⟨rfl, rfl, rfl, hsame.writeWord hm hn address value⟩
  | load address bytes =>
      obtain ⟨n, hsame, rfl⟩ := hmatches.exists_eq_wiredTo
      exact ⟨rfl, rfl, rfl, hsame.load hm hn address bytes⟩
  | setA | setX | setY | setStackPointer | setCounter | setStatus | assignFlags | registers |
    hasFlags | peek | peekWord | resolve | disassemble =>
      obtain ⟨n, hsame, rfl⟩ := hmatches.exists_eq_wiredTo
      exact ⟨rfl, rfl, rfl, hsame⟩

theorem reply (hm : Bus.IsMemory M) (hn : Bus.IsMemory N) (hmatches : s.Matches t)
    (r : Request) : t.reply r = s.reply r := by
  cases r with
  | step => exact congrArg Reply.stepped (hmatches.stepped hm hn).1
  | run budget => exact congrArg Reply.ran (hmatches.run hm hn budget).2
  | peek address => exact congrArg Reply.byte (hmatches.bytes address)
  | peekWord address => exact congrArg Reply.word (hmatches.bytes.readWord address)
  | resolve mode => exact congrArg Reply.operand (hmatches.resolve mode)
  | disassemble address =>
      exact congrArg (fun i : Instruction => Reply.line i.text i.size)
        (hmatches.bytes.decode address)
  | registers | hasFlags =>
      obtain ⟨n, -, rfl⟩ := hmatches.exists_eq_wiredTo
      rfl
  | hardReset | softReset | setA | setX | setY | setStackPointer | setCounter | setStatus |
    assignFlags | clearMemory | poke | pokeWord | load | command => rfl

theorem requests (hm : Bus.IsMemory M) (hn : Bus.IsMemory N) (hmatches : s.Matches t)
    (requests : List Request) :
    t.replies requests = s.replies requests ∧
      (requests.foldl Cpu.after s).Matches (requests.foldl Cpu.after t) := by
  induction requests generalizing s t with
  | nil => exact ⟨rfl, hmatches⟩
  | cons r requests ih =>
      obtain ⟨hreplies, hfinal⟩ := ih (hmatches.after hm hn r)
      refine ⟨?_, hfinal⟩
      rw [replies, replies, hmatches.reply hm hn, hreplies]

end Matches

/-- A bus with a cell for each address, which clears by writing, stands in for `Ram`: requests
are replied to alike, and leave the same registers and the same bytes. -/
theorem memories_interchange (hcells : Bus.HasCells M) (hclear : Bus.ClearsByWriting M) :
    (∀ (ram : Ram) (m : M), Bus.SameBytes ram m → (powerUp ram).Matches (powerUp m)) ∧
    ∀ (s : Cpu Ram) (t : Cpu M), s.Matches t → ∀ requests,
      t.replies requests = s.replies requests ∧
        (requests.foldl after s).Matches (requests.foldl after t) := by
  have hm := Bus.isMemory_of_clearsByWriting hcells hclear
  refine ⟨fun ram m hsame => Matches.powerUp hsame, ?_⟩
  intro s t hmatches requests
  exact hmatches.requests Bus.isMemory_ram hm requests

end Interchange

end Cpu

/-- A memory that is the journal of its writes, the last one first. -/
structure Journal where
  entries : List (Word × Byte)

instance : Bus Journal where
  read m address := (m.entries.lookup address).getD 0
  write m address value := ⟨(address, value) :: m.entries⟩

theorem Journal.hasCells : Bus.HasCells Journal := by
  intro m a b v
  simp only [Bus.read, Bus.write, List.lookup_cons]
  by_cases haddress : b = a
  · rw [haddress, beq_self_eq_true, if_pos rfl]
    rfl
  · rw [beq_false_of_ne haddress, if_neg haddress]

/-- A session on an empty journal: the reset clears the last cell, a byte is pushed, and then
an undocumented opcode is met. -/
theorem Cpu.replies_emptyJournal :
    Bus.HasCells Journal ∧ Bus.ClearsByWriting Journal ∧
    (powerUp (⟨[]⟩ : Journal)).replies [.poke 0xFFFF 0x2A, .hardReset 0x0200, .peek 0xFFFF,
        .load 0x0200 [0x48, 0x02], .setA 0x05, .step, .peek 0x01FF, .step] =
      [.done, .done, .byte 0x00, .done, .done, .stepped (.ok 3), .byte 0x05,
        .stepped (.error ⟨0x02, 0x0201⟩)] := by
  have hclear : Bus.ClearsByWriting Journal := fun _ => rfl
  refine ⟨Journal.hasCells, hclear, ?_⟩
  obtain ⟨hpowerUp, hrequests⟩ := memories_interchange Journal.hasCells hclear
  have hempty : Bus.SameBytes Ram.zeroed (⟨[]⟩ : Journal) :=
    fun a => (Ram.read_zeroed a).symm
  rw [(hrequests _ _ (hpowerUp _ _ hempty) _).1]
  rfl

end Nmos6502
