import Mathlib.Order.Bounds.Basic
import Nmos6502.Proofs.Interchange

/-!
# What a load leaves in memory

Bytes are loaded to successive addresses, around the end of the address space as often as there
are bytes left.  `Bus.landings` says which of them reach an address, without following the load;
of those the last one stays, and an address that none of them reaches answers as before.

A load may have more bytes than there are cells.  It is *not* cut off then: what comes later goes
over what came earlier, so a load can be split anywhere into two.
-/

namespace Nmos6502

namespace Bus

/-- The positions in a row of `count` bytes from `start` on whose bytes go to the address. -/
def landings (start : Word) (count : Nat) (address : Word) : Set Nat :=
  {j | j < count ∧ (start.toNat + j) % 65536 = address.toNat}

theorem zero_mem_landings_iff (start : Word) (count : Nat) (address : Word) :
    0 ∈ landings start (count + 1) address ↔ address = start := by
  have hstart := start.toNat_lt
  change 0 < count + 1 ∧ (start.toNat + 0) % 65536 = address.toNat ↔ _
  rw [← UInt16.toNat_inj]
  omega

/-- Behind the first byte of a row lies the row from the next address on. -/
theorem succ_mem_landings_iff (start : Word) (count : Nat) (address : Word) (j : Nat) :
    j + 1 ∈ landings start (count + 1) address ↔ j ∈ landings (start + 1) count address := by
  have hnext : (start + 1).toNat = (start.toNat + 1) % 65536 := UInt16.toNat_add start 1
  change j + 1 < count + 1 ∧ (start.toNat + (j + 1)) % 65536 = address.toNat ↔
    j < count ∧ ((start + 1).toNat + j) % 65536 = address.toNat
  rw [hnext]
  omega

/-- Where a later byte of the row lands last, it does so in the whole row, one position on. -/
theorem isGreatest_landings_succ {start : Word} {count : Nat} {address : Word} {j : Nat}
    (hlast : IsGreatest (landings (start + 1) count address) j) :
    IsGreatest (landings start (count + 1) address) (j + 1) := by
  refine ⟨(succ_mem_landings_iff start count address j).2 hlast.1, ?_⟩
  intro k hk
  cases k with
  | zero => exact Nat.zero_le (j + 1)
  | succ k => exact Nat.succ_le_succ (hlast.2 ((succ_mem_landings_iff start count address k).1 hk))

/-- Where no later byte lands, it depends on the first byte of the row. -/
theorem landings_succ_of_eq_empty {start : Word} {count : Nat} {address : Word}
    (hempty : landings (start + 1) count address = ∅) :
    landings start (count + 1) address = if address = start then {0} else ∅ := by
  ext k
  cases k with
  | zero => by_cases haddress : address = start <;> simp [zero_mem_landings_iff, haddress]
  | succ k =>
      rw [succ_mem_landings_iff, hempty]
      by_cases haddress : address = start <;> simp [haddress]

section Load

variable {M : Type} [Bus M]

/-- Loading goes on behind what was loaded first. -/
theorem load_append (m : M) (start : Word) (p q : List Byte) :
    load m start (p ++ q) = load (load m start p) (start + UInt16.ofNat p.length) q := by
  induction p generalizing m start with
  | nil => simp
  | cons b p ih =>
      rw [List.cons_append, load_cons, load_cons, ih, Word.add_one_add_ofNat, List.length_cons]

/-- Either the last byte that reaches the address stays there, or none reaches it and it answers
as before. -/
theorem read_load_cases (hcells : HasCells M) (m : M) (start : Word) (bytes : List Byte)
    (address : Word) :
    (∃ j, IsGreatest (landings start bytes.length address) j ∧
      bytes[j]? = some (read (load m start bytes) address)) ∨
    (landings start bytes.length address = ∅ ∧
      read (load m start bytes) address = read m address) := by
  induction bytes generalizing m start with
  | nil => exact .inr ⟨by simp [landings], rfl⟩
  | cons b bytes ih =>
      rw [load_cons, List.length_cons]
      rcases ih (write m start b) (start + 1) with ⟨j, hlast, hbyte⟩ | ⟨hempty, hread⟩
      · exact .inl ⟨j + 1, isGreatest_landings_succ hlast, hbyte⟩
      · rw [landings_succ_of_eq_empty hempty, hread, hcells]
        by_cases haddress : address = start
        · rw [if_pos haddress, if_pos haddress]
          exact .inl ⟨0, isGreatest_singleton, rfl⟩
        · rw [if_neg haddress, if_neg haddress]
          exact .inr ⟨rfl, rfl⟩

theorem read_load_eq_iff (hcells : HasCells M) (m : M) (start : Word) (bytes : List Byte)
    (address : Word) (value : Byte) :
    read (load m start bytes) address = value ↔
      (∃ j, IsGreatest (landings start bytes.length address) j ∧ bytes[j]? = some value) ∨
      (landings start bytes.length address = ∅ ∧ read m address = value) := by
  have hcases := read_load_cases hcells m start bytes address
  constructor
  · rintro rfl
    rcases hcases with hlast | ⟨hempty, hread⟩
    · exact .inl hlast
    · exact .inr ⟨hempty, hread.symm⟩
  · rintro (⟨j, hj, hvalue⟩ | ⟨hempty, hvalue⟩)
    · rcases hcases with ⟨k, hk, hbyte⟩ | ⟨hempty, -⟩
      · obtain rfl := hj.unique hk
        rw [hbyte] at hvalue
        exact Option.some.inj hvalue
      · rw [hempty] at hj
        exact absurd hj.1 (Set.notMem_empty j)
    · rcases hcases with ⟨k, hk, -⟩ | ⟨-, hread⟩
      · rw [hempty] at hk
        exact absurd hk.1 (Set.notMem_empty k)
      · rw [hread, hvalue]

/-- Bytes that end below an address do not reach it. -/
theorem read_load_of_below (hcells : HasCells M) (m : M) {start address : Word}
    {bytes : List Byte} (hbelow : start.toNat + bytes.length ≤ address.toNat) :
    read (load m start bytes) address = read m address := by
  have haddress := address.toNat_lt
  rcases read_load_cases hcells m start bytes address with ⟨j, ⟨⟨hj, hlands⟩, -⟩, -⟩ | ⟨-, hread⟩
  · -- Such a byte would have to go around the end of the address space first.
    omega
  · exact hread

/-- The three vectors lie at the end of the address space, so a program that ends below the
first of them leaves them all as they were. -/
theorem readWord_load_of_below_vectors (hcells : HasCells M) (m : M) {start : Word}
    {bytes : List Byte} (hbelow : start.toNat + bytes.length ≤ nmiVector.toNat) {vector : Word}
    (hvector : vector = nmiVector ∨ vector = resetVector ∨ vector = irqVector) :
    readWord (load m start bytes) vector = readWord m vector := by
  have habove : nmiVector.toNat ≤ vector.toNat ∧ nmiVector.toNat ≤ (vector + 1).toNat := by
    rcases hvector with rfl | rfl | rfl <;> decide
  rw [readWord, readWord, read_load_of_below hcells m (hbelow.trans habove.1),
    read_load_of_below hcells m (hbelow.trans habove.2)]

end Load

end Bus

/-- After a load each cell has the last of the bytes that reached it, or its old byte if none
did; a load of two rows is two loads; and loading a program does this to memory, moves the program
counter to its first byte and does nothing else. -/
theorem Machine.loads_keep_last_bytes (m : Ram) (start : Word) (bytes : List Byte) :
    (∀ address value, Bus.read (Bus.load m start bytes) address = value ↔
      (∃ j, IsGreatest {j | j < bytes.length ∧ (start.toNat + j) % 65536 = address.toNat} j ∧
        bytes[j]? = some value) ∨
      ((∀ j < bytes.length, (start.toNat + j) % 65536 ≠ address.toNat) ∧
        Bus.read m address = value)) ∧
    (∀ p q, Bus.load m start (p ++ q) =
      Bus.load (Bus.load m start p) (UInt16.ofNat (start.toNat + p.length)) q) ∧
    ∀ machine : Machine,
      let next := machine.loadProgram start bytes
      next.cpu.memory = Bus.load machine.cpu.memory start bytes ∧ next.cpu.pc = start ∧
        next.cpu.toRegisters = machine.cpu.toRegisters ∧
        next.cpu.cycles = machine.cpu.cycles := by
  refine ⟨?_, ?_, fun machine => ⟨rfl, rfl, rfl, rfl⟩⟩
  · intro address value
    rw [Bus.read_load_eq_iff Ram.read_write]
    have hempty : Bus.landings start bytes.length address = ∅ ↔
        ∀ j < bytes.length, (start.toNat + j) % 65536 ≠ address.toNat := by
      simp [Bus.landings, Set.eq_empty_iff_forall_notMem]
    rw [hempty]
    rfl
  · intro p q
    rw [Bus.load_append, UInt16.ofNat_add, UInt16.ofNat_toNat]

/-- More bytes than there are cells: the last one comes to the cell of the second one, and
stays there. -/
theorem Machine.loads_moreThanThereAreCells :
    let bytes : List Byte := List.replicate 65536 0xEA ++ [0x01, 0x02]
    IsGreatest {j | j < bytes.length ∧ ((0xFFFF : Word).toNat + j) % 65536 = (0 : Word).toNat}
      65537 ∧
    Bus.read (Bus.load Ram.zeroed 0xFFFF bytes) 0 = 0x02 := by
  intro bytes
  have hlength : bytes.length = 65538 := by
    rw [List.length_append, List.length_replicate]
    rfl
  have hlast : IsGreatest
      {j | j < bytes.length ∧ ((0xFFFF : Word).toNat + j) % 65536 = (0 : Word).toNat} 65537 := by
    rw [hlength]
    refine ⟨⟨by decide, by decide⟩, ?_⟩
    rintro j ⟨hj, -⟩
    exact Nat.le_of_lt_succ hj
  have hbyte : bytes[65537]? = some 0x02 := by
    have hbehind : (List.replicate 65536 (0xEA : Byte)).length ≤ 65537 := by
      rw [List.length_replicate]
      exact Nat.le_succ 65536
    rw [List.getElem?_append_right hbehind, List.length_replicate]
    rfl
  obtain ⟨hcell, -⟩ := loads_keep_last_bytes Ram.zeroed 0xFFFF bytes
  exact ⟨hlast, (hcell 0 0x02).2 (.inl ⟨65537, hlast, hbyte⟩)⟩

end Nmos6502
