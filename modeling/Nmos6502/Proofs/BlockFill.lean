import Mathlib.Data.List.Perm.Basic
import Nmos6502.Proofs.Interchange

/-!
# Filling a block

The command that fills a block reaches `count` cells from its address on, around the end of the
address space if need be, and nothing else of the machine.  `Bus.mem_row_iff` says which cells
these are by one subtraction, on whichever side of the end they lie: the first cell is one of
them, and the cell behind the last one is not.

The same value goes to each of the cells.  So it does *not* matter in which order they are written
to, nor whether they are filled, loaded or set one by one.
-/

namespace Nmos6502

theorem Word.toNat_sub_eq_emod (address first : Word) :
    ((address - first).toNat : Int) = ((address.toNat : Int) - first.toNat) % 65536 := by
  have hfirst := first.toNat_lt
  have haddress := address.toNat_lt
  rw [UInt16.toNat_sub]
  omega

/-- Only the cell right in front of an address is as far behind it as can be. -/
theorem Word.eq_sub_one_iff (address first : Word) :
    address = first - 1 ↔ ¬ (address - first).toNat < 65535 := by
  have hfirst := first.toNat_lt
  have haddress := address.toNat_lt
  have hone : (1 : Word).toNat = 1 := rfl
  rw [← UInt16.toNat_inj, UInt16.toNat_sub, UInt16.toNat_sub, hone]
  omega

namespace Bus

/-- The addresses of a block, which come round the end of the address space. -/
def row (first : Word) (count : Nat) : List Word :=
  (List.range count).map fun k => UInt16.ofNat (first.toNat + k)

/-- An address lies in a block if it is less than the length of the block behind its start. -/
theorem mem_row_iff (first address : Word) {count : Nat} (hcount : count ≤ 65536) :
    address ∈ row first count ↔ (address - first).toNat < count := by
  have hfirst := first.toNat_lt
  have haddress := address.toNat_lt
  unfold row
  rw [List.mem_map, UInt16.toNat_sub]
  constructor
  · rintro ⟨k, hk, rfl⟩
    have hk := List.mem_range.1 hk
    rw [UInt16.toNat_ofNat']
    omega
  · intro hbehind
    refine ⟨_, List.mem_range.2 hbehind, ?_⟩
    apply UInt16.toNat_inj.1
    rw [UInt16.toNat_ofNat']
    omega

/-- Where one value is written to several addresses, their order is not to be seen in the cells,
nor how often each of them occurs. -/
theorem read_writeAll_of_one_value {M : Type} [Bus M] (hcells : HasCells M) (m : M)
    (value : Byte) (addresses : List Word) (address : Word) :
    read (writeAll m (addresses.map fun a => (a, value))) address =
      if address ∈ addresses then value else read m address := by
  induction addresses generalizing m with
  | nil => simp [writeAll]
  | cons first rest ih =>
      rw [List.map_cons, writeAll, ih, hcells]
      by_cases hrest : address ∈ rest
      · simp [hrest]
      · by_cases hfirst : address = first
        · simp [hfirst]
        · simp [hrest, hfirst]

theorem writeAll_eq_fill_of_perm (m : Ram) (first : Word) {count : Nat} (hcount : count ≤ 65536)
    (value : Byte) {order : List Word} (horder : order.Perm (row first count)) :
    writeAll m (order.map fun a => (a, value)) = fill m first count value := by
  apply Ram.ext_read
  intro address
  have hmem : address ∈ order ↔ (address - first).toNat < count := by
    rw [horder.mem_iff, mem_row_iff first address hcount]
  rw [read_writeAll_of_one_value Ram.read_write, read_fill Ram.read_write m first address hcount]
  simp only [hmem]

end Bus

namespace Monitor.Command

theorem foldl_setMemory {M : Type} [Bus M] (cpu : Cpu M) (value : Byte)
    (addresses : List Word) :
    addresses.foldl (fun cpu address => (setMemory address value).apply cpu) cpu =
      { cpu with memory := Bus.writeAll cpu.memory (addresses.map fun a => (a, value)) } := by
  induction addresses generalizing cpu with
  | nil => rfl
  | cons address rest ih => exact ih ((setMemory address value).apply cpu)

/-- Filling a block sets the cells from its address on, as many as it counts, and nothing else.
It is a load of as many copies of the value, and it is setting the same cells one by one, in
whatever order. -/
theorem setBlock_covers_range (cpu : Cpu Ram) (address count : Word) (value : Byte) :
    let filled := (setBlock address count value).apply cpu
    (∀ x, Bus.read filled.memory x =
      if ((x.toNat : Int) - address.toNat) % 65536 < count.toNat then value
      else Bus.read cpu.memory x) ∧
    (setBlock address 0 value).apply cpu = cpu ∧
    (∀ x, Bus.read ((setBlock address 0xFFFF value).apply cpu).memory x =
      if x = address - 1 then Bus.read cpu.memory x else value) ∧
    filled.toRegisters = cpu.toRegisters ∧ filled.pc = cpu.pc ∧ filled.cycles = cpu.cycles ∧
    (setBlock address count value).isQuit = false ∧
    filled = cpu.load address (List.replicate count.toNat value) ∧
    ∀ order : List Word,
      order.Perm ((List.range count.toNat).map fun k => UInt16.ofNat (address.toNat + k)) →
      order.foldl (fun cpu target => (setMemory target value).apply cpu) cpu = filled := by
  have hcells (count : Word) (x : Word) :
      Bus.read ((setBlock address count value).apply cpu).memory x =
        if (x - address).toNat < count.toNat then value else Bus.read cpu.memory x :=
    Bus.read_fill Ram.read_write cpu.memory address x (Nat.le_of_lt count.toNat_lt) value
  refine ⟨?_, rfl, ?_, rfl, rfl, rfl, rfl, ?_, ?_⟩
  · intro x
    rw [hcells, ← Word.toNat_sub_eq_emod]
    simp only [Int.ofNat_lt]
  · intro x
    rw [hcells]
    simp only [Word.eq_sub_one_iff, ite_not]
    rfl
  · change { cpu with memory := Bus.fill cpu.memory address count.toNat value } = _
    rw [Bus.fill_eq_load]
    rfl
  · intro order horder
    rw [foldl_setMemory, Bus.writeAll_eq_fill_of_perm _ _ (Nat.le_of_lt count.toNat_lt) _ horder]
    rfl

/-- Three cells around the end of the address space, the last of them set first. -/
theorem setBlock_aroundTheEnd :
    let cpu := Cpu.powerUp (Bus.load Ram.zeroed 0xFFFD [0x11, 0x12, 0x13, 0x14, 0x15])
    List.Perm [0x0000, 0xFFFE, 0xFFFF]
      ((List.range (3 : Word).toNat).map fun k => UInt16.ofNat ((0xFFFE : Word).toNat + k)) ∧
    [0x0000, 0xFFFE, 0xFFFF].foldl (fun cpu target => (setMemory target 0x7F).apply cpu) cpu =
      (setBlock 0xFFFE 3 0x7F).apply cpu ∧
    Bus.readBytes ((setBlock 0xFFFE 3 0x7F).apply cpu).memory 0xFFFD 5 =
      [0x11, 0x7F, 0x7F, 0x7F, 0x15] := by
  intro cpu
  have horder : List.Perm [0x0000, 0xFFFE, 0xFFFF]
      ((List.range (3 : Word).toNat).map fun k => UInt16.ofNat ((0xFFFE : Word).toNat + k)) := by
    decide
  obtain ⟨-, -, -, -, -, -, -, -, hany⟩ := setBlock_covers_range cpu 0xFFFE 3 0x7F
  exact ⟨horder, hany _ horder, by decide +kernel⟩

end Monitor.Command

end Nmos6502
