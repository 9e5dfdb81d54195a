import Nmos6502.Bus.Ram
import Nmos6502.Proofs.Addressing

/-!
# Cells under pokes, pushes and pulls

In a full address space of memory a poke changes one cell and a push one cell of page
one, whose number wraps with the stack pointer.  `cell_poke` and `cell_push` say so in
numbers; `stackByte` names the bytes that pulls get, and needs no law of the cells.
-/

namespace Nmos6502.Cpu

section Pull

variable {M : Type} [Bus M]

/-- The byte that the next pull gets is at depth one, the one after it at depth two. -/
def stackByte (cpu : Cpu M) (depth : Nat) : Nat :=
  cpu.cell (0x0100 + (cpu.sp.toNat + depth) % 256)

theorem toNat_pull (cpu : Cpu M) : cpu.pull.1.toNat = cpu.stackByte 1 := by
  change (Bus.read cpu.memory (stackCell (cpu.sp + 1))).toNat = _
  rw [toNat_read_stackCell, UInt8.toNat_add, stackByte]
  rfl

theorem stackByte_pull (cpu : Cpu M) (depth : Nat) :
    cpu.pull.2.stackByte depth = cpu.stackByte (depth + 1) := by
  have hsp : cpu.pull.2.sp.toNat = (cpu.sp.toNat + 1) % 256 := UInt8.toNat_add ..
  have hdepth : ((cpu.sp.toNat + 1) % 256 + depth) % 256 =
      (cpu.sp.toNat + (depth + 1)) % 256 := by omega
  rw [stackByte, stackByte, hsp, hdepth]
  rfl

theorem toNat_pullWord (cpu : Cpu M) :
    cpu.pullWord.1.toNat = cpu.stackByte 1 + 256 * cpu.stackByte 2 := by
  change (Word.ofBytes cpu.pull.1 cpu.pull.2.pull.1).toNat = _
  rw [Word.toNat_ofBytes, toNat_pull, toNat_pull, stackByte_pull]

end Pull

/-! ## Full memory -/

theorem cell_poke (cpu : Cpu Ram) (address : Word) (value : Byte) (n : Nat) :
    (cpu.poke address value).cell n =
      if n % 65536 = address.toNat then value.toNat else cpu.cell n := by
  change (Bus.read (Bus.write cpu.memory address value) (UInt16.ofNat n)).toNat = _
  rw [Ram.read_write]
  have hcell : UInt16.ofNat n = address ↔ n % 65536 = address.toNat :=
    UInt16.ofNat_eq_iff_mod_eq_toNat n address
  by_cases h : n % 65536 = address.toNat
  · rw [if_pos (hcell.2 h), if_pos h]
  · rw [if_neg (fun heq => h (hcell.1 heq)), if_neg h]
    rfl

theorem cell_push (cpu : Cpu Ram) (value : Byte) (n : Nat) :
    (cpu.push value).cell n =
      if n % 65536 = 0x0100 + cpu.sp.toNat then value.toNat else cpu.cell n := by
  have hcell : (stackCell cpu.sp).toNat = 0x0100 + cpu.sp.toNat := by
    rw [stackCell, Word.toNat_ofBytes, Nat.add_comm]
    rfl
  rw [← hcell]
  exact cell_poke cpu (stackCell cpu.sp) value n

/-- A push keeps to page one. -/
theorem cell_push_of_not_stack (cpu : Cpu Ram) (value : Byte) {n : Nat}
    (hpage : n % 65536 / 256 ≠ 1) : (cpu.push value).cell n = cpu.cell n := by
  have hsp := cpu.sp.toNat_lt
  rw [cell_push, if_neg (by omega)]

theorem toNat_sp_push (cpu : Cpu Ram) (value : Byte) :
    (cpu.push value).sp.toNat = (cpu.sp.toNat + 255) % 256 := by
  change (cpu.sp - 1).toNat = _
  rw [UInt8.toNat_sub, Nat.add_comm]
  rfl

end Nmos6502.Cpu
