import Nmos6502.Cpu.Stack
import Nmos6502.Cpu.Operand
import Nmos6502.Proofs.Arithmetic

/-!
# Effective addresses as integers

The machine finds the operand of an instruction with bytes and words that wrap.
Here the same addresses are computed with numbers: every sum is written out with
the remainder that it is taken by, and a page is crossed when a sum of low bytes
carries.  `resolve_of_effectiveAddress` says that both ways lead to the same cell,
and `toNat_readOperand` that they select the same byte.

Nothing here writes, so all of it holds on every bus, and *not* only where a cell
keeps what is written to it.
-/

namespace Nmos6502

/-- Bytes as digits of base 256, the lowest first. -/
def littleEndian : List Byte → Nat
  | [] => 0
  | b :: bytes => b.toNat + 256 * littleEndian bytes

/-- Whether the operand of a mode lies at an address. -/
def AddressingMode.hasAddress : AddressingMode → Bool
  | .implicit | .accumulator | .immediate | .invalid => false
  | .zeroPage | .zeroPageX | .zeroPageY | .relative | .absolute | .absoluteX | .absoluteY |
    .indirect | .indirectX | .indirectY => true

theorem Word.eq_ofNat {w : Word} {n : Nat} (h : w.toNat = n) : w = UInt16.ofNat n := by
  rw [← h, UInt16.ofNat_toNat]

theorem toNat_zeroPageAddress (offset : Byte) :
    (Word.ofBytes offset 0).toNat = offset.toNat := by
  rw [Word.toNat_ofBytes, UInt8.toNat_zero, Nat.mul_zero, Nat.add_zero]

namespace Cpu

variable {M : Type} [Bus M]

/-- The byte that an address answers with, as a number.  Addresses run on from zero
behind the last one. -/
def cell (cpu : Cpu M) (address : Nat) : Nat :=
  (Bus.read cpu.memory (UInt16.ofNat address)).toNat

/-- The two operand bytes as one number. -/
def operandValue (cpu : Cpu M) : Nat :=
  cpu.cell (cpu.pc.toNat + 1) + 256 * cpu.cell (cpu.pc.toNat + 2)

/-- The word at an offset of a page, when neither of its cells leaves the page. -/
def wordInPage (cpu : Cpu M) (page offset : Nat) : Nat :=
  cpu.cell (256 * page + offset % 256) + 256 * cpu.cell (256 * page + (offset + 1) % 256)

/-- The word that a one-byte pointer points to. -/
def zeroPageWord (cpu : Cpu M) (offset : Nat) : Nat := cpu.wordInPage 0 offset

/-- The byte behind the opcode in two's complement. -/
def displacement (cpu : Cpu M) : Int := signedValue (cpu.cell (cpu.pc.toNat + 1))

/-- The address of the operand, for the modes that have one. -/
def effectiveAddress (cpu : Cpu M) : AddressingMode → Option Nat
  | .implicit | .accumulator | .immediate | .invalid => none
  | .zeroPage => some (cpu.cell (cpu.pc.toNat + 1))
  | .zeroPageX => some ((cpu.cell (cpu.pc.toNat + 1) + cpu.x.toNat) % 256)
  | .zeroPageY => some ((cpu.cell (cpu.pc.toNat + 1) + cpu.y.toNat) % 256)
  | .relative => some ((cpu.pc.toNat + 2 + cpu.displacement) % 65536).toNat
  | .absolute => some cpu.operandValue
  | .absoluteX => some ((cpu.operandValue + cpu.x.toNat) % 65536)
  | .absoluteY => some ((cpu.operandValue + cpu.y.toNat) % 65536)
  | .indirect =>
      some (cpu.wordInPage (cpu.cell (cpu.pc.toNat + 2)) (cpu.cell (cpu.pc.toNat + 1)))
  | .indirectX => some (cpu.zeroPageWord (cpu.cell (cpu.pc.toNat + 1) + cpu.x.toNat))
  | .indirectY =>
      some ((cpu.zeroPageWord (cpu.cell (cpu.pc.toNat + 1)) + cpu.y.toNat) % 65536)

/-- Whether the last sum of the address carried out of its low byte; a displacement
may also borrow. -/
def crossesIntoPage (cpu : Cpu M) : AddressingMode → Bool
  | .absoluteX => decide (256 ≤ cpu.operandValue % 256 + cpu.x.toNat)
  | .absoluteY => decide (256 ≤ cpu.operandValue % 256 + cpu.y.toNat)
  | .indirectY =>
      decide (256 ≤ cpu.zeroPageWord (cpu.cell (cpu.pc.toNat + 1)) % 256 + cpu.y.toNat)
  | .relative =>
      decide (((cpu.pc.toNat + 2) % 256 : Nat) + cpu.displacement < 0 ∨
        256 ≤ ((cpu.pc.toNat + 2) % 256 : Nat) + cpu.displacement)
  | .implicit | .accumulator | .immediate | .zeroPage | .zeroPageX | .zeroPageY |
    .absolute | .indirect | .indirectX | .invalid => false

/-- The byte that a mode selects; zero if it selects none. -/
def selected (cpu : Cpu M) (mode : AddressingMode) : Nat :=
  match mode, cpu.effectiveAddress mode with
  | .immediate, _ => cpu.cell (cpu.pc.toNat + 1)
  | .accumulator, _ => cpu.a.toNat
  | _, some address => cpu.cell address
  | _, none => 0

/-! ## Cells -/

theorem toNat_read (cpu : Cpu M) (address : Word) :
    (Bus.read cpu.memory address).toNat = cpu.cell address.toNat := by
  rw [cell, UInt16.ofNat_toNat]

theorem cell_lt (cpu : Cpu M) (address : Nat) : cpu.cell address < 256 :=
  UInt8.toNat_lt _

/-- A cell is known by its address modulo the size of the address space. -/
theorem cell_congr (cpu : Cpu M) {a b : Nat} (h : a % 65536 = b % 65536) :
    cpu.cell a = cpu.cell b := by
  have hword : UInt16.ofNat a = UInt16.ofNat b := by
    apply UInt16.toNat_inj.1
    rw [UInt16.toNat_ofNat', UInt16.toNat_ofNat']
    exact h
  rw [cell, cell, hword]

theorem toNat_read_stackCell (cpu : Cpu M) (sp : Byte) :
    (Bus.read cpu.memory (stackCell sp)).toNat = cpu.cell (0x0100 + sp.toNat) := by
  rw [toNat_read, stackCell, Word.toNat_ofBytes]
  exact cell_congr cpu (by simp; omega)

theorem wordInPage_lt (cpu : Cpu M) (page offset : Nat) :
    cpu.wordInPage page offset < 65536 := by
  have hlow := cpu.cell_lt (256 * page + offset % 256)
  have hhigh := cpu.cell_lt (256 * page + (offset + 1) % 256)
  rw [wordInPage]
  omega

/-! ## Operand bytes and pointers -/

theorem toNat_operandByte (cpu : Cpu M) :
    cpu.operandByte.toNat = cpu.cell (cpu.pc.toNat + 1) := by
  rw [operandByte, toNat_read]
  exact cell_congr cpu (by simp [UInt16.toNat_add])

theorem signed_operandByte (cpu : Cpu M) :
    cpu.operandByte.signed = cpu.displacement := by
  rw [Byte.signed_eq, toNat_operandByte, displacement]

theorem toNat_operandHighByte (cpu : Cpu M) :
    (Bus.read cpu.memory (cpu.pc + 1 + 1)).toNat = cpu.cell (cpu.pc.toNat + 2) := by
  rw [toNat_read]
  exact cell_congr cpu (by simp [UInt16.toNat_add])

theorem toNat_operandWord (cpu : Cpu M) : cpu.operandWord.toNat = cpu.operandValue := by
  rw [operandWord, Bus.readWord, Word.toNat_ofBytes, toNat_operandHighByte, operandValue,
    ← toNat_operandByte]
  rfl

theorem operandValue_lt (cpu : Cpu M) : cpu.operandValue < 65536 := by
  rw [← toNat_operandWord]
  exact cpu.operandWord.toNat_lt

theorem toNat_readPointer (cpu : Cpu M) (page offset : Byte) :
    (Bus.readPointer cpu.memory page offset).toNat =
      cpu.wordInPage page.toNat offset.toNat := by
  have hoffset := offset.toNat_lt
  rw [Bus.readPointer, Word.toNat_ofBytes, toNat_read, toNat_read, wordInPage,
    Word.toNat_ofBytes, Word.toNat_ofBytes, UInt8.toNat_add]
  congr 1
  · exact cell_congr cpu (by omega)
  · exact congrArg _ (cell_congr cpu (by simp; omega))

theorem wordInPage_mod (cpu : Cpu M) (page offset : Nat) :
    cpu.wordInPage page (offset % 256) = cpu.wordInPage page offset := by
  have hnext : (offset % 256 + 1) % 256 = (offset + 1) % 256 := by omega
  rw [wordInPage, wordInPage, Nat.mod_mod, hnext]

end Cpu

/-! ## Sums of addresses -/

/-- An index moves an address up; a page is crossed when the low bytes carry. -/
theorem Operand.indexed_eq (base : Word) (index : Byte) :
    Operand.indexed base index =
      .memory (UInt16.ofNat ((base.toNat + index.toNat) % 65536))
        (decide (256 ≤ base.toNat % 256 + index.toNat)) := by
  have hbase := base.toNat_lt
  have hindex := index.toNat_lt
  have hsum : base + index.toUInt16 = UInt16.ofNat ((base.toNat + index.toNat) % 65536) := by
    apply UInt16.toNat_inj.1
    simp [UInt16.toNat_add]
  have hpage : Word.crossesPage base (base + index.toUInt16) =
      decide (256 ≤ base.toNat % 256 + index.toNat) := by
    have hne : (base.high != (base + index.toUInt16).high) = true ↔
        base.toNat / 256 ≠ (base + index.toUInt16).toNat / 256 := by
      rw [bne_iff_ne, ne_eq, ← UInt8.toNat_inj, Word.toNat_high, Word.toNat_high]
    rw [Word.crossesPage, Bool.eq_iff_iff, hne, decide_eq_true_iff]
    simp only [UInt16.toNat_add, UInt8.toNat_toUInt16]
    omega
  change Operand.memory (base + index.toUInt16)
    (Word.crossesPage base (base + index.toUInt16)) = _
  rw [hpage, hsum]

/-- A displacement moves an address either way; a page is crossed when the low byte
leaves its range. -/
theorem Operand.displaced_eq (base : Word) (displacement : Byte) :
    Operand.displaced base displacement =
      .memory (UInt16.ofNat (((base.toNat : Int) + displacement.signed) % 65536).toNat)
        (decide ((base.toNat % 256 : Nat) + displacement.signed < 0 ∨
          256 ≤ (base.toNat % 256 : Nat) + displacement.signed)) := by
  have hbase := base.toNat_lt
  have hlower := displacement.neg_128_le_signed
  have hupper := displacement.signed_lt_128
  have hmoved := Word.toNat_displace base displacement
  have hsum : base.displace displacement =
      UInt16.ofNat (((base.toNat : Int) + displacement.signed) % 65536).toNat := by
    apply UInt16.toNat_inj.1
    rw [UInt16.toNat_ofNat', ← hmoved]
    have hbound := (base.displace displacement).toNat_lt
    omega
  have hpage : Word.crossesPage base (base.displace displacement) =
      decide ((base.toNat % 256 : Nat) + displacement.signed < 0 ∨
        256 ≤ (base.toNat % 256 : Nat) + displacement.signed) := by
    have hne : (base.high != (base.displace displacement).high) = true ↔
        base.toNat / 256 ≠ (base.displace displacement).toNat / 256 := by
      rw [bne_iff_ne, ne_eq, ← UInt8.toNat_inj, Word.toNat_high, Word.toNat_high]
    rw [Word.crossesPage, Bool.eq_iff_iff, hne, decide_eq_true_iff]
    omega
  change Operand.memory (base.displace displacement)
    (Word.crossesPage base (base.displace displacement)) = _
  rw [hpage, hsum]

namespace Cpu

variable {M : Type} [Bus M]

/-- Where the two pointers of a mode lie, as bytes. -/
theorem toNat_operandPointer (cpu : Cpu M) :
    (Bus.readPointer cpu.memory cpu.operandWord.high cpu.operandWord.low).toNat =
      cpu.wordInPage (cpu.cell (cpu.pc.toNat + 2)) (cpu.cell (cpu.pc.toNat + 1)) := by
  have hlow := cpu.cell_lt (cpu.pc.toNat + 1)
  have hhigh := cpu.cell_lt (cpu.pc.toNat + 2)
  rw [toNat_readPointer, Word.toNat_high, Word.toNat_low, toNat_operandWord, operandValue]
  congr 1 <;> omega

theorem toNat_zeroPagePointer (cpu : Cpu M) (offset : Byte) :
    (Bus.readPointer cpu.memory 0 offset).toNat = cpu.zeroPageWord offset.toNat :=
  toNat_readPointer cpu 0 offset

/-- Resolving a mode finds the effective address. -/
theorem resolve_of_effectiveAddress (cpu : Cpu M) {mode : AddressingMode} {address : Nat}
    (haddress : cpu.effectiveAddress mode = some address) :
    cpu.resolve mode = .memory (UInt16.ofNat address) (cpu.crossesIntoPage mode) := by
  cases mode with
  | implicit | accumulator | immediate | invalid => cases haddress
  | zeroPage =>
      obtain rfl := Option.some.inj haddress
      rw [resolve, crossesIntoPage, Word.eq_ofNat (toNat_zeroPageAddress cpu.operandByte),
        toNat_operandByte]
  | zeroPageX =>
      obtain rfl := Option.some.inj haddress
      rw [resolve, crossesIntoPage, Word.eq_ofNat (toNat_zeroPageAddress _),
        UInt8.toNat_add, toNat_operandByte]
  | zeroPageY =>
      obtain rfl := Option.some.inj haddress
      rw [resolve, crossesIntoPage, Word.eq_ofNat (toNat_zeroPageAddress _),
        UInt8.toNat_add, toNat_operandByte]
  | relative =>
      obtain rfl := Option.some.inj haddress
      have hnext : (cpu.pc + 2).toNat = (cpu.pc.toNat + 2) % 65536 := UInt16.toNat_add ..
      have hlow : (cpu.pc.toNat + 2) % 65536 % 256 = (cpu.pc.toNat + 2) % 256 := by omega
      have hsum : (((cpu.pc.toNat + 2) % 65536 : Nat) + cpu.displacement) % 65536 =
          (cpu.pc.toNat + 2 + cpu.displacement) % 65536 := by omega
      rw [resolve, Operand.displaced_eq, signed_operandByte, crossesIntoPage, hnext, hlow, hsum]
  | absolute =>
      obtain rfl := Option.some.inj haddress
      rw [resolve, crossesIntoPage, ← toNat_operandWord, UInt16.ofNat_toNat]
  | absoluteX =>
      obtain rfl := Option.some.inj haddress
      rw [resolve, Operand.indexed_eq, crossesIntoPage, toNat_operandWord]
  | absoluteY =>
      obtain rfl := Option.some.inj haddress
      rw [resolve, Operand.indexed_eq, crossesIntoPage, toNat_operandWord]
  | indirect =>
      obtain rfl := Option.some.inj haddress
      rw [resolve, crossesIntoPage, ← Word.eq_ofNat (toNat_operandPointer cpu)]
  | indirectX =>
      obtain rfl := Option.some.inj haddress
      rw [resolve, crossesIntoPage, Word.eq_ofNat (toNat_zeroPagePointer cpu _),
        UInt8.toNat_add, toNat_operandByte, zeroPageWord, zeroPageWord, wordInPage_mod]
  | indirectY =>
      obtain rfl := Option.some.inj haddress
      rw [resolve, Operand.indexed_eq, crossesIntoPage, toNat_zeroPagePointer,
        toNat_operandByte]

/-- Resolving a mode without an effective address looks at no cell but the operand. -/
theorem resolve_of_effectiveAddress_eq_none (cpu : Cpu M) {mode : AddressingMode}
    (hnone : cpu.effectiveAddress mode = none) :
    cpu.resolve mode = match mode with
      | .immediate => .immediate cpu.operandByte
      | .accumulator => .accumulator
      | _ => .implied := by
  cases mode with
  | implicit | accumulator | immediate | invalid => rfl
  | zeroPage | zeroPageX | zeroPageY | relative | absolute | absoluteX | absoluteY |
    indirect | indirectX | indirectY => cases hnone

theorem effectiveAddress_lt (cpu : Cpu M) {mode : AddressingMode} {address : Nat}
    (haddress : cpu.effectiveAddress mode = some address) : address < 65536 := by
  have hbyte := cpu.cell_lt (cpu.pc.toNat + 1)
  have hword := cpu.operandValue_lt
  cases mode with
  | implicit | accumulator | immediate | invalid => cases haddress
  | indirect | indirectX =>
      obtain rfl := Option.some.inj haddress
      exact cpu.wordInPage_lt _ _
  | zeroPage | zeroPageX | zeroPageY | relative | absolute | absoluteX | absoluteY |
    indirectY =>
      obtain rfl := Option.some.inj haddress
      omega

/-- Each mode whose operand is a cell has an effective address. -/
theorem exists_effectiveAddress (cpu : Cpu M) {mode : AddressingMode}
    (hmode : mode.hasAddress = true) : ∃ address, cpu.effectiveAddress mode = some address := by
  cases mode with
  | implicit | accumulator | immediate | invalid => cases hmode
  | zeroPage | zeroPageX | zeroPageY | relative | absolute | absoluteX | absoluteY |
    indirect | indirectX | indirectY => exact ⟨_, rfl⟩

/-- A mode with an effective address selects the byte there. -/
theorem selected_of_effectiveAddress (cpu : Cpu M) {mode : AddressingMode} {address : Nat}
    (haddress : cpu.effectiveAddress mode = some address) :
    cpu.selected mode = cpu.cell address := by
  cases mode with
  | implicit | accumulator | immediate | invalid => cases haddress
  | zeroPage | zeroPageX | zeroPageY | relative | absolute | absoluteX | absoluteY |
    indirect | indirectX | indirectY => simp only [selected, haddress]

/-- The byte that is read for a mode is the byte that the mode selects. -/
theorem toNat_readOperand (cpu : Cpu M) (mode : AddressingMode) :
    (cpu.readOperand (cpu.resolve mode)).toNat = cpu.selected mode := by
  cases haddress : cpu.effectiveAddress mode with
  | some address =>
      rw [resolve_of_effectiveAddress cpu haddress, selected_of_effectiveAddress cpu haddress]
      rfl
  | none =>
      cases mode with
      | implicit | invalid => rfl
      | accumulator => rfl
      | immediate => exact toNat_operandByte cpu
      | zeroPage | zeroPageX | zeroPageY | relative | absolute | absoluteX | absoluteY |
        indirect | indirectX | indirectY => cases haddress

/-- Reading an operand costs a cycle more exactly when its address crosses a page. -/
theorem penalty_resolve (cpu : Cpu M) (mode : AddressingMode) :
    (cpu.resolve mode).penalty = (cpu.crossesIntoPage mode).toNat := by
  cases haddress : cpu.effectiveAddress mode with
  | some address =>
      rw [resolve_of_effectiveAddress cpu haddress]
      cases cpu.crossesIntoPage mode <;> rfl
  | none =>
      cases mode with
      | implicit | accumulator | immediate | invalid => rfl
      | zeroPage | zeroPageX | zeroPageY | relative | absolute | absoluteX | absoluteY |
        indirect | indirectX | indirectY => cases haddress

end Cpu

end Nmos6502
