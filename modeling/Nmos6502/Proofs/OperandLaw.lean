import Nmos6502.Proofs.Footprint

/-!
# The operand of each mode

`Cpu.OperandLaw` says mode by mode where a mode leads, in integers: which sum of the two
bytes behind the opcode and an index is taken, by which power of two it wraps, and when it
leads into another page.  `operandLaw_resolve` says that resolving obeys the law.

The law mentions the program counter, the index registers and a few cells, and nothing else
matters: `resolve_eq_of_operandCells` compares two processors that agree on them.  The opcode
is *not* among those cells, so a mode can be resolved that is not the mode of the instruction
at the program counter.
-/

namespace Nmos6502

/-- The operand is the cell of an address, and another page was reached under exactly this
condition. -/
def Operand.IsCell (operand : Operand) (address : Int) (crossed : Prop) : Prop :=
  ∃ a c, operand = .memory a c ∧ (a.toNat : Int) = address ∧ (c = true ↔ crossed)

namespace Operand.IsCell

variable {operand other : Operand} {m n : Int} {p q : Prop}

theorem congr (hcell : operand.IsCell m p) (hmn : m = n) (hpq : p ↔ q) :
    operand.IsCell n q := by
  obtain ⟨a, c, hoperand, haddress, hcrossed⟩ := hcell
  exact ⟨a, c, hoperand, haddress.trans hmn, hcrossed.trans hpq⟩

/-- An address and a condition leave no choice of the operand. -/
theorem unique (hcell : operand.IsCell n p) (hother : other.IsCell n p) : other = operand := by
  obtain ⟨a, c, rfl, ha, hc⟩ := hcell
  obtain ⟨b, d, rfl, hb, hd⟩ := hother
  have hab : b = a := by
    apply UInt16.toNat_inj.1
    omega
  have hcd : d = c := Bool.eq_iff_iff.2 (hd.trans hc.symm)
  rw [hab, hcd]

end Operand.IsCell

namespace Cpu

section OperandLaw

variable {M : Type} [Bus M]

/-- Where each mode leads, given the two bytes behind the opcode. -/
structure OperandLaw (cpu : Cpu M) (low high : Byte) : Prop where
  implicit : cpu.resolve .implicit = .implied
  invalid : cpu.resolve .invalid = .implied
  accumulator : cpu.resolve .accumulator = .accumulator
  immediate : cpu.resolve .immediate = .immediate low
  zeroPage : (cpu.resolve .zeroPage).IsCell low.toNat False
  zeroPageX : (cpu.resolve .zeroPageX).IsCell ((low.toNat + cpu.x.toNat) % 256) False
  zeroPageY : (cpu.resolve .zeroPageY).IsCell ((low.toNat + cpu.y.toNat) % 256) False
  absolute : (cpu.resolve .absolute).IsCell (low.toNat + 256 * high.toNat) False
  absoluteX :
    (cpu.resolve .absoluteX).IsCell ((low.toNat + 256 * high.toNat + cpu.x.toNat) % 65536)
      (256 ≤ (low.toNat + 256 * high.toNat) % 256 + cpu.x.toNat)
  absoluteY :
    (cpu.resolve .absoluteY).IsCell ((low.toNat + 256 * high.toNat + cpu.y.toNat) % 65536)
      (256 ≤ (low.toNat + 256 * high.toNat) % 256 + cpu.y.toNat)
  -- The pointer of a jump stays in its page.
  indirect :
    (cpu.resolve .indirect).IsCell
      (cpu.cell (low.toNat + 256 * high.toNat) +
        256 * cpu.cell (256 * high.toNat + (low.toNat + 1) % 256)) False
  -- The other pointers lie in page zero, and stay there.
  indirectX :
    let z := (low.toNat + cpu.x.toNat) % 256
    (cpu.resolve .indirectX).IsCell (cpu.cell z + 256 * cpu.cell ((z + 1) % 256)) False
  indirectY :
    let base := cpu.cell low.toNat + 256 * cpu.cell ((low.toNat + 1) % 256)
    (cpu.resolve .indirectY).IsCell ((base + cpu.y.toNat) % 65536)
      (256 ≤ base % 256 + cpu.y.toNat)
  relative :
    (cpu.resolve .relative).IsCell ((cpu.pc.toNat + 2 + low.signed) % 65536)
      (((cpu.pc.toNat + 2) % 256 : Int) + low.signed < 0 ∨
        255 < ((cpu.pc.toNat + 2) % 256 : Int) + low.signed)

/-- The cells that say where a mode leads: the operand bytes, and those of the pointer. -/
def operandCells (cpu : Cpu M) (mode : AddressingMode) : List Nat :=
  ((List.range mode.operandBytes).map fun k => cpu.pc.toNat + 1 + k) ++ cpu.pointerCells mode

/-! ## Resolving obeys the law -/

theorem isCell_resolve (cpu : Cpu M) {mode : AddressingMode} {address : Nat}
    (haddress : cpu.effectiveAddress mode = some address) :
    (cpu.resolve mode).IsCell address (cpu.crossesIntoPage mode = true) := by
  have hbound := cpu.effectiveAddress_lt haddress
  refine ⟨_, _, cpu.resolve_of_effectiveAddress haddress, ?_, Iff.rfl⟩
  rw [UInt16.toNat_ofNat']
  omega

/-- Where no page can be crossed, the operand is the cell of the effective address. -/
theorem isCell_resolve_of_not_crosses (cpu : Cpu M) {mode : AddressingMode} {address : Nat}
    (haddress : cpu.effectiveAddress mode = some address)
    (hcrosses : cpu.crossesIntoPage mode = false) :
    (cpu.resolve mode).IsCell address False := by
  refine (cpu.isCell_resolve haddress).congr rfl ?_
  rw [hcrosses]
  decide

/-- A pointer in page zero, cell by cell. -/
theorem zeroPageWord_eq (cpu : Cpu M) (offset : Nat) :
    cpu.zeroPageWord offset =
      cpu.cell (offset % 256) + 256 * cpu.cell ((offset + 1) % 256) := by
  rw [zeroPageWord, wordInPage, Nat.mul_zero, Nat.zero_add, Nat.zero_add]

theorem operandLaw_of_cells (cpu : Cpu M) {low high : Byte}
    (hlow : cpu.cell (cpu.pc.toNat + 1) = low.toNat)
    (hhigh : cpu.cell (cpu.pc.toNat + 2) = high.toNat) : cpu.OperandLaw low high := by
  have hlowBound := low.toNat_lt
  have hvalue : cpu.operandValue = low.toNat + 256 * high.toNat := by
    rw [operandValue, hlow, hhigh]
  have hdisplacement : cpu.displacement = low.signed := by
    rw [displacement, hlow, Byte.signed_eq]
  constructor
  case implicit => rfl
  case invalid => rfl
  case accumulator => rfl
  case immediate =>
    have hbyte : cpu.operandByte = low := by
      apply UInt8.toNat_inj.1
      rw [toNat_operandByte, hlow]
    exact congrArg Operand.immediate hbyte
  case zeroPage =>
    rw [← hlow]
    exact cpu.isCell_resolve_of_not_crosses rfl rfl
  case zeroPageX =>
    rw [← hlow]
    exact cpu.isCell_resolve_of_not_crosses rfl rfl
  case zeroPageY =>
    rw [← hlow]
    exact cpu.isCell_resolve_of_not_crosses rfl rfl
  case absolute =>
    refine (cpu.isCell_resolve_of_not_crosses rfl rfl).congr ?_ Iff.rfl
    omega
  case absoluteX =>
    refine (cpu.isCell_resolve rfl).congr ?_ ?_
    · omega
    · rw [crossesIntoPage, decide_eq_true_iff, hvalue]
  case absoluteY =>
    refine (cpu.isCell_resolve rfl).congr ?_ ?_
    · omega
    · rw [crossesIntoPage, decide_eq_true_iff, hvalue]
  case indirect =>
    refine (cpu.isCell_resolve_of_not_crosses rfl rfl).congr ?_ Iff.rfl
    rw [hlow, hhigh, wordInPage, Nat.mod_eq_of_lt hlowBound, Nat.add_comm (256 * _) low.toNat]
    rfl
  case indirectX =>
    have hz : (low.toNat + cpu.x.toNat + 1) % 256 =
        ((low.toNat + cpu.x.toNat) % 256 + 1) % 256 := by omega
    refine (cpu.isCell_resolve_of_not_crosses rfl rfl).congr ?_ Iff.rfl
    rw [hlow, zeroPageWord_eq, hz]
    rfl
  case indirectY =>
    have hbase : cpu.zeroPageWord (cpu.cell (cpu.pc.toNat + 1)) =
        cpu.cell low.toNat + 256 * cpu.cell ((low.toNat + 1) % 256) := by
      rw [hlow, zeroPageWord_eq, Nat.mod_eq_of_lt hlowBound]
    refine (cpu.isCell_resolve rfl).congr ?_ ?_
    · rw [hbase]
      rfl
    · rw [crossesIntoPage, decide_eq_true_iff, hbase]
  case relative =>
    refine (cpu.isCell_resolve rfl).congr ?_ ?_
    · rw [hdisplacement]
      omega
    · rw [crossesIntoPage, decide_eq_true_iff, hdisplacement]
      omega

theorem operandLaw_resolve (cpu : Cpu M) :
    cpu.OperandLaw (Bus.read cpu.memory (cpu.pc + 1)) (Bus.read cpu.memory (cpu.pc + 2)) := by
  have hnext : cpu.pc + 2 = cpu.pc + 1 + 1 := (UInt16.add_assoc cpu.pc 1 1).symm
  rw [hnext]
  exact cpu.operandLaw_of_cells cpu.toNat_operandByte.symm cpu.toNat_operandHighByte.symm

/-! ## Nothing else matters -/

/-- A mode leads to the same operand if the program counter, the index registers and the cells
that say where it leads are the same. -/
theorem resolve_eq_of_operandCells {s t : Cpu M} {mode : AddressingMode} (hpc : t.pc = s.pc)
    (hx : t.x = s.x) (hy : t.y = s.y) (hcells : ∀ a ∈ s.operandCells mode, t.cell a = s.cell a) :
    t.resolve mode = s.resolve mode := by
  -- The other registers of `t` go unnoticed, so they may as well be those of `s`.
  have hregisters : t.resolve mode = (s.wiredTo t.memory).resolve mode := by
    obtain ⟨⟨a, x, y, sp, status⟩, pc, cycles, memory⟩ := t
    subst hpc hx hy
    cases mode <;> rfl
  rw [hregisters]
  apply resolve_wiredTo
  · intro k hk
    apply hcells
    apply List.mem_append_left
    exact List.mem_map.2 ⟨k, List.mem_range.2 hk, rfl⟩
  · intro a ha
    exact hcells a (List.mem_append_right _ ha)

/-- The operand bytes are those that decoding reports. -/
theorem operands_decode_eq_take (cpu : Cpu M) :
    let i := Instruction.decode cpu.memory cpu.pc
    i.operands =
      [Bus.read cpu.memory (cpu.pc + 1), Bus.read cpu.memory (cpu.pc + 2)].take
        i.mode.operandBytes := by
  have hnext : cpu.pc + 2 = cpu.pc + 1 + 1 := (UInt16.add_assoc cpu.pc 1 1).symm
  intro i
  cases hlookup : Encoding.lookup (Bus.read cpu.memory cpu.pc) with
  | none =>
      have hi : i.operands = [] ∧ i.mode = .invalid := by
        simp only [i, Instruction.decode, hlookup, and_self]
      rw [hi.1, hi.2]
      rfl
  | some e =>
      have hi : i = _ := Instruction.decode_of_lookup hlookup
      rw [hi, hnext]
      change Bus.readBytes cpu.memory (cpu.pc + 1) e.mode.operandBytes = _
      cases e.mode <;> rfl

/-- Every mode is resolved by integer arithmetic on the operand bytes that decoding reports,
and nothing matters for it but the program counter, the index registers and the cells of
those bytes and of the pointer. -/
theorem resolve_is_address_arithmetic (cpu : Cpu M) :
    let low := Bus.read cpu.memory (cpu.pc + 1)
    let high := Bus.read cpu.memory (cpu.pc + 2)
    let i := Instruction.decode cpu.memory cpu.pc
    i.operands = [low, high].take i.mode.operandBytes ∧
    cpu.OperandLaw low high ∧
    ∀ mode (other : Cpu M), other.pc = cpu.pc → other.x = cpu.x → other.y = cpu.y →
      (∀ a ∈ cpu.operandCells mode, other.cell a = cpu.cell a) →
      other.resolve mode = cpu.resolve mode := by
  refine ⟨cpu.operands_decode_eq_take, cpu.operandLaw_resolve, ?_⟩
  intro mode other hpc hx hy hcells
  exact resolve_eq_of_operandCells hpc hx hy hcells

end OperandLaw

/-- The cluttered load, with other registers that no mode looks at, and with an undocumented
opcode in place of its own. -/
def clutteredRest : Cpu Ram :=
  { clutteredLoad.poke 0xFFFF 0x02 with a := 0x55, sp := 0x03, status := .all, cycles := 9 }

/-- A pointer that wraps in page zero leads around the end of the address space into page
zero, whatever else there is. -/
theorem resolve_clutteredRest :
    clutteredRest.pc = wrappedLoad.pc ∧ clutteredRest.x = wrappedLoad.x ∧
    clutteredRest.y = wrappedLoad.y ∧
    (∀ a ∈ wrappedLoad.operandCells .indirectY, clutteredRest.cell a = wrappedLoad.cell a) ∧
    (Instruction.decode wrappedLoad.memory wrappedLoad.pc).operands = [0xFF] ∧
    clutteredRest.resolve .indirectY = .memory 0x0010 true := by
  have hcells : ∀ a ∈ wrappedLoad.operandCells .indirectY,
      clutteredRest.cell a = wrappedLoad.cell a := by decide +kernel
  obtain ⟨hoperands, hlaw, hrest⟩ := resolve_is_address_arithmetic wrappedLoad
  refine ⟨rfl, rfl, rfl, hcells, ?_, ?_⟩
  · rw [hoperands]
    decide +kernel
  · rw [hrest .indirectY clutteredRest rfl rfl rfl hcells]
    have hcell := hlaw.indirectY
    exact (hcell.unique ⟨0x0010, true, rfl, by decide +kernel, by decide +kernel⟩).symm

end Cpu

end Nmos6502
