import Nmos6502.Proofs.Counter
import Nmos6502.Proofs.Rewiring
import Nmos6502.Proofs.StackList

/-!
# The footprint of a step

A step is meant to read a few cells only: the bytes of the instruction, the pointer that its
mode goes through, the operand if the instruction takes one in, the bytes that it pulls, and
the vector of an interrupt.  `Cpu.footprint` lists them, for the state before the step.  Two
processors that agree on those cells take the same step, whatever the other cells hold.

A footprint says nothing of the cells that are *written*.  They are the same in both, too,
and so each cell is either left alone in both or holds the same byte in both afterwards.
-/

namespace Nmos6502

namespace Mnemonic

/-- Whether the instruction takes in the byte of its operand. -/
def takesOperand (m : Mnemonic) : Bool := m.readsOperand || m.rewritesOperand

/-- Whether the instruction writes to its operand or goes to it without a look at it. -/
def onlyNamesTarget (m : Mnemonic) : Bool :=
  match m with
  | .sta | .stx | .sty | .jmp | .jsr => true
  | _ => m.branchFlag.isSome

theorem takesOperand_of_operation_read {m : Mnemonic} {use : Registers → Byte → Registers}
    (hoperation : m.operation = .read use) : m.takesOperand = true := by
  cases m with
  | lda | ldx | ldy | adc | sbc | and | ora | eor | bit | cmp | cpx | cpy => rfl
  | _ => cases hoperation

theorem takesOperand_of_operation_modify {m : Mnemonic}
    {change : Status → Byte → Byte × Status} (hoperation : m.operation = .modify change) :
    m.takesOperand = true := by
  rw [takesOperand, rewritesOperand_of_operation hoperation, Bool.or_true]

end Mnemonic

namespace Cpu

/-! ## The cells that a step reads -/

section Cells

variable {M : Type} [Bus M]

/-- The cells that hold an instruction of the given size. -/
def codeCells (cpu : Cpu M) (size : Nat) : List Nat :=
  (List.range size).map fun k => (cpu.pc.toNat + k) % 65536

/-- The two cells of a word in a page, which it does not leave. -/
def cellsInPage (page offset : Nat) : List Nat :=
  [256 * page + offset % 256, 256 * page + (offset + 1) % 256]

/-- The cells of the pointer that a mode goes through. -/
def pointerCells (cpu : Cpu M) : AddressingMode → List Nat
  | .indirect => cellsInPage (cpu.cell (cpu.pc.toNat + 2)) (cpu.cell (cpu.pc.toNat + 1))
  | .indirectX => cellsInPage 0 (cpu.cell (cpu.pc.toNat + 1) + cpu.x.toNat)
  | .indirectY => cellsInPage 0 (cpu.cell (cpu.pc.toNat + 1))
  | _ => []

/-- The cells of the bytes that an instruction takes in, from its operand, from the stack or
from the vector of interrupts. -/
def dataCells (cpu : Cpu M) (m : Mnemonic) (mode : AddressingMode) : List Nat :=
  if m.takesOperand then (cpu.effectiveAddress mode).toList
  else if m = .brk then [0xFFFE, 0xFFFF]
  else (List.range m.pullCount).map fun k => 0x0100 + (cpu.sp.toNat + (k + 1)) % 256

/-- The cells that the next step reads. -/
def footprint (cpu : Cpu M) : List Nat :=
  let i := Instruction.decode cpu.memory cpu.pc
  cpu.codeCells i.size ++ cpu.pointerCells i.mode ++
    match i.mnemonic with
    | none => []
    | some m => cpu.dataCells m i.mode

theorem footprint_of_lookup {cpu : Cpu M} {e : Encoding}
    (hlookup : Encoding.lookup cpu.opcode = some e) :
    cpu.footprint = cpu.codeCells e.mode.length ++ cpu.pointerCells e.mode ++
      cpu.dataCells e.mnemonic e.mode := by
  rw [footprint, Instruction.decode_of_lookup hlookup]
  rfl

theorem dataCells_of_pullCount (cpu : Cpu M) {m : Mnemonic} (mode : AddressingMode)
    (hpulls : 0 < m.pullCount) :
    cpu.dataCells m mode =
      (List.range m.pullCount).map fun k => 0x0100 + (cpu.sp.toNat + (k + 1)) % 256 := by
  cases m with
  | pla | plp | rts | rti => rfl
  | _ => cases hpulls

theorem dataCells_of_onlyNamesTarget (cpu : Cpu M) {m : Mnemonic} (mode : AddressingMode)
    (honly : m.onlyNamesTarget = true) : cpu.dataCells m mode = [] := by
  cases m with
  | sta | stx | sty | jmp | jsr | bpl | bmi | bvc | bvs | bcc | bcs | bne | beq => rfl
  | _ => cases honly

theorem footprint_of_onlyNamesTarget {cpu : Cpu M} {m : Mnemonic}
    (hmnemonic : cpu.mnemonic = some m) (honly : m.onlyNamesTarget = true) :
    let i := Instruction.decode cpu.memory cpu.pc
    cpu.footprint = cpu.codeCells i.size ++ cpu.pointerCells i.mode := by
  rw [mnemonic] at hmnemonic
  simp only [footprint, hmnemonic, cpu.dataCells_of_onlyNamesTarget _ honly, List.append_nil]

theorem pc_mem_footprint (cpu : Cpu M) : cpu.pc.toNat % 65536 ∈ cpu.footprint := by
  obtain ⟨hsize, -⟩ := (Instruction.decode cpu.memory cpu.pc).mode.length_bounds
  apply List.mem_append_left
  apply List.mem_append_left
  exact List.mem_map.2 ⟨0, List.mem_range.2 hsize, rfl⟩

/-- The cells of the instruction and of its pointer are addresses. -/
theorem lt_of_mem_codeCells_or_pointerCells (cpu : Cpu M) {mode : AddressingMode} {size n : Nat}
    (hmem : n ∈ cpu.codeCells size ++ cpu.pointerCells mode) : n < 65536 := by
  have hhigh := cpu.cell_lt (cpu.pc.toNat + 2)
  rcases List.mem_append.1 hmem with hcode | hpointer
  · obtain ⟨k, -, rfl⟩ := List.mem_map.1 hcode
    exact Nat.mod_lt _ (by decide)
  · cases mode with
    | indirect | indirectX | indirectY =>
        simp only [pointerCells, cellsInPage, List.mem_cons, List.not_mem_nil, or_false]
          at hpointer
        omega
    | _ => cases hpointer

end Cells

/-! ## Cells that agree are read alike -/

section Wired

variable {M N : Type} [Bus M] [Bus N] {cpu : Cpu M} {n : N}

theorem opcode_wiredTo
    (hcell : (cpu.wiredTo n).cell (cpu.pc.toNat % 65536) = cpu.cell (cpu.pc.toNat % 65536)) :
    (cpu.wiredTo n).opcode = cpu.opcode := by
  rw [Nat.mod_eq_of_lt cpu.pc.toNat_lt] at hcell
  apply UInt8.toNat_inj.1
  rw [opcode, opcode, toNat_read, toNat_read]
  exact hcell

theorem operandByte_wiredTo
    (hlow : (cpu.wiredTo n).cell (cpu.pc.toNat + 1) = cpu.cell (cpu.pc.toNat + 1)) :
    (cpu.wiredTo n).operandByte = cpu.operandByte := by
  apply UInt8.toNat_inj.1
  rw [toNat_operandByte, toNat_operandByte]
  exact hlow

theorem operandWord_wiredTo
    (hlow : (cpu.wiredTo n).cell (cpu.pc.toNat + 1) = cpu.cell (cpu.pc.toNat + 1))
    (hhigh : (cpu.wiredTo n).cell (cpu.pc.toNat + 2) = cpu.cell (cpu.pc.toNat + 2)) :
    (cpu.wiredTo n).operandWord = cpu.operandWord := by
  apply UInt16.toNat_inj.1
  rw [toNat_operandWord, toNat_operandWord, operandValue, operandValue, ← hlow, ← hhigh]
  rfl

theorem wordInPage_wiredTo {page offset : Nat}
    (hcells : ∀ a ∈ cellsInPage page offset, (cpu.wiredTo n).cell a = cpu.cell a) :
    (cpu.wiredTo n).wordInPage page offset = cpu.wordInPage page offset := by
  rw [wordInPage, wordInPage, hcells _ (by simp [cellsInPage]),
    hcells _ (by simp [cellsInPage])]

theorem zeroPagePointer_wiredTo {offset : Byte} {k : Nat} (hoffset : offset.toNat = k % 256)
    (hcells : ∀ a ∈ cellsInPage 0 k, (cpu.wiredTo n).cell a = cpu.cell a) :
    Bus.readPointer n 0 offset = Bus.readPointer cpu.memory 0 offset := by
  have hwired : (Bus.readPointer n 0 offset).toNat = _ :=
    (cpu.wiredTo n).toNat_zeroPagePointer offset
  apply UInt16.toNat_inj.1
  rw [hwired, toNat_zeroPagePointer, hoffset, zeroPageWord, zeroPageWord, wordInPage_mod,
    wordInPage_mod, wordInPage_wiredTo hcells]

/-- A mode leads to the same operand if the operand bytes and the pointer are the same. -/
theorem resolve_wiredTo {mode : AddressingMode}
    (hcode : ∀ k < mode.operandBytes,
      (cpu.wiredTo n).cell (cpu.pc.toNat + 1 + k) = cpu.cell (cpu.pc.toNat + 1 + k))
    (hpointer : ∀ a ∈ cpu.pointerCells mode, (cpu.wiredTo n).cell a = cpu.cell a) :
    (cpu.wiredTo n).resolve mode = cpu.resolve mode := by
  have hbyte : 0 < mode.operandBytes → (cpu.wiredTo n).operandByte = cpu.operandByte :=
    fun h => operandByte_wiredTo (hcode 0 h)
  have hword : 1 < mode.operandBytes → (cpu.wiredTo n).operandWord = cpu.operandWord :=
    fun h => operandWord_wiredTo (hcode 0 (Nat.lt_of_succ_lt h)) (hcode 1 h)
  cases mode with
  | implicit | accumulator | invalid => rfl
  | immediate | zeroPage => simp only [resolve, hbyte (by decide)]
  | zeroPageX | zeroPageY | relative =>
      simp only [resolve, hbyte (by decide)]
      rfl
  | absolute => simp only [resolve, hword (by decide)]
  | absoluteX | absoluteY =>
      simp only [resolve, hword (by decide)]
      rfl
  | indirect =>
      have hlow : (cpu.wiredTo n).cell (cpu.pc.toNat + 1) = _ := hcode 0 (by decide)
      have hhigh : (cpu.wiredTo n).cell (cpu.pc.toNat + 2) = _ := hcode 1 (by decide)
      have hpair := (cpu.wiredTo n).toNat_operandPointer
      change _ = (cpu.wiredTo n).wordInPage ((cpu.wiredTo n).cell (cpu.pc.toNat + 2))
        ((cpu.wiredTo n).cell (cpu.pc.toNat + 1)) at hpair
      rw [hlow, hhigh, wordInPage_wiredTo hpointer, ← toNat_operandPointer] at hpair
      exact congrArg (Operand.memory · false) (UInt16.toNat_inj.1 hpair)
  | indirectX =>
      have hoffset : (cpu.operandByte + cpu.x).toNat =
          (cpu.cell (cpu.pc.toNat + 1) + cpu.x.toNat) % 256 := by
        rw [UInt8.toNat_add, toNat_operandByte]
      simp only [resolve, hbyte (by decide)]
      exact congrArg (Operand.memory · false) (zeroPagePointer_wiredTo hoffset hpointer)
  | indirectY =>
      have hoffset : cpu.operandByte.toNat = cpu.cell (cpu.pc.toNat + 1) % 256 := by
        rw [Nat.mod_eq_of_lt (cpu.cell_lt _), toNat_operandByte]
      simp only [resolve, hbyte (by decide)]
      exact congrArg (Operand.indexed · cpu.y) (zeroPagePointer_wiredTo hoffset hpointer)

theorem readOperand_wiredTo {mode : AddressingMode}
    (hcell : ∀ a ∈ cpu.effectiveAddress mode, (cpu.wiredTo n).cell a = cpu.cell a) :
    (cpu.wiredTo n).readOperand (cpu.resolve mode) = cpu.readOperand (cpu.resolve mode) := by
  cases haddress : cpu.effectiveAddress mode with
  | none =>
      rw [cpu.resolve_of_effectiveAddress_eq_none haddress]
      cases mode <;> rfl
  | some a =>
      rw [cpu.resolve_of_effectiveAddress haddress]
      exact UInt8.toNat_inj.1 (hcell a haddress)

theorem pull_wiredTo (hbyte : (cpu.wiredTo n).stackByte 1 = cpu.stackByte 1) :
    (cpu.wiredTo n).pull.1 = cpu.pull.1 := by
  apply UInt8.toNat_inj.1
  rw [toNat_pull, toNat_pull]
  exact hbyte

theorem pullWord_wiredTo (hlow : (cpu.wiredTo n).stackByte 1 = cpu.stackByte 1)
    (hhigh : (cpu.wiredTo n).stackByte 2 = cpu.stackByte 2) :
    (cpu.wiredTo n).pullWord.1 = cpu.pullWord.1 := by
  apply UInt16.toNat_inj.1
  rw [toNat_pullWord, toNat_pullWord, hlow, hhigh]

end Wired

/-! ## Two memories -/

/-- Two processors in the same state, whose memories agree on the given cells. -/
structure AgreesOn (s t : Cpu Ram) (cells : List Nat) : Prop where
  registers : t.toRegisters = s.toRegisters
  pc : t.pc = s.pc
  cycles : t.cycles = s.cycles
  cell : ∀ a ∈ cells, t.cell a = s.cell a

/-- The next steps of two processors give the same answer and leave the same state, and each
cell is given the same byte by both or is left alone by both. -/
structure StepsAlike (s t : Cpu Ram) : Prop where
  answer : t.answer = s.answer
  registers : t.stepped.toRegisters = s.stepped.toRegisters
  pc : t.stepped.pc = s.stepped.pc
  cycles : t.stepped.cycles = s.stepped.cycles
  cell : ∀ a < 65536, t.stepped.cell a = s.stepped.cell a ∨
    s.stepped.cell a = s.cell a ∧ t.stepped.cell a = t.cell a

/-- The same writes to two memories make a cell the same in both or leave it alone. -/
theorem read_writeAll (m n : Ram) (writes : List (Word × Byte)) (a : Word) :
    Bus.read (Bus.writeAll n writes) a = Bus.read (Bus.writeAll m writes) a ∨
      Bus.read (Bus.writeAll m writes) a = Bus.read m a ∧
        Bus.read (Bus.writeAll n writes) a = Bus.read n a := by
  induction writes generalizing m n with
  | nil => exact .inr ⟨rfl, rfl⟩
  | cons write writes ih =>
      obtain ⟨address, value⟩ := write
      rcases ih (Bus.write m address value) (Bus.write n address value) with
        hsame | ⟨hm, hn⟩
      · exact .inl hsame
      · simp only [Bus.writeAll]
        rw [hm, hn, Ram.read_write, Ram.read_write]
        by_cases haddress : a = address
        · rw [if_pos haddress, if_pos haddress]
          exact .inl rfl
        · rw [if_neg haddress, if_neg haddress]
          exact .inr ⟨rfl, rfl⟩

/-- Cells of the footprint are all that a documented instruction reads. -/
theorem readsAlike_of_footprint {cpu : Cpu Ram} {n : Ram} {e : Encoding}
    (hlookup : Encoding.lookup cpu.opcode = some e)
    (hcells : ∀ a ∈ cpu.footprint, (cpu.wiredTo n).cell a = cpu.cell a) :
    cpu.ReadsAlike n e.mode e.mnemonic.operation := by
  obtain ⟨hdocumented, -⟩ := (Encoding.lookup_eq_some_iff cpu.opcode e).1 hlookup
  rw [footprint_of_lookup hlookup] at hcells
  have hcode : ∀ k < e.mode.length,
      (cpu.wiredTo n).cell (cpu.pc.toNat + k) = cpu.cell (cpu.pc.toNat + k) := by
    intro k hk
    have hwrap : (cpu.pc.toNat + k) % 65536 % 65536 = (cpu.pc.toNat + k) % 65536 :=
      Nat.mod_mod _ _
    rw [← cell_congr _ hwrap, ← cell_congr cpu hwrap]
    apply hcells
    apply List.mem_append_left
    apply List.mem_append_left
    exact List.mem_map.2 ⟨k, List.mem_range.2 hk, rfl⟩
  have hoperandBytes : ∀ k < e.mode.operandBytes,
      (cpu.wiredTo n).cell (cpu.pc.toNat + 1 + k) = cpu.cell (cpu.pc.toNat + 1 + k) := by
    intro k hk
    rw [Nat.add_assoc]
    exact hcode (1 + k) (Nat.add_lt_add_left hk 1)
  have hresolve : (cpu.wiredTo n).resolve e.mode = cpu.resolve e.mode :=
    resolve_wiredTo hoperandBytes fun a ha =>
      hcells a (List.mem_append_left _ (List.mem_append_right _ ha))
  have hdata : ∀ a ∈ cpu.dataCells e.mnemonic e.mode, (cpu.wiredTo n).cell a = cpu.cell a :=
    fun a ha => hcells a (List.mem_append_right _ ha)
  have hoperand : e.mnemonic.takesOperand = true →
      (cpu.wiredTo n).readOperand (cpu.resolve e.mode) = cpu.readOperand (cpu.resolve e.mode) := by
    intro htakes
    rw [dataCells, if_pos htakes] at hdata
    exact readOperand_wiredTo fun a ha => hdata a (Option.mem_toList.2 ha)
  have hpulled : ∀ k < e.mnemonic.pullCount,
      (cpu.wiredTo n).stackByte (k + 1) = cpu.stackByte (k + 1) := by
    intro k hk
    rw [cpu.dataCells_of_pullCount e.mode (Nat.zero_lt_of_lt hk)] at hdata
    exact hdata _ (List.mem_map.2 ⟨k, List.mem_range.2 hk, rfl⟩)
  cases hoperation : e.mnemonic.operation with
  | read use =>
      exact ⟨hresolve, hoperand (Mnemonic.takesOperand_of_operation_read hoperation)⟩
  | modify change_ =>
      exact ⟨hresolve, hoperand (Mnemonic.takesOperand_of_operation_modify hoperation)⟩
  | store | branch | jump => exact hresolve
  | internal | push => trivial
  | pull use =>
      have hcount : 0 < e.mnemonic.pullCount := by
        rcases Mnemonic.eq_of_operation_pull hoperation with hm | hm <;> rw [hm] <;> decide
      exact pull_wiredTo (hpulled 0 hcount)
  | call =>
      have hmode := Encoding.call_entries e hdocumented (Mnemonic.eq_of_operation hoperation rfl)
      rw [hmode] at hcode
      exact operandWord_wiredTo (hcode 1 (by decide)) (hcode 2 (by decide))
  | callReturn =>
      rw [Mnemonic.eq_of_operation hoperation rfl] at hpulled
      exact pullWord_wiredTo (hpulled 0 (by decide)) (hpulled 1 (by decide))
  | interrupt =>
      have hvector : cpu.dataCells .brk e.mode = [0xFFFE, 0xFFFF] := rfl
      rw [Mnemonic.eq_of_operation hoperation rfl, hvector] at hdata
      apply UInt16.toNat_inj.1
      rw [toNat_pc_interrupt, toNat_pc_interrupt, hdata _ (by simp), hdata _ (by simp)]
  | interruptReturn =>
      rw [Mnemonic.eq_of_operation hoperation rfl] at hpulled
      refine ⟨pull_wiredTo (hpulled 0 (by decide)), UInt16.toNat_inj.1 ?_⟩
      rw [toNat_pullWord, toNat_pullWord, stackByte_pull, stackByte_pull, stackByte_pull,
        stackByte_pull, hpulled 1 (by decide), hpulled 2 (by decide)]

theorem AgreesOn.stepsAlike {s t : Cpu Ram} (hagrees : s.AgreesOn t s.footprint) :
    s.StepsAlike t := by
  obtain ⟨hregisters, hpc, hcycles, hcells⟩ := hagrees
  obtain ⟨n, rfl⟩ : ∃ n, t = s.wiredTo n := ⟨t.memory, eq_wiredTo hregisters hpc hcycles⟩
  obtain ⟨writes, hmemory, hstepped, hanswer⟩ :=
    s.stepped_wiredTo (opcode_wiredTo (hcells _ s.pc_mem_footprint))
      fun e he => readsAlike_of_footprint he hcells
  constructor
  case answer => exact hanswer
  case registers =>
    rw [hstepped]
    rfl
  case pc =>
    rw [hstepped]
    rfl
  case cycles =>
    rw [hstepped]
    rfl
  case cell =>
    intro a _
    have hs : s.stepped.cell a =
        (Bus.read (Bus.writeAll s.memory writes) (UInt16.ofNat a)).toNat := by
      rw [Cpu.cell, hmemory]
    rw [hstepped, hs]
    rcases read_writeAll s.memory n writes (UInt16.ofNat a) with hsame | ⟨hsKept, hnKept⟩
    · exact .inl (congrArg UInt8.toNat hsame)
    · exact .inr ⟨congrArg UInt8.toNat hsKept, congrArg UInt8.toNat hnKept⟩

/-- What is poked outside the footprint is not noticed. -/
theorem agreesOn_poke (s : Cpu Ram) {cells : List Nat} {address : Word} (value : Byte)
    (hbound : ∀ a ∈ cells, a < 65536) (hout : address.toNat ∉ cells) :
    s.AgreesOn (s.poke address value) cells where
  registers := rfl
  pc := rfl
  cycles := rfl
  cell a ha := by
    rw [cell_poke, Nat.mod_eq_of_lt (hbound a ha), if_neg]
    rintro rfl
    exact hout ha

/-- A step depends on the cells of its footprint alone: where they and the registers are the
same, it answers alike, leaves the same registers and treats each cell alike.  A store, a
jump, a call or a branch does not even depend on the byte at its target, unless that byte
belongs to the instruction or to its pointer. -/
theorem step_reads_footprint (s : Cpu Ram) :
    (∀ t, s.AgreesOn t s.footprint → s.StepsAlike t) ∧
    ∀ m, s.mnemonic = some m → m.onlyNamesTarget = true →
      let i := Instruction.decode s.memory s.pc
      ∀ target value, target.toNat ∉ s.codeCells i.size ++ s.pointerCells i.mode →
        s.StepsAlike (s.poke target value) := by
  constructor
  · exact fun t hagrees => hagrees.stepsAlike
  · intro m hmnemonic honly i target value hout
    apply AgreesOn.stepsAlike
    rw [footprint_of_onlyNamesTarget hmnemonic honly]
    exact s.agreesOn_poke value (fun a ha => s.lt_of_mem_codeCells_or_pointerCells ha) hout

/-- A load around the end of the address space, through a pointer whose high byte is the
operand byte of the load. -/
def wrappedLoad : Cpu Ram where
  y := 0x90
  pc := 0xFFFF
  memory := Bus.load (Bus.load (Bus.load Ram.zeroed 0xFFFF [0xB1, 0xFF]) 0x00FF [0x80])
    0x0010 [0x42]

/-- The same load, with another byte in every cell that it does not read. -/
def clutteredLoad : Cpu Ram :=
  let clutter : Ram := ⟨.const (.const 0xEA)⟩
  wrappedLoad.wiredTo
    (Bus.load (Bus.load (Bus.load clutter 0xFFFF [0xB1, 0xFF]) 0x00FF [0x80]) 0x0010 [0x42])

theorem step_clutteredLoad :
    wrappedLoad.footprint = [0xFFFF, 0x0000, 0x00FF, 0x0000, 0x0010] ∧
    wrappedLoad.AgreesOn clutteredLoad wrappedLoad.footprint ∧
    clutteredLoad.answer = .ok 6 ∧ clutteredLoad.stepped.a = 0x42 ∧
    (selfOverwritingCall.poke 0x1234 0x60).stepped.pc = 0x1234 := by
  have hfootprint : wrappedLoad.footprint = [0xFFFF, 0x0000, 0x00FF, 0x0000, 0x0010] := by
    decide +kernel
  have hagrees : wrappedLoad.AgreesOn clutteredLoad wrappedLoad.footprint := by
    rw [hfootprint]
    exact ⟨rfl, rfl, rfl, by decide +kernel⟩
  have hload := (step_reads_footprint wrappedLoad).1 clutteredLoad hagrees
  have hcall := (step_reads_footprint selfOverwritingCall).2 .jsr (by decide +kernel) rfl
    0x1234 0x60 (by decide +kernel)
  have hanswer : wrappedLoad.answer = .ok 6 := rfl
  have ha : wrappedLoad.stepped.a = 0x42 := by decide +kernel
  have hpc : selfOverwritingCall.stepped.pc = 0x1234 := by decide +kernel
  refine ⟨hfootprint, hagrees, ?_, ?_, ?_⟩
  · rw [hload.answer, hanswer]
  · rw [hload.registers, ha]
  · rw [hcall.pc, hpc]

end Cpu

end Nmos6502
