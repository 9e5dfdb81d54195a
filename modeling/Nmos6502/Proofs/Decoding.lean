import Nmos6502.Instruction
import Nmos6502.Proofs.Cycles

/-!
# Decoding and the table of opcodes

Decoding at an address reports the entry of the table for the opcode there, and the
bytes behind it.  `lookup_of_mnemonic_decode` goes back from the report to the
entry, and `littleEndian_operands_decode` reads the reported bytes as the number
that the addressing modes compute with.  What a step does is told by the report alone:
`step_eq_error_iff_mnemonic_decode` and `step_of_mnemonic_decode`.
-/

namespace Nmos6502.Instruction

variable {M : Type} [Bus M]

theorem decode_of_lookup {m : M} {address : Word} {e : Encoding}
    (hlookup : Encoding.lookup (Bus.read m address) = some e) :
    decode m address =
      { address
        opcode := Bus.read m address
        mnemonic := some e.mnemonic
        mode := e.mode
        operands := Bus.readBytes m (address + 1) e.mode.operandBytes
        cycles := e.cycles } := by
  simp only [decode, hlookup]

theorem mnemonic_decode_eq_none_iff (m : M) (address : Word) :
    (decode m address).mnemonic = none ↔ Encoding.lookup (Bus.read m address) = none := by
  cases hlookup : Encoding.lookup (Bus.read m address) with
  | none => simp [decode, hlookup]
  | some e => simp [decode_of_lookup hlookup]

/-- What is reported with a mnemonic stands in the table. -/
theorem lookup_of_mnemonic_decode {m : M} {address : Word} {mnemonic : Mnemonic}
    (hmnemonic : (decode m address).mnemonic = some mnemonic) :
    ∃ e, Encoding.lookup (Bus.read m address) = some e ∧ e.mnemonic = mnemonic ∧
      (decode m address).mode = e.mode ∧ (decode m address).cycles = e.cycles := by
  cases hlookup : Encoding.lookup (Bus.read m address) with
  | none =>
      rw [(mnemonic_decode_eq_none_iff m address).2 hlookup] at hmnemonic
      cases hmnemonic
  | some e =>
      rw [decode_of_lookup hlookup] at hmnemonic ⊢
      exact ⟨e, rfl, Option.some.inj hmnemonic, rfl, rfl⟩

/-- The operand bytes of an instruction of three bytes are the two cells behind it. -/
theorem operands_decode (m : M) (address : Word)
    (hbytes : (decode m address).mode.operandBytes = 2) :
    (decode m address).operands =
      [Bus.read m (address + 1), Bus.read m (address + 1 + 1)] := by
  cases hlookup : Encoding.lookup (Bus.read m address) with
  | none => simp [decode, hlookup, AddressingMode.operandBytes] at hbytes
  | some e =>
      rw [decode_of_lookup hlookup] at hbytes ⊢
      change e.mode.operandBytes = 2 at hbytes
      change Bus.readBytes m (address + 1) e.mode.operandBytes = _
      rw [hbytes]
      rfl

/-- The reported operand bytes, as the number that the modes compute with. -/
theorem littleEndian_operands_decode (cpu : Cpu M)
    (hbytes : (decode cpu.memory cpu.pc).mode.operandBytes = 2) :
    littleEndian (decode cpu.memory cpu.pc).operands = cpu.operandValue := by
  have hword := cpu.toNat_operandWord
  rw [Cpu.operandWord, Bus.readWord, Word.toNat_ofBytes] at hword
  rw [operands_decode _ _ hbytes, ← hword]
  simp [littleEndian]

end Nmos6502.Instruction

namespace Nmos6502.Cpu

variable {M : Type} [Bus M]

/-- A step fails exactly where decoding finds no mnemonic. -/
theorem step_eq_error_iff_mnemonic_decode (cpu : Cpu M) (e : DecodeError) :
    cpu.step = .error e ↔ (Instruction.decode cpu.memory cpu.pc).mnemonic = none ∧
      e = ⟨Bus.read cpu.memory cpu.pc, cpu.pc⟩ := by
  rw [step_eq_error_iff, Instruction.mnemonic_decode_eq_none_iff]
  rfl

/-- Where decoding finds a mnemonic, a step performs the entry that is reported. -/
theorem step_of_mnemonic_decode {cpu : Cpu M} {m : Mnemonic}
    (hmnemonic : (Instruction.decode cpu.memory cpu.pc).mnemonic = some m) :
    ∃ e ∈ Encoding.documented, Encoding.lookup cpu.opcode = some e ∧ e.mnemonic = m ∧
      (Instruction.decode cpu.memory cpu.pc).mode = e.mode ∧
      (Instruction.decode cpu.memory cpu.pc).cycles = e.cycles ∧
      cpu.step = .ok ((cpu.perform e).1, (cpu.perform e).2) := by
  obtain ⟨e, hlookup, he, hmode, hcycles⟩ := Instruction.lookup_of_mnemonic_decode hmnemonic
  obtain ⟨hdocumented, -⟩ := (Encoding.lookup_eq_some_iff cpu.opcode e).1 hlookup
  exact ⟨e, hdocumented, hlookup, he, hmode, hcycles, step_of_lookup hlookup⟩

/-- A processor can step over what is listed as documented and over nothing else. -/
theorem isDocumented_decode_iff (cpu : Cpu M) :
    (Instruction.decode cpu.memory cpu.pc).isDocumented = true ↔
      ∃ result, cpu.step = .ok result := by
  cases hmnemonic : (Instruction.decode cpu.memory cpu.pc).mnemonic with
  | none =>
      have hstep := (cpu.step_eq_error_iff_mnemonic_decode _).2 ⟨hmnemonic, rfl⟩
      simp [Instruction.isDocumented, hmnemonic, hstep]
  | some m =>
      obtain ⟨e, -, -, -, -, -, hstep⟩ := step_of_mnemonic_decode hmnemonic
      simp [Instruction.isDocumented, hmnemonic, hstep]

/-- Where decoding finds a mnemonic, a step carries out its operation and counts the cycles. -/
theorem step_of_mnemonic {cpu : Cpu M} {m : Mnemonic}
    (hmnemonic : (Instruction.decode cpu.memory cpu.pc).mnemonic = some m) :
    ∃ mode cost, cpu.step = .ok (cost, (cpu.execute mode m.operation).2.spend cost) := by
  obtain ⟨e, -, -, rfl, -, -, hstep⟩ := step_of_mnemonic_decode hmnemonic
  exact ⟨e.mode, _, hstep⟩

/-- A step that was taken performed an entry of the mnemonic that decoding finds. -/
theorem exists_perform_of_step {cpu next : Cpu M} {m : Mnemonic} {cost : Nat}
    (hmnemonic : (Instruction.decode cpu.memory cpu.pc).mnemonic = some m)
    (hstep : cpu.step = .ok (cost, next)) :
    ∃ e, e.mnemonic = m ∧ next = (cpu.perform e).2 := by
  obtain ⟨e, -, -, he, -, -, hperform⟩ := step_of_mnemonic_decode hmnemonic
  rw [hstep] at hperform
  obtain ⟨-, hnext⟩ := Prod.mk.inj (Except.ok.inj hperform)
  exact ⟨e, he, hnext⟩

end Nmos6502.Cpu
