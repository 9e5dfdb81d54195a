import Nmos6502.Byte
import Nmos6502.Isa.AddressingMode
import Nmos6502.Isa.Mnemonic

/-!
# The documented instruction set

Of the 256 opcodes, 151 are documented.  The set is written down mnemonic by
mnemonic, each with its opcodes; `lookup` turns it round.  `opcode_injective` says
that no opcode is claimed twice, so `lookup_eq_some_iff` can say that looking up
finds exactly what is written.
-/

namespace Nmos6502

/-- One documented opcode. -/
structure Encoding where
  opcode : Byte
  mnemonic : Mnemonic
  mode : AddressingMode
  /-- The cycles it takes when no page is crossed and no branch is taken. -/
  cycles : Nat
  deriving DecidableEq

/-- The opcodes of a mnemonic, each with its addressing mode and its cycles. -/
def Mnemonic.opcodes : Mnemonic → List (Byte × AddressingMode × Nat)
  | .lda => [(0xA9, .immediate, 2), (0xA5, .zeroPage, 3), (0xB5, .zeroPageX, 4),
      (0xAD, .absolute, 4), (0xBD, .absoluteX, 4), (0xB9, .absoluteY, 4),
      (0xA1, .indirectX, 6), (0xB1, .indirectY, 5)]
  | .ldx => [(0xA2, .immediate, 2), (0xA6, .zeroPage, 3), (0xB6, .zeroPageY, 4),
      (0xAE, .absolute, 4), (0xBE, .absoluteY, 4)]
  | .ldy => [(0xA0, .immediate, 2), (0xA4, .zeroPage, 3), (0xB4, .zeroPageX, 4),
      (0xAC, .absolute, 4), (0xBC, .absoluteX, 4)]
  | .sta => [(0x85, .zeroPage, 3), (0x95, .zeroPageX, 4), (0x8D, .absolute, 4),
      (0x9D, .absoluteX, 5), (0x99, .absoluteY, 5), (0x81, .indirectX, 6),
      (0x91, .indirectY, 6)]
  | .stx => [(0x86, .zeroPage, 3), (0x96, .zeroPageY, 4), (0x8E, .absolute, 4)]
  | .sty => [(0x84, .zeroPage, 3), (0x94, .zeroPageX, 4), (0x8C, .absolute, 4)]
  | .inc => [(0xE6, .zeroPage, 5), (0xF6, .zeroPageX, 6), (0xEE, .absolute, 6),
      (0xFE, .absoluteX, 7)]
  | .dec => [(0xC6, .zeroPage, 5), (0xD6, .zeroPageX, 6), (0xCE, .absolute, 6),
      (0xDE, .absoluteX, 7)]
  | .inx => [(0xE8, .implicit, 2)]
  | .iny => [(0xC8, .implicit, 2)]
  | .dex => [(0xCA, .implicit, 2)]
  | .dey => [(0x88, .implicit, 2)]
  | .tax => [(0xAA, .implicit, 2)]
  | .tay => [(0xA8, .implicit, 2)]
  | .txa => [(0x8A, .implicit, 2)]
  | .tya => [(0x98, .implicit, 2)]
  | .tsx => [(0xBA, .implicit, 2)]
  | .txs => [(0x9A, .implicit, 2)]
  | .clc => [(0x18, .implicit, 2)]
  | .sec => [(0x38, .implicit, 2)]
  | .cld => [(0xD8, .implicit, 2)]
  | .sed => [(0xF8, .implicit, 2)]
  | .cli => [(0x58, .implicit, 2)]
  | .sei => [(0x78, .implicit, 2)]
  | .clv => [(0xB8, .implicit, 2)]
  | .pha => [(0x48, .implicit, 3)]
  | .php => [(0x08, .implicit, 3)]
  | .pla => [(0x68, .implicit, 4)]
  | .plp => [(0x28, .implicit, 4)]
  | .bpl => [(0x10, .relative, 2)]
  | .bmi => [(0x30, .relative, 2)]
  | .bvc => [(0x50, .relative, 2)]
  | .bvs => [(0x70, .relative, 2)]
  | .bcc => [(0x90, .relative, 2)]
  | .bcs => [(0xB0, .relative, 2)]
  | .bne => [(0xD0, .relative, 2)]
  | .beq => [(0xF0, .relative, 2)]
  | .brk => [(0x00, .implicit, 7)]
  | .jmp => [(0x4C, .absolute, 3), (0x6C, .indirect, 5)]
  | .jsr => [(0x20, .absolute, 6)]
  | .rts => [(0x60, .implicit, 6)]
  | .rti => [(0x40, .implicit, 6)]
  | .nop => [(0xEA, .implicit, 2)]
  | .adc => [(0x69, .immediate, 2), (0x65, .zeroPage, 3), (0x75, .zeroPageX, 4),
      (0x6D, .absolute, 4), (0x7D, .absoluteX, 4), (0x79, .absoluteY, 4),
      (0x61, .indirectX, 6), (0x71, .indirectY, 5)]
  | .sbc => [(0xE9, .immediate, 2), (0xE5, .zeroPage, 3), (0xF5, .zeroPageX, 4),
      (0xED, .absolute, 4), (0xFD, .absoluteX, 4), (0xF9, .absoluteY, 4),
      (0xE1, .indirectX, 6), (0xF1, .indirectY, 5)]
  | .and => [(0x29, .immediate, 2), (0x25, .zeroPage, 3), (0x35, .zeroPageX, 4),
      (0x2D, .absolute, 4), (0x3D, .absoluteX, 4), (0x39, .absoluteY, 4),
      (0x21, .indirectX, 6), (0x31, .indirectY, 5)]
  | .ora => [(0x09, .immediate, 2), (0x05, .zeroPage, 3), (0x15, .zeroPageX, 4),
      (0x0D, .absolute, 4), (0x1D, .absoluteX, 4), (0x19, .absoluteY, 4),
      (0x01, .indirectX, 6), (0x11, .indirectY, 5)]
  | .eor => [(0x49, .immediate, 2), (0x45, .zeroPage, 3), (0x55, .zeroPageX, 4),
      (0x4D, .absolute, 4), (0x5D, .absoluteX, 4), (0x59, .absoluteY, 4),
      (0x41, .indirectX, 6), (0x51, .indirectY, 5)]
  | .bit => [(0x24, .zeroPage, 3), (0x2C, .absolute, 4)]
  | .cmp => [(0xC9, .immediate, 2), (0xC5, .zeroPage, 3), (0xD5, .zeroPageX, 4),
      (0xCD, .absolute, 4), (0xDD, .absoluteX, 4), (0xD9, .absoluteY, 4),
      (0xC1, .indirectX, 6), (0xD1, .indirectY, 5)]
  | .cpx => [(0xE0, .immediate, 2), (0xE4, .zeroPage, 3), (0xEC, .absolute, 4)]
  | .cpy => [(0xC0, .immediate, 2), (0xC4, .zeroPage, 3), (0xCC, .absolute, 4)]
  | .asl => [(0x0A, .accumulator, 2), (0x06, .zeroPage, 5), (0x16, .zeroPageX, 6),
      (0x0E, .absolute, 6), (0x1E, .absoluteX, 7)]
  | .lsr => [(0x4A, .accumulator, 2), (0x46, .zeroPage, 5), (0x56, .zeroPageX, 6),
      (0x4E, .absolute, 6), (0x5E, .absoluteX, 7)]
  | .rol => [(0x2A, .accumulator, 2), (0x26, .zeroPage, 5), (0x36, .zeroPageX, 6),
      (0x2E, .absolute, 6), (0x3E, .absoluteX, 7)]
  | .ror => [(0x6A, .accumulator, 2), (0x66, .zeroPage, 5), (0x76, .zeroPageX, 6),
      (0x6E, .absolute, 6), (0x7E, .absoluteX, 7)]

namespace Encoding

/-- The bytes that the instruction takes up, the opcode included. -/
def size (e : Encoding) : Nat := e.mode.length

/-- Every documented opcode, mnemonic by mnemonic. -/
def documented : List Encoding :=
  Mnemonic.all.flatMap fun m =>
    m.opcodes.map fun (opcode, mode, cycles) => ⟨opcode, m, mode, cycles⟩

/-- What an opcode stands for, if it is documented. -/
def lookup (opcode : Byte) : Option Encoding :=
  documented.find? fun e => e.opcode == opcode

theorem length_documented : documented.length = 151 := by
  decide +kernel

theorem lookup_opcode : ∀ e ∈ documented, lookup e.opcode = some e := by
  decide +kernel

/-- Looking up finds exactly the documented opcodes. -/
theorem lookup_eq_some_iff (opcode : Byte) (e : Encoding) :
    lookup opcode = some e ↔ e ∈ documented ∧ e.opcode = opcode := by
  constructor
  · intro h
    have hopcode := List.find?_some h
    exact ⟨List.mem_of_find?_eq_some h, beq_iff_eq.1 hopcode⟩
  · rintro ⟨hmem, rfl⟩
    exact lookup_opcode e hmem

/-- No opcode is claimed twice. -/
theorem opcode_injective {e f : Encoding} (he : e ∈ documented) (hf : f ∈ documented)
    (h : e.opcode = f.opcode) : e = f := by
  have hlookup := lookup_opcode e he
  rw [h, lookup_opcode f hf] at hlookup
  exact (Option.some.inj hlookup).symm

/-- Every documented instruction takes from two to seven cycles before penalties. -/
theorem cycles_bounds : ∀ e ∈ documented, 2 ≤ e.cycles ∧ e.cycles ≤ 7 := by
  decide +kernel

end Encoding

end Nmos6502
