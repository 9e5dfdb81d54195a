/-!
# Mnemonics

The fifty-six names of the documented instructions, grouped by what they do.
`ofName?_eq_some_iff` says that a name belongs to one mnemonic.
-/

namespace Nmos6502

/-- What an instruction does, apart from where its operand is. -/
inductive Mnemonic
  -- Load
  | lda | ldx | ldy
  -- Store
  | sta | stx | sty
  -- Step by one
  | inc | dec | inx | iny | dex | dey
  -- Transfer
  | tax | tay | txa | tya | tsx | txs
  -- Set and clear flags
  | clc | sec | cld | sed | cli | sei | clv
  -- Push and pull
  | pha | php | pla | plp
  -- Branch
  | bpl | bmi | bvc | bvs | bcc | bcs | bne | beq
  -- Jump, call and return
  | brk | jmp | jsr | rts | rti | nop
  -- Add and subtract
  | adc | sbc
  -- Combine bits
  | and | ora | eor | bit
  -- Compare
  | cmp | cpx | cpy
  -- Shift
  | asl | lsr | rol | ror
  deriving DecidableEq

namespace Mnemonic

/-- Every mnemonic, family by family. -/
def all : List Mnemonic := [
  .lda, .ldx, .ldy,
  .sta, .stx, .sty,
  .inc, .dec, .inx, .iny, .dex, .dey,
  .tax, .tay, .txa, .tya, .tsx, .txs,
  .clc, .sec, .cld, .sed, .cli, .sei, .clv,
  .pha, .php, .pla, .plp,
  .bpl, .bmi, .bvc, .bvs, .bcc, .bcs, .bne, .beq,
  .brk, .jmp, .jsr, .rts, .rti, .nop,
  .adc, .sbc,
  .and, .ora, .eor, .bit,
  .cmp, .cpx, .cpy,
  .asl, .lsr, .rol, .ror]

/-- The name of the instruction in assembly text. -/
def name : Mnemonic → String
  | .lda => "LDA" | .ldx => "LDX" | .ldy => "LDY"
  | .sta => "STA" | .stx => "STX" | .sty => "STY"
  | .inc => "INC" | .dec => "DEC" | .inx => "INX" | .iny => "INY"
  | .dex => "DEX" | .dey => "DEY"
  | .tax => "TAX" | .tay => "TAY" | .txa => "TXA" | .tya => "TYA"
  | .tsx => "TSX" | .txs => "TXS"
  | .clc => "CLC" | .sec => "SEC" | .cld => "CLD" | .sed => "SED"
  | .cli => "CLI" | .sei => "SEI" | .clv => "CLV"
  | .pha => "PHA" | .php => "PHP" | .pla => "PLA" | .plp => "PLP"
  | .bpl => "BPL" | .bmi => "BMI" | .bvc => "BVC" | .bvs => "BVS"
  | .bcc => "BCC" | .bcs => "BCS" | .bne => "BNE" | .beq => "BEQ"
  | .brk => "BRK" | .jmp => "JMP" | .jsr => "JSR" | .rts => "RTS"
  | .rti => "RTI" | .nop => "NOP"
  | .adc => "ADC" | .sbc => "SBC"
  | .and => "AND" | .ora => "ORA" | .eor => "EOR" | .bit => "BIT"
  | .cmp => "CMP" | .cpx => "CPX" | .cpy => "CPY"
  | .asl => "ASL" | .lsr => "LSR" | .rol => "ROL" | .ror => "ROR"

/-- The mnemonic with a given name. -/
def ofName? (text : String) : Option Mnemonic := all.find? fun m => m.name == text

/-- Whether the instruction chooses the next program counter itself, rather than
falling through to the instruction behind it. -/
def setsCounter : Mnemonic → Bool
  | .bpl | .bmi | .bvc | .bvs | .bcc | .bcs | .bne | .beq => true
  | .brk | .jmp | .jsr | .rts | .rti => true
  | _ => false

theorem mem_all (m : Mnemonic) : m ∈ all := by
  cases m <;> decide

theorem ofName?_name (m : Mnemonic) : ofName? m.name = some m := by
  cases m <;> decide

theorem ofName?_eq_some_iff (text : String) (m : Mnemonic) :
    ofName? text = some m ↔ text = m.name := by
  constructor
  · intro h
    have hname := List.find?_some h
    exact (beq_iff_eq.1 hname).symm
  · rintro rfl
    exact ofName?_name m

theorem name_injective {m n : Mnemonic} (h : m.name = n.name) : m = n := by
  have hm := ofName?_name m
  rw [h, ofName?_name] at hm
  exact (Option.some.inj hm).symm

end Mnemonic

end Nmos6502
