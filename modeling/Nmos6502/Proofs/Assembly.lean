import Mathlib.Data.List.Basic
import Nmos6502.Instruction.Text
import Nmos6502.Proofs.Decoding

/-!
# Assembling the text of an instruction

The text of an instruction can be read back.  The marks around the digits and the number
of digits tell the addressing mode, and no two opcodes share both mnemonic and mode; so
the text shows every byte of the instruction.  It does *not* show where the instruction
is, so the assembler has to be told.
-/

namespace Nmos6502

namespace Assembly

/-- The byte that two hexadecimal digits stand for. -/
def byte? (high low : Char) : Option Byte :=
  (Hex.toNatBelow? 256 [high, low]).map UInt8.ofNat

/-- The number that decimal digits stand for. -/
def decimal? (digits : List Char) : Option Nat :=
  if digits ≠ [] ∧ digits.all Char.isDigit then some (Nat.ofDigitChars 10 digits 0) else none

/-- The displacement that a decimal number with a sign stands for. -/
def displacement? : List Char → Option Byte
  | '-' :: digits => (decimal? digits).map fun n => UInt8.ofNat (256 - n)
  | digits => (decimal? digits).map UInt8.ofNat

/-- The mode and the bytes of an operand that begins with an address. -/
def direct? : List Char → Option (AddressingMode × List Byte)
  | [high, low] => (byte? high low).map fun b => (.zeroPage, [b])
  | [high, low, ',', ' ', 'X'] => (byte? high low).map fun b => (.zeroPageX, [b])
  | [high, low, ',', ' ', 'Y'] => (byte? high low).map fun b => (.zeroPageY, [b])
  | a :: b :: c :: d :: index => do
      let high ← byte? a b
      let low ← byte? c d
      match index with
      | [] => some (.absolute, [low, high])
      | [',', ' ', 'X'] => some (.absoluteX, [low, high])
      | [',', ' ', 'Y'] => some (.absoluteY, [low, high])
      | _ => none
  | _ => none

/-- The mode and the bytes of an operand that begins with a pointer in parentheses. -/
def pointer? : List Char → Option (AddressingMode × List Byte)
  | [high, low, ',', ' ', 'X', ')'] => (byte? high low).map fun b => (.indirectX, [b])
  | [high, low, ')', ',', ' ', 'Y'] => (byte? high low).map fun b => (.indirectY, [b])
  | [a, b, c, d, ')'] => do
      let high ← byte? a b
      let low ← byte? c d
      some (.indirect, [low, high])
  | _ => none

/-- The mode and the bytes of an operand. -/
def operand? : List Char → Option (AddressingMode × List Byte)
  | ['A'] => some (.accumulator, [])
  | ['#', '$', high, low] => (byte? high low).map fun b => (.immediate, [b])
  | '$' :: text => direct? text
  | '(' :: '$' :: text => pointer? text
  | text => (displacement? text).map fun b => (.relative, [b])

/-- The mode and the bytes that what follows the mnemonic shows. -/
def field? : List Char → Option (AddressingMode × List Byte)
  | [] => some (.implicit, [])
  | ' ' :: text => operand? text
  | _ => none

end Assembly

/-- The opcode of a mnemonic in a mode. -/
def Encoding.ofMode? (mnemonic : Mnemonic) (mode : AddressingMode) : Option Encoding :=
  documented.find? fun e => e.mnemonic = mnemonic ∧ e.mode = mode

/-- The instruction at the address that has the text. -/
def Instruction.ofText? (address : Word) (text : String) : Option Instruction :=
  match Mnemonic.ofName? (String.ofList (text.toList.take 3)) with
  | some mnemonic => do
      let (mode, operands) ← Assembly.field? (text.toList.drop 3)
      let e ← Encoding.ofMode? mnemonic mode
      some { address
             opcode := e.opcode
             mnemonic := some mnemonic
             mode
             operands
             cycles := e.cycles }
  | none =>
      match text.toList with
      | ['d', 'b', ' ', '$', high, low] =>
          (Assembly.byte? high low).map fun opcode =>
            { address, opcode, mnemonic := none, mode := .invalid, operands := [], cycles := 0 }
      | _ => none

/-! ## Numbers -/

namespace Assembly

theorem byte?_digits (b : Byte) :
    byte? (Hex.digit (b.toNat / 16)) (Hex.digit (b.toNat % 16)) = some b := by
  have hb : b.toNat < 256 := b.toNat_lt
  have hvalue : Hex.toNat? [Hex.digit (b.toNat / 16), Hex.digit (b.toNat % 16)] =
      some b.toNat := by
    change Hex.continue? 0 [_, _] = _
    simp only [Hex.continue?, Hex.digitValue?_digit (show b.toNat / 16 < 16 by omega),
      Hex.digitValue?_digit (show b.toNat % 16 < 16 by omega), Option.some.injEq]
    omega
  simp [byte?, Hex.toNatBelow?, hvalue, Option.filter, hb]

theorem isDigit_of_mem_repr {n : Nat} {c : Char} (hc : c ∈ n.repr.toList) :
    c.isDigit = true := by
  rw [Nat.repr_eq_ofList_toDigits, String.toList_ofList] at hc
  exact Nat.isDigit_of_mem_toDigits (by decide) (by decide) hc

theorem decimal?_repr (n : Nat) : decimal? n.repr.toList = some n := by
  have hdigits : n.repr.toList.all Char.isDigit = true :=
    List.all_eq_true.2 fun c hc => isDigit_of_mem_repr hc
  have hne : n.repr.toList ≠ [] := by
    rw [Nat.repr_eq_ofList_toDigits, String.toList_ofList]
    exact Nat.toDigits_ne_nil
  rw [decimal?, if_pos ⟨hne, hdigits⟩, Nat.repr_eq_ofList_toDigits, String.toList_ofList,
    Nat.ofDigitChars_toDigits (by decide) (by decide)]

theorem displacement?_of_isDigit {digits : List Char} (h : ∀ c ∈ digits, c.isDigit = true) :
    displacement? digits = (decimal? digits).map UInt8.ofNat := by
  fun_cases displacement? digits
  · have hminus := h '-' List.mem_cons_self
    exact absurd hminus (by decide)
  · rfl

theorem displacement?_signedText (b : Byte) : displacement? b.signedText.toList = some b := by
  have hb : b.toNat < 256 := b.toNat_lt
  rw [Byte.signedText]
  split
  · rw [String.toList_append]
    change (decimal? (256 - b.toNat).repr.toList).map _ = _
    rw [decimal?_repr, Option.map_some, show 256 - (256 - b.toNat) = b.toNat by omega]
    simp
  · rw [displacement?_of_isDigit fun c hc => isDigit_of_mem_repr hc, decimal?_repr]
    simp

theorem mem_signedText {b : Byte} {c : Char} (hc : c ∈ b.signedText.toList) :
    c = '-' ∨ c.isDigit = true := by
  rw [Byte.signedText] at hc
  split at hc
  · rw [String.toList_append] at hc
    rcases List.mem_cons.1 hc with hminus | hdigit
    · exact .inl hminus
    · exact .inr (isDigit_of_mem_repr hdigit)
  · exact .inr (isDigit_of_mem_repr hc)

/-! ## Operands -/

/-- A displacement begins as no other operand does. -/
theorem operand?_signedText (b : Byte) :
    operand? b.signedText.toList = some (.relative, [b]) := by
  have hdisplacement : operand? b.signedText.toList =
      (displacement? b.signedText.toList).map fun b => (.relative, [b]) := by
    have hmem := @mem_signedText b
    generalize b.signedText.toList = text at hmem
    fun_cases operand? text
    · exact absurd (hmem List.mem_cons_self) (by decide)
    · exact absurd (hmem List.mem_cons_self) (by decide)
    · exact absurd (hmem List.mem_cons_self) (by decide)
    · exact absurd (hmem List.mem_cons_self) (by decide)
    · rfl
  rw [hdisplacement, displacement?_signedText, Option.map_some]

theorem operand?_operandText {mode : AddressingMode} {operands : List Byte}
    (hmode : mode.hasOperandText = true) (hlength : operands.length = mode.operandBytes) :
    operand? (mode.operandText operands).toList = some (mode, operands) := by
  cases mode with
  | implicit | invalid => cases hmode
  | accumulator =>
      obtain rfl := List.length_eq_zero_iff.1 hlength
      decide
  | relative =>
      obtain ⟨b, rfl⟩ := List.length_eq_one_iff.1 hlength
      exact operand?_signedText b
  | immediate | zeroPage | zeroPageX | zeroPageY | indirectX | indirectY =>
      obtain ⟨b, rfl⟩ := List.length_eq_one_iff.1 hlength
      simp [AddressingMode.operandText, Hex.ofByte, operand?, direct?, pointer?, byte?_digits]
  | absolute | absoluteX | absoluteY | indirect =>
      obtain ⟨low, high, rfl⟩ := List.length_eq_two.1 hlength
      simp [AddressingMode.operandText, Hex.ofWord, Hex.ofByte, operand?, direct?, pointer?,
        byte?_digits]

end Assembly

/-! ## Instructions -/

theorem Mnemonic.length_name (m : Mnemonic) : m.name.toList.length = 3 := by
  cases m <;> rfl

/-- No two opcodes share both mnemonic and mode. -/
theorem Encoding.ofMode?_mode : ∀ e ∈ documented, ofMode? e.mnemonic e.mode = some e := by
  decide +kernel

theorem Encoding.mode_ne_invalid : ∀ e ∈ documented, e.mode ≠ .invalid := by
  decide +kernel

namespace Instruction

theorem exists_field {i : Instruction} {mnemonic : Mnemonic}
    (hmnemonic : i.mnemonic = some mnemonic) (hmode : i.mode ≠ .invalid)
    (hlength : i.operands.length = i.mode.operandBytes) :
    ∃ field, i.text.toList = mnemonic.name.toList ++ field ∧
      Assembly.field? field = some (i.mode, i.operands) := by
  rw [text, hmnemonic]
  by_cases htext : i.mode.hasOperandText = true
  · refine ⟨' ' :: (i.mode.operandText i.operands).toList, ?_, ?_⟩
    · simp [htext]
    · exact Assembly.operand?_operandText htext hlength
  · refine ⟨[], ?_, ?_⟩
    · simp [htext]
    · have himplicit : i.mode = .implicit := by
        simpa [AddressingMode.hasOperandText, hmode] using htext
      rw [himplicit] at hlength ⊢
      rw [List.length_eq_zero_iff.1 hlength]
      rfl

theorem ofText?_of_mnemonic {mnemonic : Mnemonic} {text : String} {field : List Char}
    (htext : text.toList = mnemonic.name.toList ++ field) (address : Word) :
    ofText? address text = (do
      let (mode, operands) ← Assembly.field? field
      let e ← Encoding.ofMode? mnemonic mode
      some { address, opcode := e.opcode, mnemonic := some mnemonic, mode, operands
             cycles := e.cycles }) := by
  rw [ofText?, htext, List.take_left' mnemonic.length_name,
    List.drop_left' mnemonic.length_name, String.ofList_toList, Mnemonic.ofName?_name]

theorem ofText?_data (opcode : Byte) (address : Word) :
    ofText? address ("db $" ++ Hex.ofByte opcode) =
      some { address, opcode, mnemonic := none, mode := .invalid, operands := []
             cycles := 0 } := by
  have htext : ("db $" ++ Hex.ofByte opcode).toList = ['d', 'b', ' ', '$',
      Hex.digit (opcode.toNat / 16), Hex.digit (opcode.toNat % 16)] := by
    simp [Hex.ofByte]
  have hname : Mnemonic.ofName? (String.ofList ['d', 'b', ' ']) = none := by
    decide
  simp [ofText?, htext, hname, Assembly.byte?_digits]

variable {M : Type} [Bus M]

theorem decode_of_mnemonic_eq_none {m : M} {address : Word}
    (hmnemonic : (decode m address).mnemonic = none) :
    decode m address = { address, opcode := Bus.read m address, mnemonic := none
                         mode := .invalid, operands := [], cycles := 0 } := by
  have hlookup := (mnemonic_decode_eq_none_iff m address).1 hmnemonic
  simp only [decode, hlookup]

/-- The text of an instruction is read back as that instruction, wherever it is put. -/
theorem ofText?_text (m : M) (address other : Word) :
    ofText? other (decode m address).text = some { decode m address with address := other } := by
  cases hmnemonic : (decode m address).mnemonic with
  | none =>
      rw [decode_of_mnemonic_eq_none hmnemonic, text]
      exact ofText?_data _ other
  | some mnemonic =>
      obtain ⟨e, hlookup, rfl, hmode, hcycles⟩ := lookup_of_mnemonic_decode hmnemonic
      obtain ⟨he, hopcode⟩ := (Encoding.lookup_eq_some_iff _ e).1 hlookup
      have hvalid : (decode m address).mode ≠ .invalid := hmode ▸ Encoding.mode_ne_invalid e he
      obtain ⟨field, htext, hfield⟩ :=
        exists_field hmnemonic hvalid (length_operands_decode m address)
      rw [ofText?_of_mnemonic htext, hfield]
      simp [hmode, hmnemonic, hcycles, hopcode, Encoding.ofMode?_mode e he]

example : (ofText? 0x0600 "LDA ($20), Y").map bytes = some [0xB1, 0x20] := by
  decide +kernel

/-- The text of an instruction leaves out nothing but its address.  Whatever the memories and
the addresses, it can be assembled again, and two instructions that have the same text have
the same bytes. -/
theorem text_lossless {M N : Type} [Bus M] [Bus N] (m : M) (n : N) (a b : Word) :
    (∀ other, ofText? other (decode m a).text = some { decode m a with address := other }) ∧
    ((decode m a).text = (decode n b).text ↔
      (decode m a).opcode = (decode n b).opcode ∧
      (decode m a).operands = (decode n b).operands ∧
      (decode m a).size = (decode n b).size ∧
      (decode m a).mnemonic = (decode n b).mnemonic ∧
      (decode m a).mode = (decode n b).mode) := by
  refine ⟨ofText?_text m a, ?_⟩
  constructor
  · intro htext
    have hm := ofText?_text m a a
    rw [htext, ofText?_text n b a] at hm
    obtain ⟨-, hopcode, hmnemonic, hmode, hoperands, -⟩ :=
      Instruction.mk.inj (Option.some.inj hm)
    have hsize : (decode m a).size = (decode n b).size := by rw [size, size, hmode]
    exact ⟨hopcode.symm, hoperands.symm, hsize, hmnemonic.symm, hmode.symm⟩
  · rintro ⟨hopcode, hoperands, -, hmnemonic, hmode⟩
    rw [text, text, hopcode, hoperands, hmnemonic, hmode]

end Instruction

end Nmos6502
