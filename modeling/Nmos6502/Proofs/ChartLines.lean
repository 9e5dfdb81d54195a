import Nmos6502.Chart
import Nmos6502.Proofs.Tiling

/-!
# The chart is the same everywhere

The opcodes of the chart share one place in memory, and each one is written over the one before.
`Chart.linesOf_eq_map` says that nothing of an earlier opcode is left to be seen: the lines are
those that one would get with a fresh machine for each of them.

`Chart.sampleLine` is the line of an opcode as the table of opcodes has it, with no machine at
all.  The chart consists of these lines wherever it is made.  The place may lie around the end of
the address space or on top of the reset vector; it is *not* assumed that the vector survives.
-/

namespace Nmos6502

/-- Bytes that a mode does not use do not show. -/
theorem AddressingMode.operandText_take (mode : AddressingMode) (operands : List Byte) :
    mode.operandText (operands.take mode.operandBytes) = mode.operandText operands := by
  cases mode with
  | implicit | accumulator | invalid => rfl
  | immediate | zeroPage | zeroPageX | zeroPageY | relative | indirectX | indirectY =>
      cases operands <;> rfl
  | absolute | absoluteX | absoluteY | indirect =>
      match operands with
      | [] | [_] | _ :: _ :: _ => rfl

namespace Bus

variable {M : Type} [Bus M]

theorem take_readBytes (m : M) (address : Word) {i j : Nat} (hle : i ≤ j) :
    (readBytes m address j).take i = readBytes m address i := by
  obtain ⟨k, rfl⟩ := Nat.exists_eq_add_of_le hle
  rw [readBytes_add, List.take_left' (length_readBytes m address i)]

end Bus

namespace Cpu

/-- A byte that is written over another one leaves nothing of it. -/
theorem poke_poke (cpu : Cpu Ram) (address : Word) (earlier value : Byte) :
    (cpu.poke address earlier).poke address value = cpu.poke address value := by
  unfold Cpu.poke
  congr 1
  apply Ram.ext_read
  intro x
  simp only [Ram.read_write]
  by_cases hx : x = address <;> simp [hx]

/-- The cells of the word are not the cell in front of them, wherever that is. -/
theorem readBytes_poke_pokeWord (cpu : Cpu Ram) (address word : Word) (value : Byte) :
    Bus.readBytes ((cpu.pokeWord (address + 1) word).poke address value).memory address 3 =
      [value, word.low, word.high] := by
  have hfirst : address + 1 ≠ address := by
    intro heq
    exact absurd (UInt16.add_eq_left.1 heq) (by decide)
  have hsecond : address + 1 + 1 ≠ address := by
    intro heq
    rw [UInt16.add_assoc] at heq
    exact absurd (UInt16.add_eq_left.1 heq) (by decide)
  have hapart : address + 1 ≠ address + 1 + 1 := by
    intro heq
    exact absurd (UInt16.add_eq_left.1 heq.symm) (by decide)
  simp [poke, pokeWord, Bus.writeWord, Bus.readBytes, Ram.read_write, hfirst, hsecond, hapart]

end Cpu

namespace Chart

/-! ## Lines of text -/

theorem bytesText_eq_intercalate (bytes : List Byte) :
    bytesText bytes = " ".intercalate (bytes.map fun b => "$" ++ Hex.ofByte b) := by
  fun_induction bytesText bytes with
  | case1 => rfl
  | case2 b => simp
  | case3 b bytes hrest ih =>
      cases bytes with
      | nil => exact absurd rfl hrest
      | cons c bytes => simp [ih, String.append_assoc]

theorem length_hexByte (b : Byte) : ("$" ++ Hex.ofByte b).length = 3 := by
  have hmark : "$".length = 1 := rfl
  simp [Hex.ofByte, hmark]

/-- Three characters for each byte, and a blank between any two. -/
theorem length_bytesText (b : Byte) (bytes : List Byte) :
    (bytesText (b :: bytes)).length = 3 + 4 * bytes.length := by
  induction bytes generalizing b with
  | nil => exact length_hexByte b
  | cons c bytes ih =>
      have hblank : " ".length = 1 := rfl
      rw [bytesText, String.length_append, String.length_append, length_hexByte, hblank, ih,
        List.length_cons]
      · omega
      · exact List.cons_ne_nil c bytes

/-! ## The line of an opcode -/

/-- The bytes of the instruction that an opcode begins, by the table.  An undocumented opcode
stands alone. -/
def opcodeLength (opcode : Byte) : Nat :=
  ((Encoding.lookup opcode).map Encoding.size).getD 1

/-- The text of an opcode by the table, with the given bytes behind it. -/
def opcodeText (opcode : Byte) (operands : List Byte) : String :=
  match Encoding.lookup opcode with
  | none => "db $" ++ Hex.ofByte opcode
  | some e =>
      if e.mode.hasOperandText then e.mnemonic.name ++ " " ++ e.mode.operandText operands
      else e.mnemonic.name

/-- The bytes that an opcode is shown with: its own and as many of `ff ee` as it takes. -/
def sampleBytes (opcode : Byte) : List Byte := [opcode, 0xFF, 0xEE].take (opcodeLength opcode)

/-- The line of an opcode in front of `ff ee`. -/
def sampleLine (opcode : Byte) : String :=
  padRight textColumn (bytesText (sampleBytes opcode) ++ ":") ++ opcodeText opcode [0xFF, 0xEE]

theorem opcodeLength_bounds (opcode : Byte) :
    1 ≤ opcodeLength opcode ∧ opcodeLength opcode ≤ 3 := by
  unfold opcodeLength
  cases Encoding.lookup opcode with
  | none => decide
  | some e => exact e.mode.length_bounds

/-- The bytes never reach the column of the text. -/
theorem length_bytesText_sampleBytes (opcode : Byte) :
    (bytesText (sampleBytes opcode) ++ ":").length ≤ textColumn := by
  obtain ⟨hlower, hupper⟩ := opcodeLength_bounds opcode
  obtain ⟨k, hk⟩ := Nat.exists_eq_add_of_le' hlower
  have hlength : ([0xFF, 0xEE].take k : List Byte).length ≤ k := List.length_take_le k _
  rw [sampleBytes, hk, List.take_succ_cons, String.length_append, length_bytesText]
  change 3 + 4 * _ + 1 ≤ 18
  omega

section Decode

variable {M : Type} [Bus M]

theorem size_decode (m : M) (address : Word) :
    (Instruction.decode m address).size = opcodeLength (Bus.read m address) := by
  unfold opcodeLength
  cases hlookup : Encoding.lookup (Bus.read m address) with
  | none => simp only [Instruction.decode, hlookup]; rfl
  | some e => rw [Instruction.decode_of_lookup hlookup]; rfl

/-- Two bytes behind the opcode are enough for every text. -/
theorem text_decode (m : M) (address : Word) :
    (Instruction.decode m address).text =
      opcodeText (Bus.read m address) (Bus.readBytes m (address + 1) 2) := by
  unfold opcodeText
  cases hlookup : Encoding.lookup (Bus.read m address) with
  | none => simp only [Instruction.decode, Instruction.text, hlookup]
  | some e =>
      have htwo : e.mode.operandBytes ≤ 2 := by
        have hlength := e.mode.length_bounds.2
        unfold AddressingMode.length at hlength
        omega
      rw [Instruction.decode_of_lookup hlookup]
      simp only [Instruction.text]
      rw [← Bus.take_readBytes m (address + 1) htwo, AddressingMode.operandText_take]

end Decode

/-- The line of an opcode is shown where the opcode and `ff ee` are in memory. -/
theorem line_of_readBytes {cpu : Cpu Ram} {address : Word} {opcode : Byte}
    (hbytes : Bus.readBytes cpu.memory address 3 = [opcode, 0xFF, 0xEE]) :
    line cpu address = sampleLine opcode := by
  obtain ⟨hopcode, hoperands⟩ := List.cons.inj hbytes
  change Bus.readBytes cpu.memory (address + 1) 2 = [0xFF, 0xEE] at hoperands
  unfold line sampleLine sampleBytes
  simp only [size_decode, text_decode, hopcode, hoperands, ← hbytes,
    Bus.take_readBytes _ _ (opcodeLength_bounds opcode).2]

/-! ## The loop over the opcodes -/

/-- Each line is what one gets when no other opcode has been there. -/
theorem linesOf_eq_map (cpu : Cpu Ram) (address : Word) (opcodes : List Byte) :
    linesOf cpu address opcodes =
      opcodes.map fun opcode => line (cpu.poke address opcode) address := by
  induction opcodes generalizing cpu with
  | nil => rfl
  | cons opcode opcodes ih =>
      rw [linesOf, ih, List.map_cons]
      simp only [Cpu.poke_poke]

theorem lines_eq_map (origin : Word) :
    lines origin = ((List.range 256).map UInt8.ofNat).map sampleLine := by
  unfold lines
  rw [linesOf_eq_map]
  apply List.map_congr_left
  intro opcode _
  exact line_of_readBytes (Cpu.readBytes_poke_pokeWord _ origin 0xEEFF opcode)

theorem getElem?_lines (origin : Word) (opcode : Byte) :
    (lines origin)[opcode.toNat]? = some (sampleLine opcode) := by
  simp [lines_eq_map, opcode.toNat_lt]

/-- The chart has a line for each opcode, and no line depends on the address at which the chart is
made or on the opcodes that were there before.  The line shows the bytes in front of the column
of the text, and the text behind it. -/
theorem lines_same_at_every_origin (origin : Word) :
    (lines origin).length = 256 ∧
    (∀ opcode : Byte, ∃ gap : Nat,
      let shown := " ".intercalate ((sampleBytes opcode).map fun b => "$" ++ Hex.ofByte b) ++ ":"
      shown.length + gap = 18 ∧
      (lines origin)[opcode.toNat]? =
        some (shown ++ String.ofList (List.replicate gap ' ') ++
          opcodeText opcode [0xFF, 0xEE])) ∧
    (∀ other, lines other = lines origin) ∧
    ∀ (cpu : Cpu Ram) (earlier : List Byte) (opcode : Byte) (later : List Byte),
      (linesOf cpu origin (earlier ++ opcode :: later))[earlier.length]? =
        some (line (cpu.poke origin opcode) origin) := by
  refine ⟨?_, ?_, ?_, ?_⟩
  · simp [lines_eq_map]
  · intro opcode
    refine ⟨textColumn - (bytesText (sampleBytes opcode) ++ ":").length, ?_, ?_⟩
    · rw [← bytesText_eq_intercalate]
      exact Nat.add_sub_cancel' (length_bytesText_sampleBytes opcode)
    · rw [getElem?_lines, ← bytesText_eq_intercalate]
      rfl
  · intro other
    rw [lines_eq_map, lines_eq_map]
  · intro cpu earlier opcode later
    rw [linesOf_eq_map]
    simp

example : sampleLine 0x6C = "$6c $ff $ee:      JMP ($eeff)" := by
  decide +kernel

end Chart

end Nmos6502
