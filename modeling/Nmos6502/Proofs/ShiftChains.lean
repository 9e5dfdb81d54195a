import Nmos6502.Proofs.Multibyte
import Nmos6502.Proofs.Requests
import Nmos6502.Proofs.Sequential

/-!
# Shifts of several bytes

A number that does not fit a byte is shifted byte by byte: to the left from the lowest byte up,
to the right from the highest down.  Each byte takes in the bit that fell out of the one before,
which has waited in the carry.  `Mnemonic.chain` goes through bytes in the order in which they
are shifted, so for a shift to the right the lowest byte is the *last* of the list.

In both directions nothing is lost: the number with the carry at one end is the number with the
carry at the other.  `littleEndian_chain_rol` and `littleEndian_chain_ror` say so in integers,
and that a rotation undoes the other follows from them.

`Cpu.stepped_rewrites` says that a step shifts a byte in the same way wherever its mode finds
it, and `Cpu.chain_of_rewriteInTurn` that processors which shift in turn go through such a chain.
-/

namespace Nmos6502

namespace Mnemonic

/-- What a read-modify-write instruction makes of a byte, and the carry that it leaves. -/
def rewrite (m : Mnemonic) (carry : Bool) (b : Byte) : Byte × Bool :=
  match m.operation with
  | .modify change =>
      let (value, status) := change { carry } b
      (value, status.carry)
  | _ => (b, carry)

/-- Rewrites bytes one after the other, each under the carry that was left before: the first
one by the one instruction, the rest by the other. -/
def chain (first rest : Mnemonic) (carry : Bool) : List Byte → List Byte × Bool
  | [] => ([], carry)
  | b :: bytes =>
      let (value, left) := first.rewrite carry b
      let (values, final) := chain rest rest left bytes
      (value :: values, final)

/-- A read-modify-write instruction looks at no flag but the carry, and leaves the others as
they were, but for Zero and Negative. -/
theorem change_eq_rewrite {m : Mnemonic} {change : Status → Byte → Byte × Status}
    (hoperation : m.operation = .modify change) (s : Status) (b : Byte) :
    change s b = ((m.rewrite s.carry b).1,
      { s with carry := (m.rewrite s.carry b).2 }.withResult (m.rewrite s.carry b).1) := by
  cases m with
  | inc | dec | asl | lsr | rol | ror =>
      cases hoperation
      rfl
  | _ => cases hoperation

theorem chain_cons (first rest : Mnemonic) (carry : Bool) (b : Byte) (bytes : List Byte) :
    chain first rest carry (b :: bytes) =
      ((first.rewrite carry b).1 :: (chain rest rest (first.rewrite carry b).2 bytes).1,
        (chain rest rest (first.rewrite carry b).2 bytes).2) := rfl

theorem length_chain (first rest : Mnemonic) (carry : Bool) (bytes : List Byte) :
    (chain first rest carry bytes).1.length = bytes.length := by
  induction bytes generalizing first carry with
  | nil => rfl
  | cons b bytes ih => exact congrArg Nat.succ (ih rest _)

/-! ## To the left -/

/-- A byte with the carry below it is a byte with the carry above it. -/
theorem toNat_rewrite_rol (carry : Bool) (b : Byte) :
    (rol.rewrite carry b).1.toNat + 256 * (rol.rewrite carry b).2.toNat =
      2 * b.toNat + carry.toNat := by
  have hb := b.toNat_lt
  have hcarry := Bool.toNat_le carry
  change (Alu.shiftLeft b carry).value.toNat + 256 * (Alu.shiftLeft b carry).carry.toNat = _
  rw [Alu.toNat_value_shiftLeft, Alu.carry_shiftLeft]
  rcases Nat.lt_or_ge b.toNat 128 with hlow | hhigh
  · rw [decide_eq_false (Nat.not_le.2 hlow), Bool.toNat_false]
    omega
  · rw [decide_eq_true hhigh, Bool.toNat_true]
    omega

theorem littleEndian_chain_rol (carry : Bool) (bytes : List Byte) :
    littleEndian (chain .rol .rol carry bytes).1 +
        256 ^ bytes.length * (chain .rol .rol carry bytes).2.toNat =
      2 * littleEndian bytes + carry.toNat := by
  induction bytes generalizing carry with
  | nil => simp [chain, littleEndian]
  | cons b bytes ih =>
      have hlow := toNat_rewrite_rol carry b
      have hrest := ih (rol.rewrite carry b).2
      rw [chain_cons, List.length_cons, Nat.pow_succ, Nat.mul_right_comm]
      simp only [littleEndian]
      omega

/-- To start with a zero is to start with a clear carry. -/
theorem chain_asl (carry : Bool) {bytes : List Byte} (hne : bytes ≠ []) :
    chain .asl .rol carry bytes = chain .rol .rol false bytes := by
  cases bytes with
  | nil => exact absurd rfl hne
  | cons b bytes => rfl

/-- Rotating to the left doubles, and the top bit falls out. -/
theorem chain_rol_in_integers (carry : Bool) {bytes : List Byte} (hne : bytes ≠ []) :
    littleEndian (chain .rol .rol carry bytes).1 =
        (2 * littleEndian bytes + carry.toNat) % 256 ^ bytes.length ∧
      (chain .rol .rol carry bytes).2 =
        (littleEndian bytes).testBit (8 * bytes.length - 1) := by
  have hbound := littleEndian_lt (chain .rol .rol carry bytes).1
  rw [length_chain] at hbound
  obtain ⟨hvalue, hout⟩ := eq_mod_of_add_carry (littleEndian_chain_rol carry bytes) hbound
  refine ⟨hvalue, ?_⟩
  obtain ⟨n, hn⟩ := Nat.exists_eq_add_one.2 (List.length_pos_iff.2 hne)
  have hdouble := two_mul_signBound n
  have hcarry := Bool.toNat_le carry
  have hbytes := littleEndian_lt bytes
  rw [hn] at hbytes hout ⊢
  rw [testBit_top hbytes, Bool.eq_iff_iff, hout, decide_eq_true_iff]
  omega

/-! ## To the right -/

/-- A byte with the carry above it is a byte with the carry below it. -/
theorem toNat_rewrite_ror (carry : Bool) (b : Byte) :
    2 * (ror.rewrite carry b).1.toNat + (ror.rewrite carry b).2.toNat =
      b.toNat + 256 * carry.toNat := by
  change 2 * (Alu.shiftRight b carry).value.toNat + (Alu.shiftRight b carry).carry.toNat = _
  rw [Alu.toNat_value_shiftRight, Alu.carry_shiftRight]
  rcases Nat.mod_two_eq_zero_or_one b.toNat with heven | hodd
  · rw [decide_eq_false (by omega), Bool.toNat_false]
    omega
  · rw [decide_eq_true hodd, Bool.toNat_true]
    omega

theorem littleEndian_chain_ror (carry : Bool) (bytes : List Byte) :
    2 * littleEndian (chain .ror .ror carry bytes).1.reverse +
        (chain .ror .ror carry bytes).2.toNat =
      littleEndian bytes.reverse + 256 ^ bytes.length * carry.toNat := by
  induction bytes generalizing carry with
  | nil => simp [chain, littleEndian]
  | cons b bytes ih =>
      have hhigh := toNat_rewrite_ror carry b
      have hrest := ih (ror.rewrite carry b).2
      rw [chain_cons, List.reverse_cons, List.reverse_cons, littleEndian_append,
        littleEndian_append, List.length_reverse, List.length_reverse, length_chain,
        List.length_cons]
      simp only [littleEndian, Nat.mul_zero, Nat.add_zero]
      generalize (ror.rewrite carry b).1.toNat = value at hhigh ⊢
      generalize (ror.rewrite carry b).2 = left at hhigh hrest ⊢
      generalize chain .ror .ror left bytes = rest at hrest ⊢
      calc 2 * (littleEndian rest.1.reverse + 256 ^ bytes.length * value) + rest.2.toNat
          = 2 * littleEndian rest.1.reverse + rest.2.toNat +
              256 ^ bytes.length * (2 * value) := by ring
        _ = littleEndian bytes.reverse + 256 ^ bytes.length * (2 * value + left.toNat) := by
          rw [hrest]
          ring
        _ = littleEndian bytes.reverse + 256 ^ bytes.length * b.toNat +
              256 ^ (bytes.length + 1) * carry.toNat := by
          rw [hhigh]
          ring

/-- To start with a zero is to start with a clear carry. -/
theorem chain_lsr (carry : Bool) {bytes : List Byte} (hne : bytes ≠ []) :
    chain .lsr .ror carry bytes = chain .ror .ror false bytes := by
  cases bytes with
  | nil => exact absurd rfl hne
  | cons b bytes => rfl

/-- Rotating to the right halves, and the bottom bit falls out. -/
theorem chain_ror_in_integers (carry : Bool) {bytes : List Byte} (hne : bytes ≠ []) :
    littleEndian (chain .ror .ror carry bytes.reverse).1.reverse =
        littleEndian bytes / 2 + carry.toNat * signBound bytes.length ∧
      (chain .ror .ror carry bytes.reverse).2 = decide (littleEndian bytes % 2 = 1) := by
  obtain ⟨n, hn⟩ := Nat.exists_eq_add_one.2 (List.length_pos_iff.2 hne)
  have hdouble := two_mul_signBound n
  have hvalue := littleEndian_chain_ror carry bytes.reverse
  have hout := Bool.toNat_le (chain .ror .ror carry bytes.reverse).2
  rw [List.reverse_reverse, List.length_reverse, hn, ← hdouble, Nat.mul_assoc,
    Nat.mul_comm (signBound _)] at hvalue
  rw [hn]
  constructor
  · omega
  · rw [Bool.eq_iff_iff, decide_eq_true_iff, ← Bool.toNat_eq_one]
    omega

/-! ## There and back -/

/-- Rotating to the right takes back a rotation to the left. -/
theorem chain_ror_chain_rol (carry : Bool) (bytes : List Byte) :
    let up := chain .rol .rol carry bytes
    chain .ror .ror up.2 up.1.reverse = (bytes.reverse, carry) := by
  intro up
  have hup : littleEndian up.1 + 256 ^ bytes.length * up.2.toNat = _ :=
    littleEndian_chain_rol carry bytes
  have hdown := littleEndian_chain_ror up.2 up.1.reverse
  have hlength : up.1.length = bytes.length := length_chain ..
  rw [List.reverse_reverse, List.length_reverse, hlength, hup] at hdown
  have hcarry := Bool.toNat_le carry
  have hout := Bool.toNat_le (chain .ror .ror up.2 up.1.reverse).2
  apply Prod.ext
  · apply List.reverse_eq_iff.1
    apply littleEndian_injective
    · rw [List.length_reverse, length_chain, List.length_reverse, hlength]
    · omega
  · change (chain .ror .ror up.2 up.1.reverse).2 = carry
    rw [Bool.eq_iff_iff, ← Bool.toNat_eq_one, ← Bool.toNat_eq_one]
    omega

/-- Rotating to the left takes back a rotation to the right. -/
theorem chain_rol_chain_ror (carry : Bool) (bytes : List Byte) :
    let down := chain .ror .ror carry bytes.reverse
    chain .rol .rol down.2 down.1.reverse = (bytes, carry) := by
  intro down
  have hdown : 2 * littleEndian down.1.reverse + down.2.toNat = _ :=
    littleEndian_chain_ror carry bytes.reverse
  have hup := littleEndian_chain_rol down.2 down.1.reverse
  have hlength : down.1.length = bytes.length := by
    rw [length_chain, List.length_reverse]
  rw [List.length_reverse, hlength, hdown, List.reverse_reverse, List.length_reverse] at hup
  have hbytes := littleEndian_lt bytes
  have hback := littleEndian_lt (chain .rol .rol down.2 down.1.reverse).1
  rw [length_chain, List.length_reverse, hlength] at hback
  obtain ⟨hvalue, hout⟩ := eq_mod_of_add_carry hup hback
  obtain ⟨hremainder, hcarry⟩ :=
    eq_mod_of_add_carry (rfl : _ + _ * carry.toNat = _) hbytes
  apply Prod.ext
  · apply littleEndian_injective
    · rw [length_chain, List.length_reverse, hlength]
    · exact hvalue.trans hremainder.symm
  · exact Bool.eq_iff_iff.2 (hout.trans hcarry.symm)

end Mnemonic

/-! ## Processors that shift -/

namespace Cpu

section Place

variable {M : Type} [Bus M]

/-- Where the instruction at the program counter finds its byte. -/
def operand (cpu : Cpu M) : Operand := cpu.resolve (Instruction.decode cpu.memory cpu.pc).mode

/-- The byte that a step finds there. -/
def foundByte (cpu : Cpu M) : Byte := cpu.readOperand cpu.operand

/-- The byte that a step leaves there. -/
def leftByte (cpu : Cpu M) : Byte := cpu.stepped.readOperand cpu.operand

/-- The carry that is left when each of the processors has taken a step. -/
def carryLeft (carry : Bool) : List (Cpu M) → Bool
  | [] => carry
  | cpu :: cpus => carryLeft cpu.stepped.status.carry cpus

end Place

/-- Each of the processors is about to rewrite a byte, and finds the carry that the one before
left.  What else has happened in between does not matter. -/
def RewriteInTurn (first rest : Mnemonic) (carry : Bool) : List (Cpu Ram) → Prop
  | [] => True
  | cpu :: cpus =>
      cpu.mnemonic = some first ∧ cpu.status.carry = carry ∧
        RewriteInTurn rest rest cpu.stepped.status.carry cpus

/-- Reading an operand looks at the accumulator and at memory alone. -/
theorem readOperand_congr {s t : Cpu Ram} (ha : s.a = t.a) (hmemory : s.memory = t.memory)
    (operand : Operand) : s.readOperand operand = t.readOperand operand := by
  cases operand with
  | accumulator => exact ha
  | memory address crossed => rw [readOperand, readOperand, hmemory]
  | implied | immediate value => rfl

/-- What is written to an operand is read back from it, if it has a place for a byte. -/
theorem readOperand_writeOperand (cpu : Cpu Ram) (value : Byte) {mode : AddressingMode}
    (hmode : mode = .accumulator ∨ mode.hasAddress = true) :
    (cpu.writeOperand value (cpu.resolve mode)).readOperand (cpu.resolve mode) = value := by
  rcases hmode with rfl | haddress
  · rfl
  · obtain ⟨address, heffective⟩ := cpu.exists_effectiveAddress haddress
    rw [cpu.resolve_of_effectiveAddress heffective]
    exact Ram.read_write_self cpu.memory (UInt16.ofNat address) value

theorem execute_rewrites (cpu : Cpu Ram) {mode : AddressingMode} {m : Mnemonic}
    (hmode : mode = .accumulator ∨ mode.hasAddress = true) (hrewrites : m.rewritesOperand = true) :
    let result := m.rewrite cpu.status.carry (cpu.readOperand (cpu.resolve mode))
    let next := (cpu.execute mode m.operation).2
    next.readOperand (cpu.resolve mode) = result.1 ∧
      next.status = { cpu.status with carry := result.2 }.withResult result.1 := by
  intro result next
  obtain ⟨change_, hoperation⟩ := Mnemonic.operation_of_rewritesOperand hrewrites
  have hchange := Mnemonic.change_eq_rewrite hoperation cpu.status
    (cpu.readOperand (cpu.resolve mode))
  have hnext : next = { cpu.writeOperand result.1 (cpu.resolve mode) with
      status := { cpu.status with carry := result.2 }.withResult result.1 }.advance mode := by
    simp only [next, hoperation, execute, hchange]
    rfl
  rw [hnext]
  exact ⟨(readOperand_congr rfl rfl _).trans (cpu.readOperand_writeOperand result.1 hmode), rfl⟩

/-- A step rewrites the byte that it finds, wherever its mode leads, and the flags go by the
byte that it leaves. -/
theorem stepped_rewrites (cpu : Cpu Ram) {m : Mnemonic} (hmnemonic : cpu.mnemonic = some m)
    (hrewrites : m.rewritesOperand = true) :
    (∃ cost, cpu.step = .ok (cost, cpu.stepped)) ∧
    cpu.leftByte = (m.rewrite cpu.status.carry cpu.foundByte).1 ∧
    cpu.stepped.status =
      { cpu.status with
        carry := (m.rewrite cpu.status.carry cpu.foundByte).2 }.withResult cpu.leftByte := by
  obtain ⟨e, hdocumented, -, rfl, hmode, -, hstep⟩ := step_of_mnemonic_decode hmnemonic
  have hplace := Encoding.rewriting_entries e hdocumented hrewrites
  obtain ⟨hleft, hstatus⟩ := cpu.execute_rewrites hplace hrewrites
  rw [leftByte, foundByte, operand, hmode, stepped_of_ok hstep]
  have hback : (cpu.perform e).2.readOperand (cpu.resolve e.mode) = _ :=
    (readOperand_congr rfl rfl _).trans hleft
  rw [hback]
  exact ⟨⟨_, hstep⟩, rfl, hstatus⟩

/-- Processors that rewrite in turn go through a chain.  The carry gets from each to the next
because the flags that a result sets are others. -/
theorem chain_of_rewriteInTurn {first rest : Mnemonic} {carry : Bool} {cpus : List (Cpu Ram)}
    (hfirst : first.rewritesOperand = true) (hrest : rest.rewritesOperand = true)
    (hturn : RewriteInTurn first rest carry cpus) :
    Mnemonic.chain first rest carry (cpus.map foundByte) =
      (cpus.map leftByte, carryLeft carry cpus) := by
  induction cpus generalizing first carry with
  | nil => rfl
  | cons cpu cpus ih =>
      obtain ⟨hmnemonic, rfl, hturn⟩ := hturn
      obtain ⟨-, hleft, hstatus⟩ := cpu.stepped_rewrites hmnemonic hfirst
      have hcarry : cpu.stepped.status.carry =
          (first.rewrite cpu.status.carry cpu.foundByte).2 := by rw [hstatus]; rfl
      rw [List.map_cons, Mnemonic.chain_cons, ← hleft, ← hcarry, ih hrest hturn]
      rfl

/-- Each step succeeds, and the flags tell what byte it has left. -/
theorem flags_of_rewriteInTurn {first rest : Mnemonic} {carry : Bool} {cpus : List (Cpu Ram)}
    (hfirst : first.rewritesOperand = true) (hrest : rest.rewritesOperand = true)
    (hturn : RewriteInTurn first rest carry cpus) {cpu : Cpu Ram} (hmem : cpu ∈ cpus) :
    (∃ cost, cpu.step = .ok (cost, cpu.stepped)) ∧
      (cpu.stepped.status.zero = true ↔ cpu.leftByte = 0) ∧
      (cpu.stepped.status.negative = true ↔ 128 ≤ cpu.leftByte.toNat) := by
  induction cpus generalizing first carry with
  | nil => cases hmem
  | cons head cpus ih =>
      obtain ⟨hmnemonic, -, hturn⟩ := hturn
      rcases List.mem_cons.1 hmem with rfl | htail
      · obtain ⟨hstep, -, hstatus⟩ := cpu.stepped_rewrites hmnemonic hfirst
        rw [hstatus]
        exact ⟨hstep, beq_iff_eq, Byte.isNegative_eq_true_iff _⟩
      · exact ih hrest hturn htail

/-- Shifts and rotations of `n` bytes are what they are of numbers, and processors that shift
in turn carry them out, wherever their operands lie. -/
theorem shift_chains_compute_wide_shifts {n : Nat} (hn : 1 ≤ n) {bytes : List Byte}
    (hlength : bytes.length = n) (c : Bool) :
    let A := littleEndian bytes
    let shiftedUp := Mnemonic.chain .asl .rol c bytes
    let rotatedUp := Mnemonic.chain .rol .rol c bytes
    let shiftedDown := Mnemonic.chain .lsr .ror c bytes.reverse
    let rotatedDown := Mnemonic.chain .ror .ror c bytes.reverse
    (shiftedUp.1.length = n ∧ littleEndian shiftedUp.1 = 2 * A % 256 ^ n ∧
      shiftedUp.2 = A.testBit (8 * n - 1)) ∧
    (rotatedUp.1.length = n ∧ littleEndian rotatedUp.1 = (2 * A + c.toNat) % 256 ^ n ∧
      rotatedUp.2 = A.testBit (8 * n - 1)) ∧
    (shiftedDown.1.length = n ∧ littleEndian shiftedDown.1.reverse = A / 2 ∧
      shiftedDown.2 = decide (A % 2 = 1)) ∧
    (rotatedDown.1.length = n ∧
      littleEndian rotatedDown.1.reverse = A / 2 + c.toNat * 2 ^ (8 * n - 1) ∧
      rotatedDown.2 = decide (A % 2 = 1)) ∧
    Mnemonic.chain .ror .ror rotatedUp.2 rotatedUp.1.reverse = (bytes.reverse, c) ∧
    Mnemonic.chain .rol .rol rotatedDown.2 rotatedDown.1.reverse = (bytes, c) ∧
    ∀ (first rest : Mnemonic) (cpus : List (Cpu Ram)), first.rewritesOperand = true →
      rest.rewritesOperand = true → RewriteInTurn first rest c cpus →
      Mnemonic.chain first rest c (cpus.map foundByte) = (cpus.map leftByte, carryLeft c cpus) ∧
      ∀ cpu ∈ cpus, (∃ cost, cpu.step = .ok (cost, cpu.stepped)) ∧
        (cpu.stepped.status.zero = true ↔ cpu.leftByte = 0) ∧
        (cpu.stepped.status.negative = true ↔ 128 ≤ cpu.leftByte.toNat) := by
  intro A shiftedUp rotatedUp shiftedDown rotatedDown
  subst hlength
  have hne : bytes ≠ [] := List.length_pos_iff.1 hn
  have hreversed : bytes.reverse ≠ [] := fun hnil => hne (List.reverse_eq_nil_iff.1 hnil)
  have hup : shiftedUp = Mnemonic.chain .rol .rol false bytes := Mnemonic.chain_asl c hne
  have hdown : shiftedDown = Mnemonic.chain .ror .ror false bytes.reverse :=
    Mnemonic.chain_lsr c hreversed
  have hdownLength (first rest : Mnemonic) :
      (Mnemonic.chain first rest c bytes.reverse).1.length = bytes.length := by
    rw [Mnemonic.length_chain, List.length_reverse]
  refine ⟨⟨Mnemonic.length_chain .., ?_⟩,
    ⟨Mnemonic.length_chain .., Mnemonic.chain_rol_in_integers c hne⟩,
    ⟨hdownLength .., ?_⟩, ⟨hdownLength .., Mnemonic.chain_ror_in_integers c hne⟩,
    Mnemonic.chain_ror_chain_rol c bytes, Mnemonic.chain_rol_chain_ror c bytes, ?_⟩
  · rw [hup]
    exact Mnemonic.chain_rol_in_integers false hne
  · have hvalue := Mnemonic.chain_ror_in_integers false hne
    rw [Bool.toNat_false, Nat.zero_mul] at hvalue
    rw [hdown]
    exact hvalue
  · intro first rest cpus hfirst hrest hturn
    exact ⟨chain_of_rewriteInTurn hfirst hrest hturn,
      fun cpu hmem => flags_of_rewriteInTurn hfirst hrest hturn hmem⟩

/-- The low byte of a number in page zero, about to be shifted, and its high byte in the
accumulator. -/
def splitNumber : Cpu Ram where
  a := 0x01
  pc := 0x0200
  memory := Bus.load (Bus.load Ram.zeroed 0x0010 [0x80]) 0x0200 [0x06, 0x10, 0x2A]

/-- Half of the number is shifted in memory and the other half in the accumulator. -/
theorem shift_splitNumber :
    1 ≤ 2 ∧ ([0x80, 0x01] : List Byte).length = 2 ∧
    Mnemonic.asl.rewritesOperand = true ∧ Mnemonic.rol.rewritesOperand = true ∧
    RewriteInTurn .asl .rol false [splitNumber, splitNumber.stepped] ∧
    [splitNumber.foundByte, splitNumber.stepped.foundByte] = [0x80, 0x01] ∧
    littleEndian [splitNumber.leftByte, splitNumber.stepped.leftByte] = 0x0300 ∧
    splitNumber.stepped.stepped.status.carry = false := by
  have hturn : RewriteInTurn .asl .rol false [splitNumber, splitNumber.stepped] :=
    ⟨rfl, rfl, rfl, rfl, trivial⟩
  have hfound : [splitNumber.foundByte, splitNumber.stepped.foundByte] = [0x80, 0x01] := rfl
  obtain ⟨⟨-, hvalue, hcarry⟩, -, -, -, -, -, hrun⟩ :=
    shift_chains_compute_wide_shifts (by decide : 1 ≤ 2)
      (rfl : ([0x80, 0x01] : List Byte).length = 2) false
  obtain ⟨hchain, -⟩ := hrun .asl .rol [splitNumber, splitNumber.stepped] rfl rfl hturn
  rw [List.map_cons, List.map_singleton, hfound] at hchain
  rw [hchain] at hvalue hcarry
  exact ⟨by decide, rfl, rfl, rfl, hturn, hfound, hvalue, hcarry⟩

end Cpu

end Nmos6502
