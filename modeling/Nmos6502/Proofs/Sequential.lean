import Nmos6502.Proofs.Counter
import Nmos6502.Proofs.Flags

/-!
# What sequential instructions compute

An instruction that goes on behind itself takes in one byte and changes registers and
flags.  `Registers.after` says which, with integers: sums and differences are taken
modulo 256, carries and overflows are comparisons, and everything that it does not
mention is kept.  The decimal flag appears *nowhere* in it but where it is set, cleared
or pulled.
-/

namespace Nmos6502

/-- Zero and Negative of a result below 256. -/
def Status.marked (s : Status) (result : Nat) : Status :=
  { s with zero := decide (result = 0), negative := decide (128 ≤ result) }

/-- The one instruction of a kind that has no function. -/
def Operation.owner? : Operation → Option Mnemonic
  | .jump => some .jmp
  | .call => some .jsr
  | .callReturn => some .rts
  | .interrupt => some .brk
  | .interruptReturn => some .rti
  | .read _ | .store _ | .modify _ | .internal _ | .push _ | .pull _ | .branch _ => none

namespace Mnemonic

/-- Whether the instruction reads its operand and writes it back. -/
def rewritesOperand : Mnemonic → Bool
  | .inc | .dec | .asl | .lsr | .rol | .ror => true
  | _ => false

/-- A kind with an owner is the kind of no other instruction. -/
theorem eq_of_operation {m owner : Mnemonic} {op : Operation} (hoperation : m.operation = op)
    (howner : op.owner? = some owner) : m = owner := by
  subst hoperation
  cases m with
  | jmp | jsr | rts | brk | rti => exact Option.some.inj howner
  | _ => cases howner

theorem eq_of_operation_store {m : Mnemonic} {value : Registers → Byte}
    (hoperation : m.operation = .store value) : m = .sta ∨ m = .stx ∨ m = .sty := by
  cases m with
  | sta => exact .inl rfl
  | stx => exact .inr (.inl rfl)
  | sty => exact .inr (.inr rfl)
  | _ => cases hoperation

theorem eq_of_operation_pull {m : Mnemonic} {use : Registers → Byte → Registers}
    (hoperation : m.operation = .pull use) : m = .pla ∨ m = .plp := by
  cases m with
  | pla => exact .inl rfl
  | plp => exact .inr rfl
  | _ => cases hoperation

theorem rewritesOperand_of_operation {m : Mnemonic} {change : Status → Byte → Byte × Status}
    (hoperation : m.operation = .modify change) : m.rewritesOperand = true := by
  cases m with
  | inc | dec | asl | lsr | rol | ror => rfl
  | _ => cases hoperation

theorem operation_of_rewritesOperand {m : Mnemonic} (hrewrites : m.rewritesOperand = true) :
    ∃ change, m.operation = .modify change := by
  cases m with
  | inc | dec | asl | lsr | rol | ror => exact ⟨_, rfl⟩
  | _ => cases hrewrites

/-- What a read-modify-write instruction makes of a byte. -/
def rewritten (carry byte : Nat) : Mnemonic → Nat
  | .inc => (byte + 1) % 256
  | .dec => (byte + 255) % 256
  | .asl => 2 * byte % 256
  | .lsr => byte / 2
  | .rol => (2 * byte + carry) % 256
  | .ror => byte / 2 + 128 * carry
  | _ => byte

end Mnemonic

namespace Registers

/-- A result for the accumulator. -/
def putA (r : Registers) (result : Nat) : Registers :=
  { r with a := UInt8.ofNat result, status := r.status.marked result }

/-- A result for the X register. -/
def putX (r : Registers) (result : Nat) : Registers :=
  { r with x := UInt8.ofNat result, status := r.status.marked result }

/-- A result for the Y register. -/
def putY (r : Registers) (result : Nat) : Registers :=
  { r with y := UInt8.ofNat result, status := r.status.marked result }

/-- A result that goes back to where the operand came from. -/
def putBack (r : Registers) (mode : AddressingMode) (result : Nat) : Registers :=
  { r with
    a := if mode = .accumulator then UInt8.ofNat result else r.a
    status := r.status.marked result }

/-- The flags of a comparison. -/
def compared (r : Registers) (register byte : Nat) : Registers :=
  let flags := { r.status with carry := decide (byte ≤ register) }
  { r with status := flags.marked ((register + 256 - byte) % 256) }

/-- The bit that falls out of a sum, a difference or a shift. -/
def carried (r : Registers) (carry : Bool) : Registers :=
  { r with status := { r.status with carry := carry } }

/-- Whether a sum or difference left the range of signed bytes. -/
def overflown (r : Registers) (overflow : Bool) : Registers :=
  { r with status := { r.status with overflow := overflow } }

/-- The registers after a sequential instruction that took in `byte`. -/
def after (r : Registers) (m : Mnemonic) (mode : AddressingMode) (byte : Nat) : Registers :=
  let a := r.a.toNat
  let x := r.x.toNat
  let y := r.y.toNat
  let sp := r.sp.toNat
  let c := r.status.carry.toNat
  match m with
  | .lda => r.putA byte
  | .ldx => r.putX byte
  | .ldy => r.putY byte
  | .and => r.putA (a &&& byte)
  | .ora => r.putA (a ||| byte)
  | .eor => r.putA (a ^^^ byte)
  | .adc =>
      let overflow := leavesSignedByte (signedValue a + signedValue byte + c)
      ((r.carried (decide (255 < a + byte + c))).overflown overflow).putA
        ((a + byte + c) % 256)
  | .sbc =>
      let borrow := 1 - c
      let overflow := leavesSignedByte (signedValue a - signedValue byte - borrow)
      ((r.carried (decide (byte + borrow ≤ a))).overflown overflow).putA
        ((a + 256 - byte - borrow) % 256)
  | .cmp => r.compared a byte
  | .cpx => r.compared x byte
  | .cpy => r.compared y byte
  | .bit =>
      { r with status :=
          { r.status with
            zero := decide (a &&& byte = 0)
            negative := byte.testBit 7
            overflow := byte.testBit 6 } }
  | .inc | .dec => r.putBack mode (m.rewritten c byte)
  | .asl | .rol =>
      (r.carried (decide (128 ≤ byte))).putBack mode (m.rewritten c byte)
  | .lsr | .ror =>
      (r.carried (decide (byte % 2 = 1))).putBack mode (m.rewritten c byte)
  | .inx => r.putX ((x + 1) % 256)
  | .iny => r.putY ((y + 1) % 256)
  | .dex => r.putX ((x + 255) % 256)
  | .dey => r.putY ((y + 255) % 256)
  | .tax => r.putX a
  | .tay => r.putY a
  | .txa => r.putA x
  | .tya => r.putA y
  | .tsx => r.putX sp
  | .txs => { r with sp := r.x }
  | .clc => { r with status := { r.status with carry := false } }
  | .sec => { r with status := { r.status with carry := true } }
  | .cld => { r with status := { r.status with decimal := false } }
  | .sed => { r with status := { r.status with decimal := true } }
  | .cli => { r with status := { r.status with interruptDisable := false } }
  | .sei => { r with status := { r.status with interruptDisable := true } }
  | .clv => { r with status := { r.status with overflow := false } }
  | .pha | .php => { r with sp := UInt8.ofNat ((sp + 255) % 256) }
  | .pla => { r.putA byte with sp := UInt8.ofNat ((sp + 1) % 256) }
  | .plp =>
      { r with sp := UInt8.ofNat ((sp + 1) % 256), status := .ofPulledBits byte }
  | .sta | .stx | .sty | .nop => r
  -- The rest choose the next program counter themselves.
  | .bpl | .bmi | .bvc | .bvs | .bcc | .bcs | .bne | .beq => r
  | .brk | .jmp | .jsr | .rts | .rti => r

/-! ## Results in integers -/

theorem withResult_eq (s : Status) (b : Byte) : s.withResult b = s.marked b.toNat := by
  have hzero : (b == 0) = decide (b.toNat = 0) := by
    rw [Bool.eq_iff_iff, beq_iff_eq, decide_eq_true_iff, ← UInt8.toNat_inj]
    rfl
  rw [Status.withResult, Status.marked, hzero]
  rfl

theorem withA_eq (r : Registers) {b : Byte} {n : Nat} (hvalue : b.toNat = n) :
    r.withA b = r.putA n := by
  rw [withA, putA, withResult_eq, ← hvalue, UInt8.ofNat_toNat]

theorem withX_eq (r : Registers) {b : Byte} {n : Nat} (hvalue : b.toNat = n) :
    r.withX b = r.putX n := by
  rw [withX, putX, withResult_eq, ← hvalue, UInt8.ofNat_toNat]

theorem withY_eq (r : Registers) {b : Byte} {n : Nat} (hvalue : b.toNat = n) :
    r.withY b = r.putY n := by
  rw [withY, putY, withResult_eq, ← hvalue, UInt8.ofNat_toNat]

theorem withSum_eq (r : Registers) {sum : Alu.Sum} {n : Nat} {carry overflow : Bool}
    (hvalue : sum.value.toNat = n) (hcarry : sum.carry = carry)
    (hoverflow : sum.overflow = overflow) :
    r.withSum sum = ((r.carried carry).overflown overflow).putA n := by
  subst hcarry hoverflow
  exact withA_eq ((r.carried sum.carry).overflown sum.overflow) hvalue

theorem withComparison_eq (r : Registers) (register operand : Byte) :
    r.withComparison register operand = r.compared register.toNat operand.toNat := by
  have hoperand := operand.toNat_lt
  have hdifference :
      (register - operand).toNat = (register.toNat + 256 - operand.toNat) % 256 := by
    rw [UInt8.toNat_sub]
    omega
  have hcarry : decide (operand ≤ register) = decide (operand.toNat ≤ register.toNat) :=
    decide_eq_decide.2 UInt8.le_iff_toNat_le
  rw [withComparison, compared, withResult_eq, hdifference, hcarry]

theorem withBitTest_eq (r : Registers) (operand : Byte) (mode : AddressingMode) :
    r.withBitTest operand = r.after .bit mode operand.toNat := by
  have hzero : (r.a &&& operand == 0) = decide (r.a.toNat &&& operand.toNat = 0) := by
    rw [Bool.eq_iff_iff, beq_iff_eq, decide_eq_true_iff, ← UInt8.toNat_inj, UInt8.toNat_and]
    rfl
  rw [withBitTest, after, hzero]
  rfl

/-! ## The table of operations in integers -/

/-- An instruction that computes with the byte of its operand. -/
theorem use_eq_after (r : Registers) {m : Mnemonic} {use : Registers → Byte → Registers}
    (mode : AddressingMode) (b : Byte) (hoperation : m.operation = .read use) :
    use r b = r.after m mode b.toNat := by
  cases m with
  | lda =>
      cases hoperation
      exact r.withA_eq rfl
  | ldx =>
      cases hoperation
      exact r.withX_eq rfl
  | ldy =>
      cases hoperation
      exact r.withY_eq rfl
  | and =>
      cases hoperation
      exact r.withA_eq (UInt8.toNat_and ..)
  | ora =>
      cases hoperation
      exact r.withA_eq (UInt8.toNat_or ..)
  | eor =>
      cases hoperation
      exact r.withA_eq (UInt8.toNat_xor ..)
  | adc =>
      cases hoperation
      exact r.withSum_eq (Alu.toNat_value_add ..) (Alu.carry_add ..) (Alu.overflow_add ..)
  | sbc =>
      cases hoperation
      have hb := b.toNat_lt
      have hborrow : (!r.status.carry).toNat = 1 - r.status.carry.toNat := by
        cases r.status.carry <;> rfl
      have hvalue := Alu.toNat_value_subtract r.a b r.status.carry
      have hcarry := Alu.carry_subtract r.a b r.status.carry
      have hoverflow := Alu.overflow_subtract r.a b r.status.carry
      rw [hborrow] at hvalue hcarry hoverflow
      exact r.withSum_eq (by omega) hcarry hoverflow
  | cmp =>
      cases hoperation
      exact r.withComparison_eq r.a b
  | cpx =>
      cases hoperation
      exact r.withComparison_eq r.x b
  | cpy =>
      cases hoperation
      exact r.withComparison_eq r.y b
  | bit =>
      cases hoperation
      exact r.withBitTest_eq b mode
  | _ => cases hoperation

theorem toNat_decremented (b : Byte) : (b - 1).toNat = (b.toNat + 255) % 256 := by
  rw [UInt8.toNat_sub, Nat.add_comm]
  rfl

/-- An instruction that works on the registers alone. -/
theorem change_eq_after (r : Registers) {m : Mnemonic} {change : Registers → Registers}
    (mode : AddressingMode) (byte : Nat) (hoperation : m.operation = .internal change) :
    change r = r.after m mode byte := by
  cases m with
  | inx =>
      cases hoperation
      exact r.withX_eq (UInt8.toNat_add ..)
  | iny =>
      cases hoperation
      exact r.withY_eq (UInt8.toNat_add ..)
  | dex =>
      cases hoperation
      exact r.withX_eq (toNat_decremented r.x)
  | dey =>
      cases hoperation
      exact r.withY_eq (toNat_decremented r.y)
  | tax | tsx =>
      cases hoperation
      exact r.withX_eq rfl
  | tay =>
      cases hoperation
      exact r.withY_eq rfl
  | txa | tya =>
      cases hoperation
      exact r.withA_eq rfl
  | txs | nop | clc | sec | cld | sed | cli | sei | clv =>
      cases hoperation
      rfl
  | _ => cases hoperation

/-- An instruction that pulls a byte. -/
theorem pulled_eq_after (r : Registers) {m : Mnemonic} {use : Registers → Byte → Registers}
    (mode : AddressingMode) (b : Byte) (hoperation : m.operation = .pull use) :
    use { r with sp := r.sp + 1 } b = r.after m mode b.toNat := by
  have hsp : r.sp + 1 = UInt8.ofNat ((r.sp.toNat + 1) % 256) := by
    apply UInt8.toNat_inj.1
    simp [UInt8.toNat_add]
  cases m with
  | pla =>
      cases hoperation
      rw [withA_eq _ rfl, hsp]
      rfl
  | plp =>
      cases hoperation
      rw [hsp]
      rfl
  | _ => cases hoperation

/-- An instruction that pushes a byte. -/
theorem pushed_eq_after (r : Registers) {m : Mnemonic} {value : Registers → Byte}
    (mode : AddressingMode) (byte : Nat) (hoperation : m.operation = .push value) :
    { r with sp := r.sp - 1 } = r.after m mode byte := by
  have hsp : r.sp - 1 = UInt8.ofNat ((r.sp.toNat + 255) % 256) := by
    apply UInt8.toNat_inj.1
    rw [toNat_decremented]
    simp
  cases m with
  | pha | php =>
      rw [hsp]
      rfl
  | _ => cases hoperation

/-- An instruction that reads its operand and writes it back. -/
theorem rewritten_eq_after (r : Registers) {m : Mnemonic}
    {change : Status → Byte → Byte × Status} (mode : AddressingMode) (b : Byte)
    (hoperation : m.operation = .modify change) :
    (change r.status b).1.toNat = m.rewritten r.status.carry.toNat b.toNat ∧
    { r with
      a := if mode = .accumulator then (change r.status b).1 else r.a
      status := (change r.status b).2 } = r.after m mode b.toNat := by
  have hputBack : ∀ (s : Status) (value : Byte) (result : Nat), value.toNat = result →
      ({ r with
        a := if mode = .accumulator then value else r.a
        status := s.withResult value } : Registers) =
      { r with status := s }.putBack mode result := by
    rintro s value result rfl
    rw [putBack, withResult_eq, UInt8.ofNat_toNat]
  cases m with
  | inc =>
      cases hoperation
      have hvalue : (b + 1).toNat = (b.toNat + 1) % 256 := UInt8.toNat_add ..
      exact ⟨hvalue, hputBack r.status (b + 1) _ hvalue⟩
  | dec =>
      cases hoperation
      have hvalue : (b + -1).toNat = (b.toNat + 255) % 256 := UInt8.toNat_add ..
      exact ⟨hvalue, hputBack r.status (b + -1) _ hvalue⟩
  | asl =>
      cases hoperation
      have hvalue : (Alu.shiftLeft b false).value.toNat =
          Mnemonic.asl.rewritten r.status.carry.toNat b.toNat := by
        rw [Alu.toNat_value_shiftLeft]
        rfl
      refine ⟨hvalue, (hputBack { r.status with carry := _ } _ _ hvalue).trans ?_⟩
      rw [Alu.carry_shiftLeft]
      rfl
  | lsr =>
      cases hoperation
      have hvalue : (Alu.shiftRight b false).value.toNat =
          Mnemonic.lsr.rewritten r.status.carry.toNat b.toNat := by
        rw [Alu.toNat_value_shiftRight]
        rfl
      refine ⟨hvalue, (hputBack { r.status with carry := _ } _ _ hvalue).trans ?_⟩
      rw [Alu.carry_shiftRight]
      rfl
  | rol =>
      cases hoperation
      have hvalue : (Alu.shiftLeft b r.status.carry).value.toNat =
          Mnemonic.rol.rewritten r.status.carry.toNat b.toNat := by
        rw [Alu.toNat_value_shiftLeft]
        rfl
      refine ⟨hvalue, (hputBack { r.status with carry := _ } _ _ hvalue).trans ?_⟩
      rw [Alu.carry_shiftLeft]
      rfl
  | ror =>
      cases hoperation
      have hvalue : (Alu.shiftRight b r.status.carry).value.toNat =
          Mnemonic.ror.rewritten r.status.carry.toNat b.toNat := by
        rw [Alu.toNat_value_shiftRight]
        rfl
      refine ⟨hvalue, (hputBack { r.status with carry := _ } _ _ hvalue).trans ?_⟩
      rw [Alu.carry_shiftRight]
      rfl
  | _ => cases hoperation

end Registers

namespace Encoding

theorem store_entries : ∀ e ∈ documented,
    e.mnemonic = .sta ∨ e.mnemonic = .stx ∨ e.mnemonic = .sty → e.mode.hasAddress = true := by
  decide +kernel

theorem rewriting_entries : ∀ e ∈ documented, e.mnemonic.rewritesOperand = true →
    e.mode = .accumulator ∨ e.mode.hasAddress = true := by
  decide +kernel

end Encoding

namespace Cpu

section Registers

variable {M : Type} [Bus M]

/-- The byte that an instruction takes in: the one that it pulls, or the one that its
mode selects. -/
def intake (cpu : Cpu M) (m : Mnemonic) (mode : AddressingMode) : Nat :=
  if m = .pla ∨ m = .plp then cpu.stackByte 1 else cpu.selected mode

theorem toRegisters_writeOperand (cpu : Cpu M) (mode : AddressingMode) (value : Byte) :
    (cpu.writeOperand value (cpu.resolve mode)).toRegisters =
      { cpu.toRegisters with a := if mode = .accumulator then value else cpu.a } := by
  cases mode <;> rfl

theorem intake_eq_selected (cpu : Cpu M) {m : Mnemonic} (mode : AddressingMode)
    (hoperation : ∀ use, m.operation ≠ .pull use) :
    cpu.intake m mode = cpu.selected mode := by
  rw [intake, if_neg]
  rintro (rfl | rfl)
  · exact hoperation _ rfl
  · exact hoperation _ rfl

/-- The registers after a read-modify-write instruction, before it moves on. -/
theorem toRegisters_modify (cpu : Cpu M) {m : Mnemonic} {change : Status → Byte → Byte × Status}
    (mode : AddressingMode) (hoperation : m.operation = .modify change) :
    (cpu.execute mode (.modify change)).2.toRegisters =
      cpu.toRegisters.after m mode (cpu.selected mode) := by
  let b := cpu.readOperand (cpu.resolve mode)
  have hregisters := cpu.toRegisters_writeOperand mode (change cpu.status b).1
  have hafter := (Registers.rewritten_eq_after cpu.toRegisters mode b hoperation).2
  rw [toNat_readOperand] at hafter
  rw [← hafter]
  change { (cpu.writeOperand (change cpu.status b).1 (cpu.resolve mode)).toRegisters with
    status := (change cpu.status b).2 } = _
  rw [hregisters]

/-- A sequential instruction changes the registers as its integers say. -/
theorem toRegisters_perform (cpu : Cpu M) {e : Encoding}
    (hdocumented : e ∈ Encoding.documented) (hsequential : e.mnemonic.setsCounter = false) :
    (cpu.perform e).2.toRegisters =
      cpu.toRegisters.after e.mnemonic e.mode (cpu.intake e.mnemonic e.mode) := by
  change (cpu.execute e.mode e.mnemonic.operation).2.toRegisters = _
  have hkind := Mnemonic.isSequential_operation e.mnemonic
  rw [hsequential] at hkind
  cases hoperation : e.mnemonic.operation with
  | read use =>
      rw [intake_eq_selected cpu e.mode (by rw [hoperation]; rintro _ ⟨⟩), ← toNat_readOperand]
      exact Registers.use_eq_after cpu.toRegisters e.mode _ hoperation
  | store value =>
      have hmnemonic := Mnemonic.eq_of_operation_store hoperation
      have hmode : e.mode ≠ .accumulator := by
        intro haccumulator
        have haddress := Encoding.store_entries e hdocumented hmnemonic
        rw [haccumulator] at haddress
        cases haddress
      change (cpu.writeOperand _ (cpu.resolve e.mode)).toRegisters = _
      rw [toRegisters_writeOperand, if_neg hmode]
      rcases hmnemonic with h | h | h <;> rw [h] <;> rfl
  | modify change_ =>
      rw [intake_eq_selected cpu e.mode (by rw [hoperation]; rintro _ ⟨⟩)]
      exact toRegisters_modify cpu e.mode hoperation
  | internal change_ => exact Registers.change_eq_after _ e.mode _ hoperation
  | push value => exact Registers.pushed_eq_after _ e.mode _ hoperation
  | pull use =>
      rw [intake, if_pos (Mnemonic.eq_of_operation_pull hoperation), ← toNat_pull]
      exact Registers.pulled_eq_after cpu.toRegisters e.mode cpu.pull.1 hoperation
  | branch | jump | call | callReturn | interrupt | interruptReturn =>
      rw [hoperation] at hkind
      cases hkind

end Registers

/-! ## Full memory -/

/-- An operand with an address is written in the cell of that address. -/
theorem cell_writeOperand (cpu : Cpu Ram) {mode : AddressingMode} {address : Nat}
    (haddress : cpu.effectiveAddress mode = some address) (value : Byte) {n : Nat}
    (hn : n < 65536) :
    (cpu.writeOperand value (cpu.resolve mode)).cell n =
      if n = address then value.toNat else cpu.cell n := by
  have hbound := cpu.effectiveAddress_lt haddress
  rw [cpu.resolve_of_effectiveAddress haddress]
  change (cpu.poke (UInt16.ofNat address) value).cell n = _
  rw [cell_poke, UInt16.toNat_ofNat', Nat.mod_eq_of_lt hbound, Nat.mod_eq_of_lt hn]

/-- A read-modify-write instruction writes the cell that it read. -/
theorem cell_modify (cpu : Cpu Ram) {m : Mnemonic} {change : Status → Byte → Byte × Status}
    {mode : AddressingMode} {address : Nat} (hoperation : m.operation = .modify change)
    (haddress : cpu.effectiveAddress mode = some address) {n : Nat} (hn : n < 65536) :
    (cpu.execute mode (.modify change)).2.cell n =
      if n = address then m.rewritten cpu.status.carry.toNat (cpu.selected mode)
      else cpu.cell n := by
  let b := cpu.readOperand (cpu.resolve mode)
  have hvalue := (Registers.rewritten_eq_after cpu.toRegisters mode b hoperation).1
  rw [toNat_readOperand] at hvalue
  change (cpu.writeOperand (change cpu.status b).1 (cpu.resolve mode)).cell n = _
  rw [cell_writeOperand cpu haddress _ hn, hvalue]

/-- A sequential instruction puts what its integers say into the registers and, where
it writes its operand back, into the operand. -/
theorem step_sequential_registers (cpu : Cpu Ram) {m : Mnemonic}
    (hmnemonic : (Instruction.decode cpu.memory cpu.pc).mnemonic = some m)
    (hsequential : m.setsCounter = false) :
    let mode := (Instruction.decode cpu.memory cpu.pc).mode
    ∃ cost next, cpu.step = .ok (cost, next) ∧
      next.toRegisters = cpu.toRegisters.after m mode (cpu.intake m mode) ∧
      (m.rewritesOperand = true →
        mode = .accumulator ∧
          next.a.toNat = m.rewritten cpu.status.carry.toNat cpu.a.toNat ∨
        ∃ address, cpu.effectiveAddress mode = some address ∧
          next.cell address = m.rewritten cpu.status.carry.toNat (cpu.cell address)) := by
  obtain ⟨e, hdocumented, -, rfl, hmode, -, hstep⟩ := step_of_mnemonic_decode hmnemonic
  rw [hmode]
  refine ⟨_, _, hstep, toRegisters_perform cpu hdocumented hsequential, ?_⟩
  intro hrewrites
  obtain ⟨change_, hoperation⟩ := Mnemonic.operation_of_rewritesOperand hrewrites
  rcases Encoding.rewriting_entries e hdocumented hrewrites with haccumulator | hcell
  · left
    refine ⟨haccumulator, ?_⟩
    change (cpu.execute e.mode e.mnemonic.operation).2.a.toNat = _
    rw [hoperation, haccumulator]
    exact (Registers.rewritten_eq_after cpu.toRegisters .accumulator cpu.a hoperation).1
  · right
    obtain ⟨address, haddress⟩ := cpu.exists_effectiveAddress hcell
    refine ⟨address, haddress, ?_⟩
    change (cpu.execute e.mode e.mnemonic.operation).2.cell address = _
    rw [hoperation, cell_modify cpu hoperation haddress (cpu.effectiveAddress_lt haddress),
      if_pos rfl, selected_of_effectiveAddress cpu haddress]

/-- An addition with the decimal flag set, whose decimal sum would be `05`. -/
def decimalAddition : Cpu Ram where
  a := 0x58
  status := { decimal := true, carry := true }
  pc := 0x8000
  memory := Bus.load Ram.zeroed 0x8000 [0x69, 0x46]

theorem step_decimalAddition :
    ((Instruction.decode decimalAddition.memory decimalAddition.pc).mnemonic = some .adc ∧
      Mnemonic.adc.setsCounter = false) ∧
    ∃ cost next, decimalAddition.step = .ok (cost, next) ∧
      next.a = 0x9F ∧ next.status.carry = false ∧ next.status.overflow = true ∧
      next.status.negative = true ∧ next.status.decimal = true := by
  have hdecode : Instruction.decode decimalAddition.memory decimalAddition.pc =
      ⟨0x8000, 0x69, some .adc, .immediate, [0x46], 2⟩ := by decide +kernel
  have hmnemonic : (Instruction.decode decimalAddition.memory decimalAddition.pc).mnemonic =
      some .adc := by rw [hdecode]
  have hintake : decimalAddition.intake .adc .immediate = 0x46 := by decide +kernel
  obtain ⟨cost, next, hstep, hregisters, -⟩ :=
    step_sequential_registers decimalAddition hmnemonic rfl
  rw [hdecode, hintake] at hregisters
  refine ⟨⟨hmnemonic, rfl⟩, cost, next, hstep, ?_⟩
  rw [hregisters]
  decide

end Cpu

end Nmos6502
