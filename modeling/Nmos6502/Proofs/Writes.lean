import Nmos6502.Proofs.Sequential

/-!
# The cells that a step writes

`Cpu.writes` lists, for the state before a step, each cell that the instruction writes
and the byte that it leaves there.  The addresses in a list differ, so the order of the
writes is *not* part of what it means, and an instruction may list its own bytes, its
pointer or the stack: the addresses are settled before anything is written.
-/

namespace Nmos6502

/-- The operations that write memory, if their operand lies there. -/
def Operation.writesMemory : Operation → Bool
  | .store _ | .modify _ | .push _ | .call | .interrupt => true
  | .read _ | .internal _ | .pull _ | .branch _ | .jump | .callReturn |
    .interruptReturn => false

namespace Cpu

section Writes

variable {M : Type} [Bus M]

/-- The cell that a push goes to when `depth` bytes are pushed before it. -/
def pushAddress (cpu : Cpu M) (depth : Nat) : Nat :=
  0x0100 + (cpu.sp.toNat + (256 - depth)) % 256

/-- A write to the operand, if it has an address. -/
def operandWrite (cpu : Cpu M) (mode : AddressingMode) (value : Nat → Nat) :
    List (Nat × Nat) :=
  match cpu.effectiveAddress mode with
  | some address => [(address, value (cpu.cell address))]
  | none => []

/-- The cells that an instruction writes, with the bytes that it leaves there. -/
def writes (cpu : Cpu M) (m : Mnemonic) (mode : AddressingMode) : List (Nat × Nat) :=
  let pc := cpu.pc.toNat
  match m with
  | .sta => cpu.operandWrite mode fun _ => cpu.a.toNat
  | .stx => cpu.operandWrite mode fun _ => cpu.x.toNat
  | .sty => cpu.operandWrite mode fun _ => cpu.y.toNat
  | .inc | .dec | .asl | .lsr | .rol | .ror =>
      cpu.operandWrite mode fun old => m.rewritten cpu.status.carry.toNat old
  | .pha => [(cpu.pushAddress 0, cpu.a.toNat)]
  | .php => [(cpu.pushAddress 0, cpu.status.weight)]
  | .jsr =>
      [(cpu.pushAddress 0, (pc + 2) % 65536 / 256), (cpu.pushAddress 1, (pc + 2) % 256)]
  | .brk =>
      [(cpu.pushAddress 0, (pc + 1) % 65536 / 256), (cpu.pushAddress 1, (pc + 1) % 256),
        (cpu.pushAddress 2, { cpu.status with breakCommand := true }.weight)]
  | _ => []

/-! ### The list by operation -/

theorem writes_of_operation_store (cpu : Cpu M) {m : Mnemonic} (mode : AddressingMode)
    {value : Registers → Byte} (hoperation : m.operation = .store value) :
    cpu.writes m mode = cpu.operandWrite mode fun _ => (value cpu.toRegisters).toNat := by
  cases m with
  | sta | stx | sty =>
      cases hoperation
      rfl
  | _ => cases hoperation

theorem writes_of_operation_modify (cpu : Cpu M) {m : Mnemonic} (mode : AddressingMode)
    {change : Status → Byte → Byte × Status} (hoperation : m.operation = .modify change) :
    cpu.writes m mode =
      cpu.operandWrite mode fun old => m.rewritten cpu.status.carry.toNat old := by
  cases m with
  | inc | dec | asl | lsr | rol | ror => rfl
  | _ => cases hoperation

theorem writes_of_operation_push (cpu : Cpu M) {m : Mnemonic} (mode : AddressingMode)
    {value : Registers → Byte} (hoperation : m.operation = .push value) :
    cpu.writes m mode = [(cpu.pushAddress 0, (value cpu.toRegisters).toNat)] := by
  cases m with
  | pha =>
      cases hoperation
      rfl
  | php =>
      cases hoperation
      rw [Status.toNat_toByte]
      rfl
  | _ => cases hoperation

theorem writes_of_not_writesMemory (cpu : Cpu M) {m : Mnemonic} (mode : AddressingMode)
    (hreads : m.operation.writesMemory = false) : cpu.writes m mode = [] := by
  cases m with
  | sta | stx | sty | inc | dec | asl | lsr | rol | ror | pha | php | jsr | brk => cases hreads
  | _ => rfl

theorem memory_execute_of_not_writesMemory (cpu : Cpu M) (mode : AddressingMode)
    {op : Operation} (hreads : op.writesMemory = false) :
    (cpu.execute mode op).2.memory = cpu.memory := by
  cases op with
  | read | internal | pull | callReturn | interruptReturn => rfl
  | branch taken =>
      simp only [execute]
      split <;> rfl
  | jump =>
      simp only [execute]
      split <;> rfl
  | store | modify | push | call | interrupt => cases hreads

/-- A run that cannot start leaves everything as it was, with or without a budget. -/
theorem fst_run_of_error {cpu : Cpu M} {e : DecodeError} (hstep : cpu.step = .error e)
    (budget : UInt64) : (cpu.run budget).1 = cpu := by
  rcases Nat.eq_zero_or_pos budget.toNat with hzero | hpos
  · rw [run, hzero, runUntil_zero]
  · rw [run, runUntil_of_error hpos hstep]

end Writes

/-! ## Lists of writes -/

/-- The memory of `next` is that of `cpu` with exactly the given cells written. -/
structure ChangedBy (cpu next : Cpu Ram) (cells : List (Nat × Nat)) : Prop where
  written : ∀ address value, (address, value) ∈ cells → next.cell address = value
  kept : ∀ n < 65536, (∀ value, (n, value) ∉ cells) → next.cell n = cpu.cell n

theorem ChangedBy.nil {cpu next : Cpu Ram} (hmemory : next.memory = cpu.memory) :
    ChangedBy cpu next [] where
  written address value hmem := by cases hmem
  kept n _ _ := by rw [cell, cell, hmemory]

/-- One more write, to a cell that is not in the list yet. -/
theorem ChangedBy.concat {cpu middle next : Cpu Ram} {cells : List (Nat × Nat)}
    {address value : Nat} (hcells : ChangedBy cpu middle cells)
    (hbounds : ∀ a v, (a, v) ∈ cells → a < 65536 ∧ a ≠ address)
    (haddress : address < 65536)
    (hwrite : ∀ n < 65536, next.cell n = if n = address then value else middle.cell n) :
    ChangedBy cpu next (cells ++ [(address, value)]) := by
  constructor
  · intro a v hmem
    rcases List.mem_append.1 hmem with hold | hnew
    · obtain ⟨hbound, hne⟩ := hbounds a v hold
      rw [hwrite a hbound, if_neg hne]
      exact hcells.written a v hold
    · obtain ⟨rfl, rfl⟩ := Prod.mk.inj (List.mem_singleton.1 hnew)
      rw [hwrite a haddress, if_pos rfl]
  · intro n hn hnot
    have hne : n ≠ address := by
      rintro rfl
      exact hnot value (List.mem_append_right _ (List.mem_singleton.2 rfl))
    rw [hwrite n hn, if_neg hne]
    exact hcells.kept n hn fun v hmem => hnot v (List.mem_append_left _ hmem)

theorem ChangedBy.single {cpu next : Cpu Ram} {address value : Nat}
    (haddress : address < 65536)
    (hwrite : ∀ n < 65536, next.cell n = if n = address then value else cpu.cell n) :
    ChangedBy cpu next [(address, value)] :=
  (ChangedBy.nil rfl).concat (by rintro a v ⟨⟩) haddress hwrite

theorem ChangedBy.of_memory_eq {cpu middle next : Cpu Ram} {cells : List (Nat × Nat)}
    (hcells : ChangedBy cpu middle cells) (hmemory : next.memory = middle.memory) :
    ChangedBy cpu next cells := by
  have hcell : ∀ n, next.cell n = middle.cell n := fun n => by rw [cell, cell, hmemory]
  constructor
  · intro address value hmem
    rw [hcell]
    exact hcells.written address value hmem
  · intro n hn hnot
    rw [hcell]
    exact hcells.kept n hn hnot

/-! ## Operands -/

/-- A step that writes its operand changes the cell at the effective address. -/
theorem changedBy_operandWrite {cpu next : Cpu Ram} {mode : AddressingMode}
    {value : Nat → Nat} {address : Nat} (haddress : cpu.effectiveAddress mode = some address)
    (hwrite : ∀ n < 65536, next.cell n =
      if n = address then value (cpu.cell address) else cpu.cell n) :
    ChangedBy cpu next (cpu.operandWrite mode value) := by
  rw [operandWrite, haddress]
  exact ChangedBy.single (cpu.effectiveAddress_lt haddress) hwrite

theorem changedBy_store (cpu : Cpu Ram) {mode : AddressingMode} (value : Registers → Byte)
    (hmode : mode.hasAddress = true) :
    ChangedBy cpu (cpu.execute mode (.store value)).2
      (cpu.operandWrite mode fun _ => (value cpu.toRegisters).toNat) := by
  obtain ⟨address, haddress⟩ := cpu.exists_effectiveAddress hmode
  exact changedBy_operandWrite haddress fun n hn => cell_writeOperand cpu haddress _ hn

theorem changedBy_modify (cpu : Cpu Ram) {m : Mnemonic} {mode : AddressingMode}
    {change : Status → Byte → Byte × Status} (hoperation : m.operation = .modify change)
    (hmode : mode = .accumulator ∨ mode.hasAddress = true) :
    ChangedBy cpu (cpu.execute mode (.modify change)).2
      (cpu.operandWrite mode fun old => m.rewritten cpu.status.carry.toNat old) := by
  rcases hmode with rfl | hmode
  · exact ChangedBy.nil rfl
  · obtain ⟨address, haddress⟩ := cpu.exists_effectiveAddress hmode
    apply changedBy_operandWrite haddress
    intro n hn
    rw [cell_modify cpu hoperation haddress hn, selected_of_effectiveAddress cpu haddress]

/-! ## Pushes -/

theorem pushAddress_lt (cpu : Cpu Ram) (depth : Nat) : cpu.pushAddress depth < 65536 := by
  rw [pushAddress]
  omega

theorem pushAddress_ne (cpu : Cpu Ram) {i j : Nat} (hlt : i < j) (hj : j < 256) :
    cpu.pushAddress i ≠ cpu.pushAddress j := by
  rw [pushAddress, pushAddress]
  omega

/-- A push on top of `depth` others goes to the cell that is counted for it. -/
theorem cell_push_of_depth {cpu middle : Cpu Ram} {depth : Nat}
    (hsp : middle.sp.toNat = (cpu.sp.toNat + (256 - depth)) % 256) (value : Byte) {n : Nat}
    (hn : n < 65536) :
    (middle.push value).cell n =
      if n = cpu.pushAddress depth then value.toNat else middle.cell n := by
  rw [cell_push, Nat.mod_eq_of_lt hn, hsp, pushAddress]

/-- Another push on top of `depth` pushes that are listed already. -/
theorem ChangedBy.push {cpu middle : Cpu Ram} {cells : List (Nat × Nat)} {depth : Nat}
    (hcells : ChangedBy cpu middle cells)
    (hbelow : ∀ a v, (a, v) ∈ cells → ∃ i < depth, a = cpu.pushAddress i)
    (hdepth : depth < 256)
    (hsp : middle.sp.toNat = (cpu.sp.toNat + (256 - depth)) % 256) (value : Byte) :
    ChangedBy cpu (middle.push value) (cells ++ [(cpu.pushAddress depth, value.toNat)]) := by
  apply hcells.concat
  · intro a v hmem
    obtain ⟨i, hi, rfl⟩ := hbelow a v hmem
    exact ⟨cpu.pushAddress_lt i, cpu.pushAddress_ne hi hdepth⟩
  · exact cpu.pushAddress_lt depth
  · intro n hn
    exact cell_push_of_depth hsp value hn

theorem changedBy_push (cpu : Cpu Ram) (value : Byte) :
    ChangedBy cpu (cpu.push value) [(cpu.pushAddress 0, value.toNat)] := by
  have hsp := cpu.sp.toNat_lt
  exact (ChangedBy.nil rfl).push (by rintro a v ⟨⟩) (by decide : 0 < 256) (by omega) value

theorem changedBy_pushWord (cpu : Cpu Ram) (value : Word) :
    ChangedBy cpu (cpu.pushWord value)
      [(cpu.pushAddress 0, value.toNat / 256), (cpu.pushAddress 1, value.toNat % 256)] := by
  rw [← Word.toNat_high, ← Word.toNat_low]
  refine (changedBy_push cpu value.high).push ?_ (by decide : 1 < 256)
    (toNat_sp_push cpu value.high) value.low
  intro a v hmem
  obtain ⟨rfl, -⟩ := Prod.mk.inj (List.mem_singleton.1 hmem)
  exact ⟨0, by decide, rfl⟩

theorem toNat_sp_pushWord (cpu : Cpu Ram) (value : Word) :
    (cpu.pushWord value).sp.toNat = (cpu.sp.toNat + 254) % 256 := by
  rw [pushWord, toNat_sp_push, toNat_sp_push]
  omega

/-- The number behind the program counter, as calls and interrupts push it. -/
theorem changedBy_pushWord_pc (cpu : Cpu Ram) (k : Word) :
    ChangedBy cpu (cpu.pushWord (cpu.pc + k))
      [(cpu.pushAddress 0, (cpu.pc.toNat + k.toNat) % 65536 / 256),
        (cpu.pushAddress 1, (cpu.pc.toNat + k.toNat) % 256)] := by
  have hsum : (cpu.pc + k).toNat = (cpu.pc.toNat + k.toNat) % 65536 := UInt16.toNat_add ..
  have hlow : (cpu.pc.toNat + k.toNat) % 65536 % 256 = (cpu.pc.toNat + k.toNat) % 256 := by
    omega
  rw [← hlow, ← hsum]
  exact changedBy_pushWord cpu (cpu.pc + k)

theorem changedBy_call (cpu : Cpu Ram) :
    ChangedBy cpu cpu.call
      [(cpu.pushAddress 0, (cpu.pc.toNat + 2) % 65536 / 256),
        (cpu.pushAddress 1, (cpu.pc.toNat + 2) % 256)] :=
  (changedBy_pushWord_pc cpu 2).of_memory_eq rfl

theorem changedBy_interrupt (cpu : Cpu Ram) :
    ChangedBy cpu cpu.interrupt
      [(cpu.pushAddress 0, (cpu.pc.toNat + 1) % 65536 / 256),
        (cpu.pushAddress 1, (cpu.pc.toNat + 1) % 256),
        (cpu.pushAddress 2, { cpu.status with breakCommand := true }.weight)] := by
  let status : Byte := { cpu.status with breakCommand := true }.toByte
  have hbelow : ∀ a v,
      (a, v) ∈ [(cpu.pushAddress 0, (cpu.pc.toNat + 1) % 65536 / 256),
        (cpu.pushAddress 1, (cpu.pc.toNat + 1) % 256)] →
      ∃ i < 2, a = cpu.pushAddress i := by
    intro a v hmem
    simp only [List.mem_cons, List.not_mem_nil, or_false, Prod.mk.injEq] at hmem
    rcases hmem with ⟨rfl, -⟩ | ⟨rfl, -⟩
    · exact ⟨0, by decide, rfl⟩
    · exact ⟨1, by decide, rfl⟩
  have hpushed := (changedBy_pushWord_pc cpu 1).push hbelow (by decide : 2 < 256)
    (toNat_sp_pushWord cpu _) status
  rw [Status.toNat_toByte] at hpushed
  exact hpushed.of_memory_eq rfl

/-! ## The step -/

/-- Carrying out a documented instruction writes the cells of its list. -/
theorem changedBy_execute (cpu : Cpu Ram) {e : Encoding}
    (hdocumented : e ∈ Encoding.documented) :
    ChangedBy cpu (cpu.execute e.mode e.mnemonic.operation).2
      (cpu.writes e.mnemonic e.mode) := by
  cases hoperation : e.mnemonic.operation with
  | store value =>
      have hmnemonic := Mnemonic.eq_of_operation_store hoperation
      rw [writes_of_operation_store cpu e.mode hoperation]
      exact changedBy_store cpu value (Encoding.store_entries e hdocumented hmnemonic)
  | modify change_ =>
      have hrewrites := Mnemonic.rewritesOperand_of_operation hoperation
      rw [writes_of_operation_modify cpu e.mode hoperation]
      exact changedBy_modify cpu hoperation
        (Encoding.rewriting_entries e hdocumented hrewrites)
  | push value =>
      rw [writes_of_operation_push cpu e.mode hoperation]
      exact (changedBy_push cpu (value cpu.toRegisters)).of_memory_eq rfl
  | call =>
      rw [Mnemonic.eq_of_operation hoperation rfl]
      exact changedBy_call cpu
  | interrupt =>
      rw [Mnemonic.eq_of_operation hoperation rfl]
      exact changedBy_interrupt cpu
  | read | internal | pull | branch | jump | callReturn | interruptReturn =>
      have hreads : e.mnemonic.operation.writesMemory = false := by rw [hoperation]; rfl
      rw [cpu.writes_of_not_writesMemory e.mode hreads, ← hoperation]
      exact ChangedBy.nil (cpu.memory_execute_of_not_writesMemory e.mode hreads)

/-- A step changes exactly the cells of its list, at addresses that are settled before
it; an undocumented opcode changes none. -/
theorem step_memory_effect (cpu : Cpu Ram) :
    let i := Instruction.decode cpu.memory cpu.pc
    (i.mnemonic = none → (∃ e, cpu.step = .error e) ∧
      ∀ budget n, (cpu.run budget).1.cell n = cpu.cell n) ∧
    ∀ m, i.mnemonic = some m → ∃ cost next, cpu.step = .ok (cost, next) ∧
      ChangedBy cpu next (cpu.writes m i.mode) ∧
      (m = .sta ∨ m = .stx ∨ m = .sty →
        ∃ address, cpu.effectiveAddress i.mode = some address) ∧
      (m.rewritesOperand = true → i.mode = .accumulator ∨
        ∃ address, cpu.effectiveAddress i.mode = some address) := by
  constructor
  · intro hnone
    have hstep := (cpu.step_eq_error_iff_mnemonic_decode _).2 ⟨hnone, rfl⟩
    refine ⟨⟨_, hstep⟩, ?_⟩
    intro budget n
    rw [fst_run_of_error hstep]
  · intro m hmnemonic
    obtain ⟨e, hdocumented, -, rfl, hmode, -, hstep⟩ := step_of_mnemonic_decode hmnemonic
    rw [hmode]
    refine ⟨_, _, hstep, (changedBy_execute cpu hdocumented).of_memory_eq rfl, ?_, ?_⟩
    · intro hstore
      exact cpu.exists_effectiveAddress (Encoding.store_entries e hdocumented hstore)
    · intro hrewrites
      rcases Encoding.rewriting_entries e hdocumented hrewrites with haccumulator | haddress
      · exact .inl haccumulator
      · exact .inr (cpu.exists_effectiveAddress haddress)

/-- A store through a pointer in the zero page onto the pointer itself. -/
def pointerOverwrite : Cpu Ram where
  a := 0x77
  y := 0x02
  pc := 0x8000
  memory := Bus.load (Bus.load Ram.zeroed 0x0010 [0x0E, 0x00]) 0x8000 [0x91, 0x10]

theorem step_pointerOverwrite :
    ∃ cost next, pointerOverwrite.step = .ok (cost, next) ∧
      next.cell 0x0010 = 0x77 ∧
      ∀ n < 65536, n ≠ 0x0010 → next.cell n = pointerOverwrite.cell n := by
  have hdecode : Instruction.decode pointerOverwrite.memory pointerOverwrite.pc =
      ⟨0x8000, 0x91, some .sta, .indirectY, [0x10], 6⟩ := by decide +kernel
  have hwrites : pointerOverwrite.writes .sta .indirectY = [(0x0010, 0x77)] := by
    decide +kernel
  obtain ⟨-, hdocumented⟩ := step_memory_effect pointerOverwrite
  rw [hdecode] at hdocumented
  obtain ⟨cost, next, hstep, hchanged, -⟩ := hdocumented .sta rfl
  rw [hwrites] at hchanged
  refine ⟨cost, next, hstep, hchanged.written _ _ (List.mem_singleton.2 rfl), ?_⟩
  intro n hn hne
  apply hchanged.kept n hn
  intro value hmem
  exact hne (Prod.mk.inj (List.mem_singleton.1 hmem)).1

end Cpu

end Nmos6502
