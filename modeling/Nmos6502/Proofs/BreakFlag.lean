import Nmos6502.Bus.Mapped
import Nmos6502.Proofs.Decoding
import Nmos6502.Proofs.Requests

/-!
# Break marks pushed bytes only

Break is a bit of the bytes that are pushed, and never a flag of the processor: once clear
it stays clear, whatever is executed and whatever is pulled.  So the status that `PHP`
pushes has the bit clear and the one that `BRK` pushes has it set, and a handler that looks
at the byte on top of the stack can tell the two apart.

It is a matter of one step: `Operation.KeepsBreakClear` is what the functions of each kind
of instruction have to satisfy, and all fifty-six mnemonics do.  The host may do anything
to memory, but it must *not* set flags itself.
-/

namespace Nmos6502

/-- Break is bit 4 of the status byte. -/
theorem Status.bit_four_toByte (s : Status) : s.toByte.bit 4 = s.breakCommand :=
  congrArg Status.breakCommand (ofByte_toByte s)

/-! ## One instruction -/

/-- The function of an operation does not set Break where it is clear. -/
def Operation.KeepsBreakClear : Operation → Prop
  | .read use | .pull use => ∀ r b,
      r.status.breakCommand = false → (use r b).status.breakCommand = false
  | .modify change => ∀ s b, s.breakCommand = false → (change s b).2.breakCommand = false
  | .internal change => ∀ r,
      r.status.breakCommand = false → (change r).status.breakCommand = false
  | .store _ | .push _ | .branch _ | .jump | .call | .callReturn | .interrupt |
    .interruptReturn => True

theorem Mnemonic.keepsBreakClear_operation (m : Mnemonic) : m.operation.KeepsBreakClear := by
  cases m with
  -- The pulled byte may have the bit set, but it is not taken over.
  | plp => exact fun _ _ _ => rfl
  | lda | ldx | ldy | adc | sbc | and | ora | eor | bit | cmp | cpx | cpy | pla =>
      exact fun _ _ hclear => hclear
  | inc | dec | asl | lsr | rol | ror => exact fun _ _ hclear => hclear
  | inx | iny | dex | dey | tax | tay | txa | tya | tsx | txs | clc | sec | cld | sed | cli |
    sei | clv | nop => exact fun _ hclear => hclear
  | sta | stx | sty | pha | php | bpl | bmi | bvc | bvs | bcc | bcs | bne | beq | brk | jmp |
    jsr | rts | rti => trivial

namespace Cpu

section BreakFlag

variable {M : Type} [Bus M]

theorem status_writeOperand (cpu : Cpu M) (value : Byte) (operand : Operand) :
    (cpu.writeOperand value operand).status = cpu.status := by
  cases operand <;> rfl

theorem breakCommand_execute {cpu : Cpu M} {op : Operation} (mode : AddressingMode)
    (hop : op.KeepsBreakClear) (hclear : cpu.status.breakCommand = false) :
    (cpu.execute mode op).2.status.breakCommand = false := by
  cases op with
  | read use => exact hop _ _ hclear
  | pull use => exact hop _ _ hclear
  | modify change_ => exact hop _ _ hclear
  | internal change_ => exact hop _ hclear
  | store value =>
      change (cpu.writeOperand _ _).status.breakCommand = false
      rw [status_writeOperand]
      exact hclear
  | branch taken =>
      simp only [execute]
      split <;> exact hclear
  | jump =>
      simp only [execute]
      split <;> exact hclear
  | push | call | callReturn | interrupt => exact hclear
  | interruptReturn => rfl

theorem breakCommand_step {cpu next : Cpu M} {cost : Nat}
    (hclear : cpu.status.breakCommand = false) (hstep : cpu.step = .ok (cost, next)) :
    next.status.breakCommand = false := by
  obtain ⟨e, -, houtcome⟩ := (step_eq_ok_iff cpu (cost, next)).1 hstep
  obtain ⟨-, rfl⟩ := Prod.mk.inj houtcome
  exact breakCommand_execute e.mode e.mnemonic.keepsBreakClear_operation hclear

/-! ## What is pushed -/

/-- Whichever instruction pushes the status, the pushed byte tells which it is. -/
structure PushesApart (cpu : Cpu M) : Prop where
  php : (Instruction.decode cpu.memory cpu.pc).mnemonic = some .php →
    let pushed := cpu.push cpu.status.toByte
    ∃ cost next, cpu.step = .ok (cost, next) ∧ next.memory = pushed.memory ∧
      next.sp = pushed.sp ∧ cpu.status.toByte.bit 4 = false
  brk : (Instruction.decode cpu.memory cpu.pc).mnemonic = some .brk →
    let marked := { cpu.status with breakCommand := true }.toByte
    let pushed := (cpu.pushWord (cpu.pc + 1)).push marked
    ∃ cost next, cpu.step = .ok (cost, next) ∧ next.memory = pushed.memory ∧
      next.sp = pushed.sp ∧ marked.bit 4 = true

theorem pushesApart_of_clear {cpu : Cpu M} (hclear : cpu.status.breakCommand = false) :
    cpu.PushesApart := by
  constructor
  case php =>
    intro hmnemonic pushed
    obtain ⟨mode, cost, hstep⟩ := step_of_mnemonic hmnemonic
    exact ⟨cost, _, hstep, rfl, rfl, by rw [Status.bit_four_toByte, hclear]⟩
  case brk =>
    intro hmnemonic marked pushed
    obtain ⟨mode, cost, hstep⟩ := step_of_mnemonic hmnemonic
    exact ⟨cost, _, hstep, rfl, rfl, by rw [Status.bit_four_toByte]⟩

/-- Break is clear, now and after any number of steps, and whatever pushes the status on
the way can be told apart.  A run of any budget takes such steps and no others. -/
structure BreakApart (cpu : Cpu M) : Prop where
  clear : ∀ k n middle, cpu.steps k = .ok (n, middle) → middle.status.breakCommand = false
  apart : ∀ k n middle, cpu.steps k = .ok (n, middle) → middle.PushesApart

theorem breakApart_of_clear {cpu : Cpu M} (hclear : cpu.status.breakCommand = false) :
    cpu.BreakApart := by
  have hsteps : ∀ k n middle, cpu.steps k = .ok (n, middle) →
      middle.status.breakCommand = false :=
    fun k n middle => steps_keep (fun _ _ _ hclear hstep => breakCommand_step hclear hstep) hclear
  exact ⟨hsteps, fun k n middle hk => pushesApart_of_clear (hsteps k n middle hk)⟩

/-! ## Requests -/

theorem status_command (c : Monitor.Command) (cpu : Cpu M) :
    (c.apply cpu).status = cpu.status := by
  cases c with
  | setRegister register value => cases register <;> rfl
  | setMemory | setBlock | pushStack | quit => rfl

theorem breakCommand_after {cpu : Cpu M} {r : Request} (hr : r.setsFlags = false)
    (hclear : cpu.status.breakCommand = false) :
    (cpu.after r).status.breakCommand = false := by
  cases r with
  | step =>
      cases hstep : cpu.step with
      | ok outcome =>
          rw [after, stepped_of_ok hstep]
          exact breakCommand_step hclear hstep
      | error e =>
          rw [after, stepped_of_error hstep]
          exact hclear
  | run budget =>
      exact run_keeps (fun _ _ _ hclear hstep => breakCommand_step hclear hstep) hclear budget
  | hardReset start => rfl
  | command c =>
      change (c.apply cpu).status.breakCommand = false
      rw [status_command]
      exact hclear
  | setStatus | assignFlags => cases hr
  | softReset | setA | setX | setY | setStackPointer | setCounter | clearMemory | poke |
    pokeWord | load | registers | hasFlags | peek | peekWord | resolve | disassemble =>
      exact hclear

/-- The host has made requests, none of which sets flags, and has done with memory what it
liked between them. -/
inductive Handled (start : Cpu M) : Cpu M → Prop
  | start : Handled start start
  | request {cpu : Cpu M} (h : Handled start cpu) (r : Request) (hr : r.setsFlags = false) :
      Handled start (cpu.after r)
  | memory {cpu : Cpu M} (h : Handled start cpu) (memory : M) :
      Handled start { cpu with memory := memory }

theorem Handled.foldl_after {start cpu : Cpu M} (hcpu : Handled start cpu)
    {requests : List Request} (hrequests : ∀ r ∈ requests, r.setsFlags = false) :
    Handled start (requests.foldl after cpu) := by
  induction requests generalizing cpu with
  | nil => exact hcpu
  | cons r requests ih =>
      obtain ⟨hr, hrequests⟩ := List.forall_mem_cons.1 hrequests
      exact ih (hcpu.request r hr) hrequests

theorem Handled.breakCommand {start cpu : Cpu M} (hcpu : Handled start cpu)
    (hclear : start.status.breakCommand = false) : cpu.status.breakCommand = false := by
  induction hcpu with
  | start => exact hclear
  | request _ r hr ih => exact breakCommand_after hr ih
  | memory _ _ ih => exact ih

end BreakFlag

/-! ## Machines -/

/-- What was pushed last is on top of the stack. -/
theorem pull_push (cpu : Cpu Ram) (value : Byte) : (cpu.push value).pull.1 = value := by
  change Bus.read (Bus.write cpu.memory (stackCell cpu.sp) value) (stackCell (cpu.sp - 1 + 1)) = _
  rw [UInt8.sub_add_cancel, Ram.read_write_self]

theorem pull_congr {cpu other : Cpu Ram} (hmemory : cpu.memory = other.memory)
    (hsp : cpu.sp = other.sp) : cpu.pull.1 = other.pull.1 := by
  change Bus.read cpu.memory (stackCell (cpu.sp + 1)) = _
  rw [hmemory, hsp]
  rfl

/-- The byte on top of the stack tells a handler what has pushed it. -/
theorem PushesApart.bit_four_pull {cpu : Cpu Ram} (hapart : cpu.PushesApart) {m : Mnemonic}
    (hmnemonic : (Instruction.decode cpu.memory cpu.pc).mnemonic = some m)
    (hm : m = .php ∨ m = .brk) :
    ∃ cost next, cpu.step = .ok (cost, next) ∧ next.pull.1.bit 4 = decide (m = .brk) := by
  rcases hm with rfl | rfl
  · obtain ⟨cost, next, hstep, hmemory, hsp, hbit⟩ := hapart.php hmnemonic
    refine ⟨cost, next, hstep, ?_⟩
    rw [pull_congr hmemory hsp, pull_push, hbit]
    rfl
  · obtain ⟨cost, next, hstep, hmemory, hsp, hbit⟩ := hapart.brk hmnemonic
    refine ⟨cost, next, hstep, ?_⟩
    rw [pull_congr hmemory hsp, pull_push, hbit]
    rfl

/-- Break is never set, neither in a machine, whatever it is asked to do, nor in any
processor whose host does not set it.  It only marks the status that an interrupt pushes,
and in a machine the byte on top of the stack shows the mark. -/
theorem break_marks_pushed_bytes :
    (∀ (start : Word) (requests : List Machine.Request),
      let cpu := (Machine.session start requests).cpu
      cpu.status.breakCommand = false ∧ cpu.BreakApart ∧
      ∀ k n middle m, cpu.steps k = .ok (n, middle) →
        (Instruction.decode middle.memory middle.pc).mnemonic = some m →
        m = .php ∨ m = .brk →
        ∃ cost next, middle.step = .ok (cost, next) ∧
          next.pull.1.bit 4 = decide (m = .brk)) ∧
    ∀ (M : Type) [Bus M] (start cpu : Cpu M), start.status.breakCommand = false →
      start.Handled cpu → cpu.status.breakCommand = false ∧ cpu.BreakApart := by
  constructor
  · intro start requests cpu
    have hhandled : (Machine.boot start).cpu.Handled cpu := by
      change Handled _ (Machine.session start requests).cpu
      rw [Machine.cpu_session]
      apply Handled.start.foldl_after
      intro r hr
      obtain ⟨request, -, hmem⟩ := List.mem_flatMap.1 hr
      exact Machine.setsFlags_of_mem_toCpu hmem
    have hclear := hhandled.breakCommand rfl
    have hbreak := breakApart_of_clear hclear
    refine ⟨hclear, hbreak, ?_⟩
    intro k n middle m hsteps hmnemonic hm
    exact (hbreak.apart k n middle hsteps).bit_four_pull hmnemonic hm
  · intro M _ start cpu hstart hhandled
    have hclear := hhandled.breakCommand hstart
    exact ⟨hclear, breakApart_of_clear hclear⟩

/-- A program that pulls a status with every bit set and pushes it again. -/
def pullAndPush : List Machine.Request :=
  [.loadProgram 0x0400 [0x28, 0x08], .poke 0x0100 0xFF, .step]

/-- A processor on a board of read-only cells, with every flag but Break set. -/
def flaggedBoard : Cpu MappedMemory where
  status := { Status.all with breakCommand := false }
  pc := 0x8000
  memory := { lines := 0xFFFF, readOnly := some ⟨0x0000, 0xFFFF⟩, cells := .zeroed }

theorem break_pullAndPush :
    let cpu := (Machine.session 0x0400 pullAndPush).cpu
    cpu.status = { Status.all with breakCommand := false } ∧
    (∃ cost next, cpu.step = .ok (cost, next) ∧ next.pull.1.bit 4 = false) ∧
    (flaggedBoard.after .step).status.breakCommand = false := by
  have hstatus : (Machine.session 0x0400 pullAndPush).cpu.status =
      { Status.all with breakCommand := false } := by
    decide +kernel
  have hphp : (Instruction.decode (Machine.session 0x0400 pullAndPush).cpu.memory
      (Machine.session 0x0400 pullAndPush).cpu.pc).mnemonic = some .php := by
    decide +kernel
  obtain ⟨hmachines, hprocessors⟩ := break_marks_pushed_bytes
  obtain ⟨-, -, htop⟩ := hmachines 0x0400 pullAndPush
  obtain ⟨hclear, -⟩ := hprocessors MappedMemory flaggedBoard (flaggedBoard.after .step) rfl
    (Handled.start.request .step rfl)
  exact ⟨hstatus, htop 0 0 _ .php rfl hphp (.inl rfl), hclear⟩

end Cpu

end Nmos6502
