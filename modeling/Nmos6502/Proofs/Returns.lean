import Nmos6502.Proofs.Budget
import Nmos6502.Proofs.Writes

/-!
# Calls and interrupts return

A call and an interrupt push a frame, of two bytes and of three.  Whatever is executed
after that, if the frame is on top of the stack again and its bytes are what they were, the
return finds them: it goes on behind the call, or at the address that the interrupt pushed,
with the stack pointer of before.  An interrupt also brings back the status, which has
changed since.

What happens between is *not* restricted: the frame may even be overwritten and restored.
Both kinds of frame may wrap within page one, and both addresses around the address space.
-/

namespace Nmos6502.Cpu

/-! ## Frames -/

/-- The frame that was pushed on the way from `cpu` to `called` is on top of the stack, and
its bytes are what they were. -/
structure FrameFound (cpu called final : Cpu Ram) (size : Nat) : Prop where
  sp : final.sp = called.sp
  cell : ∀ depth < size, final.cell (cpu.pushAddress depth) = called.cell (cpu.pushAddress depth)

/-- The byte that was pushed first is pulled last. -/
theorem FrameFound.stackByte_eq {cpu called final : Cpu Ram} {size value : Nat}
    {cells : List (Nat × Nat)} (hframe : FrameFound cpu called final size)
    (hsp : called.sp.toNat = (cpu.sp.toNat + (256 - size)) % 256)
    (hcells : ChangedBy cpu called cells) (depth : Nat)
    (hmem : (cpu.pushAddress depth, value) ∈ cells) (hdepth : depth < size) (hsize : size ≤ 256) :
    final.stackByte (size - depth) = value := by
  have hoffset : ((cpu.sp.toNat + (256 - size)) % 256 + (size - depth)) % 256 =
      (cpu.sp.toNat + (256 - depth)) % 256 := by omega
  have hcell : final.stackByte (size - depth) = called.cell (cpu.pushAddress depth) := by
    rw [← hframe.cell depth hdepth, stackByte, pushAddress, hframe.sp, hsp, hoffset]
  rw [hcell, hcells.written _ _ hmem]

/-! ## Calls -/

theorem callReturn_of_frameFound {cpu final : Cpu Ram}
    (hframe : FrameFound cpu cpu.call final 2) :
    final.callReturn.pc.toNat = (cpu.pc.toNat + 3) % 65536 ∧ final.callReturn.sp = cpu.sp := by
  have hsp : cpu.call.sp.toNat = (cpu.sp.toNat + (256 - 2)) % 256 :=
    toNat_sp_pushWord cpu (cpu.pc + 2)
  have hcells := changedBy_call cpu
  have hhigh : final.stackByte 2 = (cpu.pc.toNat + 2) % 65536 / 256 :=
    hframe.stackByte_eq hsp hcells 0 (by simp) (by decide) (by decide)
  have hlow : final.stackByte 1 = (cpu.pc.toNat + 2) % 256 :=
    hframe.stackByte_eq hsp hcells 1 (by simp) (by decide) (by decide)
  constructor
  · rw [toNat_pc_callReturn, hhigh, hlow]
    omega
  · change final.sp + 1 + 1 = cpu.sp
    rw [hframe.sp]
    change cpu.sp - 1 - 1 + 1 + 1 = cpu.sp
    rw [UInt8.sub_add_cancel, UInt8.sub_add_cancel]

/-! ## Interrupts -/

theorem interruptReturn_of_frameFound {cpu final : Cpu Ram}
    (hframe : FrameFound cpu cpu.interrupt final 3) :
    final.interruptReturn.pc.toNat = (cpu.pc.toNat + 1) % 65536 ∧
      final.interruptReturn.sp = cpu.sp ∧
      final.interruptReturn.status = { cpu.status with breakCommand := false } := by
  let marked : Status := { cpu.status with breakCommand := true }
  have hsp : cpu.interrupt.sp.toNat = (cpu.sp.toNat + (256 - 3)) % 256 := by
    change ((cpu.pushWord (cpu.pc + 1)).push marked.toByte).sp.toNat = _
    rw [toNat_sp_push, toNat_sp_pushWord]
    omega
  have hcells := changedBy_interrupt cpu
  have hhigh : final.stackByte 3 = (cpu.pc.toNat + 1) % 65536 / 256 :=
    hframe.stackByte_eq hsp hcells 0 (by simp) (by decide) (by decide)
  have hlow : final.stackByte 2 = (cpu.pc.toNat + 1) % 256 :=
    hframe.stackByte_eq hsp hcells 1 (by simp) (by decide) (by decide)
  have hstatus : final.pull.1 = marked.toByte := by
    apply UInt8.toNat_inj.1
    rw [toNat_pull, Status.toNat_toByte]
    exact hframe.stackByte_eq hsp hcells 2 (by simp [marked]) (by decide) (by decide)
  refine ⟨?_, ?_, ?_⟩
  · rw [toNat_pc_interruptReturn, hhigh, hlow]
    omega
  · change final.sp + 1 + 1 + 1 = cpu.sp
    rw [hframe.sp]
    change cpu.sp - 1 - 1 - 1 + 1 + 1 + 1 = cpu.sp
    rw [UInt8.sub_add_cancel, UInt8.sub_add_cancel, UInt8.sub_add_cancel]
  · -- The pulled byte has the mark, which is dropped, and all else is as it was pushed.
    change Status.ofPulled final.pull.1 = _
    rw [hstatus, Status.ofPulled, Status.ofByte_toByte]

/-- A subroutine that finds its frame returns behind the call, and an interrupt handler that
finds its frame returns to the pushed address with the status of before, however long they
ran and whatever they did. -/
theorem returns_resume_caller (cpu : Cpu Ram) :
    ((Instruction.decode cpu.memory cpu.pc).mnemonic = some .jsr →
      ∃ cost called, cpu.step = .ok (cost, called) ∧
      ∀ k n final, called.steps k = .ok (n, final) →
        (Instruction.decode final.memory final.pc).mnemonic = some .rts →
        FrameFound cpu called final 2 →
        ∃ cost next, final.step = .ok (cost, next) ∧
          next.pc.toNat = (cpu.pc.toNat + 3) % 65536 ∧ next.sp = cpu.sp) ∧
    ((Instruction.decode cpu.memory cpu.pc).mnemonic = some .brk →
      ∃ cost called, cpu.step = .ok (cost, called) ∧
      called.status.interruptDisable = true ∧
      ∀ k n final, called.steps k = .ok (n, final) →
        (Instruction.decode final.memory final.pc).mnemonic = some .rti →
        FrameFound cpu called final 3 →
        ∃ cost next, final.step = .ok (cost, next) ∧
          next.pc.toNat = (cpu.pc.toNat + 1) % 65536 ∧ next.sp = cpu.sp ∧
          next.status = { cpu.status with breakCommand := false }) := by
  constructor
  · intro hcall
    obtain ⟨mode, cost, hstep⟩ := step_of_mnemonic hcall
    refine ⟨cost, _, hstep, ?_⟩
    intro k n final _ hreturn hframe
    obtain ⟨last, pulled, hpulled⟩ := step_of_mnemonic hreturn
    -- Counting cycles touches neither the stack pointer nor a cell.
    have hframe : FrameFound cpu cpu.call final 2 := ⟨hframe.sp, hframe.cell⟩
    exact ⟨pulled, _, hpulled, callReturn_of_frameFound hframe⟩
  · intro hinterrupt
    obtain ⟨mode, cost, hstep⟩ := step_of_mnemonic hinterrupt
    refine ⟨cost, _, hstep, rfl, ?_⟩
    intro k n final _ hreturn hframe
    obtain ⟨last, pulled, hpulled⟩ := step_of_mnemonic hreturn
    have hframe : FrameFound cpu cpu.interrupt final 3 := ⟨hframe.sp, hframe.cell⟩
    exact ⟨pulled, _, hpulled, interruptReturn_of_frameFound hframe⟩

/-- A call at the end of the address space, with its frame around the end of page one, to a
subroutine that pushes a byte and pulls it. -/
def callAtTheEnd : Cpu Ram where
  sp := 0x00
  pc := 0xFFFD
  memory := Bus.load (Bus.load Ram.zeroed 0xFFFD [0x20, 0x00, 0x90]) 0x9000 [0x48, 0x68, 0x60]

/-- The subroutine begins. -/
def calledAtTheEnd : Cpu Ram := (callAtTheEnd.perform ⟨0x20, .jsr, .absolute, 6⟩).2

/-- The subroutine has pushed its byte. -/
def pushedAtTheEnd : Cpu Ram := (calledAtTheEnd.perform ⟨0x48, .pha, .implicit, 3⟩).2

/-- The subroutine is about to return. -/
def pulledAtTheEnd : Cpu Ram := (pushedAtTheEnd.perform ⟨0x68, .pla, .implicit, 4⟩).2

/-- An interrupt in the last cell, which is also the high byte of the vector, with a handler
that lets further interrupts in. -/
def interruptAtTheEnd : Cpu Ram where
  sp := 0x01
  status := { carry := true, decimal := true, unused := true }
  pc := 0xFFFF
  memory := Bus.load (Bus.load Ram.zeroed 0xFFFE [0x40, 0x00]) 0x0040 [0x58, 0x40]

/-- The handler begins. -/
def interruptedAtTheEnd : Cpu Ram := (interruptAtTheEnd.perform ⟨0x00, .brk, .implicit, 7⟩).2

/-- The handler is about to return. -/
def admittingAtTheEnd : Cpu Ram := (interruptedAtTheEnd.perform ⟨0x58, .cli, .implicit, 2⟩).2

theorem returns_atTheEnd :
    (calledAtTheEnd.steps 2 = .ok (7, pulledAtTheEnd) ∧
      FrameFound callAtTheEnd calledAtTheEnd pulledAtTheEnd 2 ∧
      ∃ cost next, pulledAtTheEnd.step = .ok (cost, next) ∧ next.pc.toNat = 0 ∧
        next.sp = 0x00) ∧
    interruptedAtTheEnd.steps 1 = .ok (2, admittingAtTheEnd) ∧
      FrameFound interruptAtTheEnd interruptedAtTheEnd admittingAtTheEnd 3 ∧
      ∃ cost next, admittingAtTheEnd.step = .ok (cost, next) ∧ next.pc.toNat = 0 ∧
        next.sp = 0x01 ∧ next.status = interruptAtTheEnd.status := by
  constructor
  · have hcall : callAtTheEnd.step = .ok (6, calledAtTheEnd) :=
      step_of_lookup (show Encoding.lookup callAtTheEnd.opcode =
        some ⟨0x20, .jsr, .absolute, 6⟩ by decide +kernel)
    have hpush : calledAtTheEnd.step = .ok (3, pushedAtTheEnd) :=
      step_of_lookup (show Encoding.lookup calledAtTheEnd.opcode =
        some ⟨0x48, .pha, .implicit, 3⟩ by decide +kernel)
    have hpull : pushedAtTheEnd.step = .ok (4, pulledAtTheEnd) :=
      step_of_lookup (show Encoding.lookup pushedAtTheEnd.opcode =
        some ⟨0x68, .pla, .implicit, 4⟩ by decide +kernel)
    have hsteps : calledAtTheEnd.steps 2 = .ok (3 + (4 + 0), pulledAtTheEnd) :=
      steps_succ_of_ok hpush (steps_succ_of_ok hpull rfl)
    have hframe : FrameFound callAtTheEnd calledAtTheEnd pulledAtTheEnd 2 :=
      ⟨by decide +kernel, by decide +kernel⟩
    obtain ⟨hreturns, -⟩ := returns_resume_caller callAtTheEnd
    obtain ⟨cost, called, hstep, hresume⟩ := hreturns (by decide +kernel)
    obtain ⟨rfl, rfl⟩ := Prod.mk.inj (Except.ok.inj (hcall.symm.trans hstep))
    exact ⟨hsteps, hframe, hresume 2 7 _ hsteps (by decide +kernel) hframe⟩
  · have hinterrupt : interruptAtTheEnd.step = .ok (7, interruptedAtTheEnd) :=
      step_of_lookup (show Encoding.lookup interruptAtTheEnd.opcode =
        some ⟨0x00, .brk, .implicit, 7⟩ by decide +kernel)
    have hclear : interruptedAtTheEnd.step = .ok (2, admittingAtTheEnd) :=
      step_of_lookup (show Encoding.lookup interruptedAtTheEnd.opcode =
        some ⟨0x58, .cli, .implicit, 2⟩ by decide +kernel)
    have hsteps : interruptedAtTheEnd.steps 1 = .ok (2 + 0, admittingAtTheEnd) :=
      steps_succ_of_ok hclear rfl
    have hframe : FrameFound interruptAtTheEnd interruptedAtTheEnd admittingAtTheEnd 3 :=
      ⟨by decide +kernel, by decide +kernel⟩
    obtain ⟨-, hreturns⟩ := returns_resume_caller interruptAtTheEnd
    obtain ⟨cost, called, hstep, -, hresume⟩ := hreturns (by decide +kernel)
    obtain ⟨rfl, rfl⟩ := Prod.mk.inj (Except.ok.inj (hinterrupt.symm.trans hstep))
    exact ⟨hsteps, hframe, hresume 1 2 _ hsteps (by decide +kernel) hframe⟩

end Nmos6502.Cpu
