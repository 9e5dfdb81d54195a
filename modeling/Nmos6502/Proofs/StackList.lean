import Nmos6502.Monitor.Command
import Nmos6502.Proofs.Decoding
import Nmos6502.Proofs.Flags
import Nmos6502.Proofs.Stack

/-!
# The stack as a list

Instructions and the monitor push bytes and pull them, one, two or three at a time, and
anything else may happen in between that leaves the stack pointer and page one alone.
Beside such a run goes a list that is driven by the same operations and never looks at
memory: a push puts bytes in front, a pull takes them off.  As long as the bytes on the
list fit the page, `Holds` relates the two; it is carried from each operation to the
next, and with it every pull gets what the list has in front.  What an instruction pushes and
what it makes of the bytes that it pulls is given in numbers and bits.

The stack pointer may begin anywhere and wrap any number of times.  Below the list the
page is *not* specified, and all 256 cells may be in use at once.
-/

namespace Nmos6502

/-- The number of bytes that an instruction pulls. -/
def Mnemonic.pullCount : Mnemonic → Nat
  | .pla | .plp => 1
  | .rts => 2
  | .rti => 3
  | _ => 0

/-- Whether the instruction pushes or pulls. -/
def Mnemonic.usesStack : Mnemonic → Bool
  | .pha | .php | .jsr | .brk | .pla | .plp | .rts | .rti => true
  | _ => false

/-- What an instruction makes of the bytes that it pulls, in the order of the pulls. -/
def Mnemonic.Receives {M : Type} (m : Mnemonic) (next : Cpu M) (bytes : List Byte) : Prop :=
  match m, bytes with
  | .pla, [value] => next.a = value
  | .plp, [status] => next.status = .ofPulledBits status.toNat
  | .rts, [low, high] => next.pc.toNat = (low.toNat + 256 * high.toNat + 1) % 65536
  | .rti, [status, low, high] =>
      next.status = .ofPulledBits status.toNat ∧
        next.pc.toNat = low.toNat + 256 * high.toNat
  | _, _ => False

/-- The bytes of the number behind a word. -/
theorem Word.high_add (w k : Word) :
    (w + k).high = UInt8.ofNat ((w.toNat + k.toNat) % 65536 / 256) := by
  have hsum : (w + k).toNat = (w.toNat + k.toNat) % 65536 := UInt16.toNat_add ..
  rw [← hsum, ← toNat_high, UInt8.ofNat_toNat]

theorem Word.low_add (w k : Word) : (w + k).low = UInt8.ofNat ((w.toNat + k.toNat) % 256) := by
  have hsum : (w + k).toNat % 256 = (w.toNat + k.toNat) % 256 := by
    rw [UInt16.toNat_add]
    omega
  rw [← hsum, ← toNat_low, UInt8.ofNat_toNat]

namespace Cpu

section Bytes

variable {M : Type}

/-- The bytes that an instruction pushes, in the order of the pushes. -/
def pushedBy (cpu : Cpu M) (m : Mnemonic) : List Byte :=
  let pc := cpu.pc.toNat
  match m with
  | .pha => [cpu.a]
  | .php => [.ofNat cpu.status.weight]
  | .jsr => [.ofNat ((pc + 2) % 65536 / 256), .ofNat ((pc + 2) % 256)]
  | .brk =>
      [.ofNat ((pc + 1) % 65536 / 256), .ofNat ((pc + 1) % 256),
        .ofNat { cpu.status with breakCommand := true }.weight]
  | _ => []

theorem pushedBy_php (cpu : Cpu M) : cpu.pushedBy .php = [cpu.status.toByte] := by
  rw [Status.toByte_eq]
  rfl

theorem pushedBy_jsr (cpu : Cpu M) :
    cpu.pushedBy .jsr = [(cpu.pc + 2).high, (cpu.pc + 2).low] := by
  rw [Word.high_add, Word.low_add]
  rfl

theorem pushedBy_brk (cpu : Cpu M) :
    cpu.pushedBy .brk =
      [(cpu.pc + 1).high, (cpu.pc + 1).low,
        { cpu.status with breakCommand := true }.toByte] := by
  rw [Word.high_add, Word.low_add, Status.toByte_eq]
  rfl

variable [Bus M]

/-- Pushes bytes one after the other. -/
def pushBytes (cpu : Cpu M) : List Byte → Cpu M
  | [] => cpu
  | b :: bytes => (cpu.push b).pushBytes bytes

/-- Pulls bytes one after the other. -/
def pullBytes (cpu : Cpu M) : Nat → List Byte × Cpu M
  | 0 => ([], cpu)
  | count + 1 =>
      let (b, cpu) := cpu.pull
      let (bytes, cpu) := cpu.pullBytes count
      (b :: bytes, cpu)

/-- An instruction uses the stack by its pulls and its pushes alone. -/
theorem stack_of_step {cpu next : Cpu M} {m : Mnemonic} {cost : Nat}
    (huses : m.usesStack = true)
    (hmnemonic : (Instruction.decode cpu.memory cpu.pc).mnemonic = some m)
    (hstep : cpu.step = .ok (cost, next)) :
    let stacked := (cpu.pullBytes m.pullCount).2.pushBytes (cpu.pushedBy m)
    next.memory = stacked.memory ∧ next.sp = stacked.sp := by
  obtain ⟨e, rfl, rfl⟩ := exists_perform_of_step hmnemonic hstep
  change (cpu.execute e.mode e.mnemonic.operation).2.memory = _ ∧
    (cpu.execute e.mode e.mnemonic.operation).2.sp = _
  cases hm : e.mnemonic with
  | pha | pla | plp | rts | rti => exact ⟨rfl, rfl⟩
  | php =>
      rw [pushedBy_php]
      exact ⟨rfl, rfl⟩
  | jsr =>
      rw [pushedBy_jsr]
      exact ⟨rfl, rfl⟩
  | brk =>
      rw [pushedBy_brk]
      exact ⟨rfl, rfl⟩
  | _ =>
      rw [hm] at huses
      cases huses

/-- An instruction that pulls receives the bytes that it pulls. -/
theorem receives_of_step {cpu next : Cpu M} {m : Mnemonic} {cost : Nat}
    (hpulls : 0 < m.pullCount)
    (hmnemonic : (Instruction.decode cpu.memory cpu.pc).mnemonic = some m)
    (hstep : cpu.step = .ok (cost, next)) :
    m.Receives next (cpu.pullBytes m.pullCount).1 := by
  obtain ⟨e, rfl, rfl⟩ := exists_perform_of_step hmnemonic hstep
  rw [perform]
  cases hm : e.mnemonic with
  | pla => rfl
  | plp => exact Status.ofPulled_eq cpu.pull.1
  | rts =>
      change (Word.ofBytes cpu.pull.1 cpu.pull.2.pull.1 + 1).toNat = _
      rw [UInt16.toNat_add, Word.toNat_ofBytes]
      rfl
  | rti => exact ⟨Status.ofPulled_eq cpu.pull.1, Word.toNat_ofBytes ..⟩
  | _ =>
      rw [hm] at hpulls
      cases hpulls

end Bytes

/-! ## The list in the page -/

/-- The list is on the stack, with its first byte next to be pulled. -/
structure Holds (cpu : Cpu Ram) (stack : List Byte) : Prop where
  length_le : stack.length ≤ 256
  byte : ∀ j b, stack[j]? = some b → cpu.stackByte (j + 1) = b.toNat

theorem Holds.nil (cpu : Cpu Ram) : Holds cpu [] where
  length_le := Nat.zero_le _
  byte j b hb := by cases hb

/-- Only the stack pointer and the cells of page one matter. -/
theorem Holds.of_page {cpu next : Cpu Ram} {stack : List Byte} (hholds : Holds cpu stack)
    (hsp : next.sp = cpu.sp) (hpage : ∀ n, n / 256 = 1 → next.cell n = cpu.cell n) :
    Holds next stack where
  length_le := hholds.length_le
  byte j b hb := by
    rw [← hholds.byte j b hb, stackByte, stackByte, hsp]
    exact hpage _ (by omega)

theorem Holds.push {cpu : Cpu Ram} {stack : List Byte} (hholds : Holds cpu stack)
    (hroom : stack.length < 256) (value : Byte) : Holds (cpu.push value) (value :: stack) where
  length_le := hroom
  byte j b hb := by
    have hsp := cpu.sp.toNat_lt
    rw [stackByte, toNat_sp_push, cell_push]
    cases j with
    | zero =>
        obtain rfl := Option.some.inj hb
        rw [if_pos (by omega)]
    | succ j =>
        rw [List.getElem?_cons_succ] at hb
        obtain ⟨hj, -⟩ := List.getElem?_eq_some_iff.1 hb
        -- The page has room for one more byte, so the free cell is none of those in use.
        rw [if_neg (by omega), ← hholds.byte j b hb, stackByte]
        congr 2
        omega

theorem Holds.pull {cpu : Cpu Ram} {b : Byte} {stack : List Byte}
    (hholds : Holds cpu (b :: stack)) : cpu.pull.1 = b ∧ Holds cpu.pull.2 stack := by
  constructor
  · apply UInt8.toNat_inj.1
    rw [toNat_pull]
    exact hholds.byte 0 b rfl
  · constructor
    · exact Nat.le_of_succ_le hholds.length_le
    · intro j c hc
      rw [stackByte_pull]
      exact hholds.byte (j + 1) c hc

theorem Holds.pushBytes {cpu : Cpu Ram} {stack bytes : List Byte} (hholds : Holds cpu stack)
    (hroom : stack.length + bytes.length ≤ 256) :
    Holds (cpu.pushBytes bytes) (bytes.reverse ++ stack) := by
  induction bytes generalizing cpu stack with
  | nil => exact hholds
  | cons b bytes ih =>
      rw [List.length_cons] at hroom
      rw [List.reverse_cons, List.append_assoc]
      apply ih (hholds.push (by omega) b)
      rw [List.length_cons]
      omega

theorem Holds.pullBytes {cpu : Cpu Ram} {stack : List Byte} (hholds : Holds cpu stack)
    {count : Nat} (hcount : count ≤ stack.length) :
    (cpu.pullBytes count).1 = stack.take count ∧
      Holds (cpu.pullBytes count).2 (stack.drop count) := by
  induction count generalizing cpu stack with
  | zero => exact ⟨rfl, hholds⟩
  | succ count ih =>
      cases stack with
      | nil => cases hcount
      | cons b stack =>
          obtain ⟨hbyte, hrest⟩ := hholds.pull
          obtain ⟨hbytes, hleft⟩ := ih hrest (Nat.le_of_succ_le_succ hcount)
          refine ⟨?_, hleft⟩
          change cpu.pull.1 :: (cpu.pull.2.pullBytes count).1 = _
          rw [hbyte, hbytes, List.take_succ_cons]

/-! ## The stack pointer and the rest of memory -/

theorem toNat_sp_pushBytes (cpu : Cpu Ram) (bytes : List Byte) :
    ((cpu.pushBytes bytes).sp.toNat : Int) = (cpu.sp.toNat - bytes.length) % 256 := by
  induction bytes generalizing cpu with
  | nil =>
      have hsp := cpu.sp.toNat_lt
      change (cpu.sp.toNat : Int) = ((cpu.sp.toNat : Int) - 0) % 256
      omega
  | cons b bytes ih =>
      rw [pushBytes, ih, toNat_sp_push, List.length_cons]
      omega

theorem toNat_sp_pullBytes (cpu : Cpu Ram) (count : Nat) :
    ((cpu.pullBytes count).2.sp.toNat : Int) = (cpu.sp.toNat + count) % 256 := by
  induction count generalizing cpu with
  | zero =>
      have hsp := cpu.sp.toNat_lt
      change (cpu.sp.toNat : Int) = ((cpu.sp.toNat : Int) + 0) % 256
      omega
  | succ count ih =>
      have hsp : cpu.pull.2.sp.toNat = (cpu.sp.toNat + 1) % 256 := UInt8.toNat_add ..
      change ((cpu.pull.2.pullBytes count).2.sp.toNat : Int) = _
      rw [ih, hsp]
      omega

theorem memory_pullBytes (cpu : Cpu Ram) (count : Nat) :
    (cpu.pullBytes count).2.memory = cpu.memory := by
  induction count generalizing cpu with
  | zero => rfl
  | succ count ih => exact ih cpu.pull.2

theorem cell_pushBytes_of_not_stack (cpu : Cpu Ram) (bytes : List Byte) {n : Nat}
    (hpage : n % 65536 / 256 ≠ 1) : (cpu.pushBytes bytes).cell n = cpu.cell n := by
  induction bytes generalizing cpu with
  | nil => rfl
  | cons b bytes ih => rw [pushBytes, ih, cell_push_of_not_stack cpu b hpage]

end Cpu

/-! ## Operations and their histories -/

/-- An operation, as far as the stack is concerned. -/
inductive StackOperation
  /-- An instruction that pushes or pulls. -/
  | instruction (m : Mnemonic)
  /-- The monitor command that pushes a byte. -/
  | command (value : Byte)
  /-- Anything that leaves the stack pointer and page one alone. -/
  | other

namespace StackOperation

/-- Whether the operation may lead from one state to another. -/
def Leads (op : StackOperation) (cpu next : Cpu Ram) : Prop :=
  match op with
  | instruction m => m.usesStack = true ∧
      (Instruction.decode cpu.memory cpu.pc).mnemonic = some m ∧
      ∃ cost, cpu.step = .ok (cost, next)
  | command value => next = (Monitor.Command.pushStack value).apply cpu
  | other => next.sp = cpu.sp ∧ ∀ n, n / 256 = 1 → next.cell n = cpu.cell n

/-- The bytes that the operation pushes, in the order of the pushes. -/
def pushed (op : StackOperation) (cpu : Cpu Ram) : List Byte :=
  match op with
  | instruction m => cpu.pushedBy m
  | command value => [value]
  | other => []

/-- The number of bytes that the operation pulls. -/
def pulled : StackOperation → Nat
  | instruction m => m.pullCount
  | command _ => 0
  | other => 0

/-- No operation both pulls and pushes. -/
theorem pulled_eq_zero_or_pushed_eq_nil (op : StackOperation) (cpu : Cpu Ram) :
    op.pulled = 0 ∨ op.pushed cpu = [] := by
  cases op with
  | instruction m =>
      cases m with
      | pla | plp | rts | rti => exact .inr rfl
      | _ => exact .inl rfl
  | command value => exact .inl rfl
  | other => exact .inl rfl

/-- What an operation does to the stack pointer and to page one. -/
theorem Leads.stack {op : StackOperation} {cpu next : Cpu Ram} (hleads : op.Leads cpu next) :
    let stacked := (cpu.pullBytes op.pulled).2.pushBytes (op.pushed cpu)
    next.sp = stacked.sp ∧ (∀ n, n / 256 = 1 → next.cell n = stacked.cell n) ∧
      (op.pushed cpu ≠ [] → next.memory = stacked.memory) := by
  cases op with
  | instruction m =>
      obtain ⟨huses, hmnemonic, cost, hstep⟩ := hleads
      obtain ⟨hmemory, hsp⟩ := Cpu.stack_of_step huses hmnemonic hstep
      exact ⟨hsp, fun n _ => by rw [Cpu.cell, Cpu.cell, hmemory]; rfl, fun _ => hmemory⟩
  | command value =>
      change next = _ at hleads
      rw [Monitor.Command.apply_pushStack] at hleads
      subst hleads
      exact ⟨rfl, fun n _ => rfl, fun _ => rfl⟩
  | other =>
      obtain ⟨hsp, hpage⟩ := hleads
      exact ⟨hsp, hpage, fun hpushed => absurd rfl hpushed⟩

end StackOperation

/-- Operations, the last one first, each with the state that it began in. -/
abbrev StackHistory := List (Cpu Ram × StackOperation)

namespace StackHistory

/-- The bytes pushed less the bytes pulled. -/
def depth : StackHistory → Int
  | [] => 0
  | (cpu, op) :: earlier => depth earlier + (op.pushed cpu).length - op.pulled

/-- The list that is driven by the operations, with the last byte pushed in front. -/
def list : StackHistory → List Byte
  | [] => []
  | (cpu, op) :: earlier => (op.pushed cpu).reverse ++ (list earlier).drop op.pulled

/-- The depth never leaves the range that one page allows. -/
def WithinPage : StackHistory → Prop
  | [] => True
  | entry :: earlier =>
      WithinPage earlier ∧ 0 ≤ depth (entry :: earlier) ∧ depth (entry :: earlier) ≤ 256

/-- The history of a run that leads from one state to another. -/
inductive Leads (start : Cpu Ram) : StackHistory → Cpu Ram → Prop
  | nil : Leads start [] start
  | cons {earlier : StackHistory} {cpu next : Cpu Ram} {op : StackOperation}
      (hearlier : Leads start earlier cpu) (hop : op.Leads cpu next) :
      Leads start ((cpu, op) :: earlier) next

/-- Nothing is pulled that was not pushed, so the list is as long as it is deep. -/
theorem length_list {history : StackHistory} (hwithin : history.WithinPage) :
    (history.list.length : Int) = history.depth := by
  induction history with
  | nil => rfl
  | cons entry earlier ih =>
      obtain ⟨cpu, op⟩ := entry
      obtain ⟨hearlier, hlower, -⟩ := hwithin
      have hlength := ih hearlier
      rw [depth] at hlower ⊢
      rw [list, List.length_append, List.length_reverse, List.length_drop]
      rcases op.pulled_eq_zero_or_pushed_eq_nil cpu with hpulled | hpushed
      · rw [hpulled]
        omega
      · rw [hpushed, List.length_nil] at hlower ⊢
        omega

/-- What is pulled next is on the list. -/
theorem pulled_le_length {earlier : StackHistory} {cpu : Cpu Ram} {op : StackOperation}
    (hwithin : WithinPage ((cpu, op) :: earlier)) : op.pulled ≤ (list earlier).length := by
  obtain ⟨hearlier, hlower, -⟩ := hwithin
  have hlength := length_list hearlier
  rw [depth] at hlower
  rcases op.pulled_eq_zero_or_pushed_eq_nil cpu with hpulled | hpushed
  · rw [hpulled]
    exact Nat.zero_le _
  · rw [hpushed, List.length_nil] at hlower
    omega

/-- The step of the invariant: an operation does to the page what it does to the list. -/
theorem holds_cons {earlier : StackHistory} {cpu next : Cpu Ram} {op : StackOperation}
    (hholds : cpu.Holds (list earlier)) (hop : op.Leads cpu next)
    (hwithin : WithinPage ((cpu, op) :: earlier)) : next.Holds (list ((cpu, op) :: earlier)) := by
  obtain ⟨hsp, hpage, -⟩ := hop.stack
  obtain ⟨-, hrest⟩ := hholds.pullBytes (pulled_le_length hwithin)
  have hlength := length_list hwithin
  obtain ⟨-, -, hupper⟩ := hwithin
  rw [list, List.length_append, List.length_reverse] at hlength
  exact (hrest.pushBytes (by omega)).of_page hsp hpage

/-- The invariant of a run, by induction on its history. -/
theorem Leads.holds {start cpu : Cpu Ram} {history : StackHistory}
    (hleads : Leads start history cpu) (hwithin : history.WithinPage) :
    cpu.Holds history.list := by
  induction hleads with
  | nil => exact Cpu.Holds.nil start
  | cons _ hop ih => exact holds_cons (ih hwithin.1) hop hwithin

/-- The stack pointer counts the depth, from wherever it began. -/
theorem Leads.toNat_sp {start cpu : Cpu Ram} {history : StackHistory}
    (hleads : Leads start history cpu) :
    (cpu.sp.toNat : Int) = (start.sp.toNat - history.depth) % 256 := by
  induction hleads with
  | nil =>
      have hsp := start.sp.toNat_lt
      change (start.sp.toNat : Int) = ((start.sp.toNat : Int) - 0) % 256
      omega
  | cons _ hop ih =>
      obtain ⟨hsp, -, -⟩ := hop.stack
      rw [hsp, Cpu.toNat_sp_pushBytes, Cpu.toNat_sp_pullBytes, ih, depth]
      omega

end StackHistory

/-- Page one and the stack pointer are a stack: whatever has been pushed and pulled, by
instructions or by the monitor, the next pull gets what a list would give it. -/
theorem stack_last_in_first_out {start cpu : Cpu Ram} {history : StackHistory}
    (hleads : history.Leads start cpu) (hwithin : history.WithinPage) :
    (cpu.sp.toNat : Int) = (start.sp.toNat - history.depth) % 256 ∧
    (history.list.length : Int) = history.depth ∧
    cpu.Holds history.list ∧
    (∀ (op : StackOperation) next, op.Leads cpu next → op.pushed cpu ≠ [] →
      ∀ n < 65536, n / 256 ≠ 1 → next.cell n = cpu.cell n) ∧
    ∀ m next, (StackOperation.instruction m).Leads cpu next → 0 < m.pullCount →
      StackHistory.WithinPage ((cpu, .instruction m) :: history) →
      (cpu.pullBytes m.pullCount).1 = history.list.take m.pullCount ∧
      m.Receives next (history.list.take m.pullCount) := by
  have hholds := hleads.holds hwithin
  refine ⟨hleads.toNat_sp, StackHistory.length_list hwithin, hholds, ?_, ?_⟩
  · intro op next hop hpushed n hn hpage
    obtain ⟨-, -, hmemory⟩ := hop.stack
    rw [Cpu.cell, hmemory hpushed]
    change Cpu.cell _ n = _
    rw [Cpu.cell_pushBytes_of_not_stack _ _ (by rwa [Nat.mod_eq_of_lt hn]), Cpu.cell,
      Cpu.memory_pullBytes]
    rfl
  · intro m next hop hpulls hnext
    obtain ⟨hbytes, -⟩ := hholds.pullBytes (StackHistory.pulled_le_length hnext)
    obtain ⟨-, hmnemonic, cost, hstep⟩ := hop
    have hreceives := Cpu.receives_of_step hpulls hmnemonic hstep
    change (cpu.pullBytes m.pullCount).1 = _ at hbytes
    rw [hbytes] at hreceives
    exact ⟨hbytes, hreceives⟩

/-- A call whose return address goes around the end of the page. -/
def wrappedCall : Cpu Ram where
  sp := 0x00
  pc := 0x8000
  memory := Bus.load (Bus.load Ram.zeroed 0x8000 [0x20, 0x00, 0x90]) 0x9000 [0x28, 0x60]

/-- The subroutine begins. -/
def wrappedCalled : Cpu Ram := (wrappedCall.perform ⟨0x20, .jsr, .absolute, 6⟩).2

/-- The monitor has pushed a byte. -/
def wrappedPushed : Cpu Ram := (Monitor.Command.pushStack 0x42).apply wrappedCalled

/-- The subroutine has pulled the byte as a status. -/
def wrappedPulled : Cpu Ram := (wrappedPushed.perform ⟨0x28, .plp, .implicit, 4⟩).2

/-- The call and the command. -/
def wrappedPushes : StackHistory :=
  [(wrappedCalled, .command 0x42), (wrappedCall, .instruction .jsr)]

theorem return_wrappedCall :
    (wrappedPushes.Leads wrappedCall wrappedPushed ∧ wrappedPushes.WithinPage) ∧
    wrappedPulled.status = { zero := true, overflow := true } ∧ wrappedPulled.sp = 0xFE ∧
    ∃ cost next, wrappedPulled.step = .ok (cost, next) ∧ next.pc = 0x8003 := by
  have hjsr : Encoding.lookup wrappedCall.opcode = some ⟨0x20, .jsr, .absolute, 6⟩ := by
    decide +kernel
  have hplp : Encoding.lookup wrappedPushed.opcode = some ⟨0x28, .plp, .implicit, 4⟩ := by
    decide +kernel
  have hrts : Encoding.lookup wrappedPulled.opcode = some ⟨0x60, .rts, .implicit, 6⟩ := by
    decide +kernel
  have hcall : (StackOperation.instruction .jsr).Leads wrappedCall wrappedCalled :=
    ⟨rfl, by decide +kernel, 6, Cpu.step_of_lookup hjsr⟩
  have hpush : (StackOperation.command 0x42).Leads wrappedCalled wrappedPushed := rfl
  have hpull : (StackOperation.instruction .plp).Leads wrappedPushed wrappedPulled :=
    ⟨rfl, by decide +kernel, 4, Cpu.step_of_lookup hplp⟩
  have hstep := Cpu.step_of_lookup hrts
  have hreturn : (StackOperation.instruction .rts).Leads wrappedPulled
      (wrappedPulled.perform ⟨0x60, .rts, .implicit, 6⟩).2 :=
    ⟨rfl, by decide +kernel, 6, hstep⟩
  have hpushes : wrappedPushes.Leads wrappedCall wrappedPushed :=
    (StackHistory.Leads.nil.cons hcall).cons hpush
  have hwithin : wrappedPushes.WithinPage :=
    ⟨⟨trivial, by decide, by decide⟩, by decide, by decide⟩
  have hpulled : StackHistory.WithinPage ((wrappedPushed, .instruction .plp) :: wrappedPushes) :=
    ⟨hwithin, by decide, by decide⟩
  have hreturned : StackHistory.WithinPage ((wrappedPulled, .instruction .rts) ::
      (wrappedPushed, .instruction .plp) :: wrappedPushes) :=
    ⟨hpulled, by decide, by decide⟩
  -- The command's byte is in front of the return address, and then that is in front.
  obtain ⟨-, -, -, -, hcommand⟩ := stack_last_in_first_out hpushes hwithin
  obtain ⟨-, hstatus⟩ := hcommand .plp _ hpull (by decide) hpulled
  change wrappedPulled.status = .ofPulledBits 0x42 at hstatus
  obtain ⟨hsp, -, -, -, haddress⟩ := stack_last_in_first_out (hpushes.cons hpull) hpulled
  obtain ⟨-, hpc⟩ := haddress .rts _ hreturn (by decide) hreturned
  refine ⟨⟨hpushes, hwithin⟩, hstatus.trans (by decide), ?_, 6, _, hstep,
    UInt16.toNat_inj.1 hpc⟩
  change (wrappedPulled.sp.toNat : Int) = (0 - 2) % 256 at hsp
  apply UInt8.toNat_inj.1
  change wrappedPulled.sp.toNat = 254
  omega

end Nmos6502
