import Nmos6502.Machine
import Nmos6502.Proofs.Budget

/-!
# Requests of a host

A host drives a processor, or a whole machine, by requests.  Each calls a function of the
model or looks at the state; here they are data, so that a history of requests is a list
and a statement can be about all of them.  `Cpu.after` and `Machine.after` are what is left
behind by a request, whether it succeeds or not: a step that fails leaves everything, a run
that fails leaves what the steps before the failure did, and looking leaves everything as it
was.  `Cpu.reply` is what the host gets to see of it.

A machine does nothing that could not be asked of its processor: `Machine.cpu_session`
turns a session into requests of that kind.  The texts and widths of *its* replies are not
told here.
-/

namespace Nmos6502

namespace Cpu

/-- What a host can ask of a processor, whatever it is wired to. -/
inductive Request
  | step
  | run (budget : UInt64)
  | hardReset (start : Word)
  | softReset
  -- Registers
  | setA (value : Byte)
  | setX (value : Byte)
  | setY (value : Byte)
  | setStackPointer (value : Byte)
  | setCounter (address : Word)
  | setStatus (status : Status)
  | assignFlags (flags : Status) (value : Bool)
  -- Memory
  | clearMemory
  | poke (address : Word) (value : Byte)
  | pokeWord (address value : Word)
  | load (address : Word) (bytes : List Byte)
  | command (command : Monitor.Command)
  -- Looking
  | registers
  | hasFlags (flags : Status)
  | peek (address : Word)
  | peekWord (address : Word)
  | resolve (mode : AddressingMode)
  | disassemble (address : Word)

/-- What a host gets to see of a request. -/
inductive Reply
  | done
  | stepped (result : Except DecodeError Nat)
  | ran (result : Except DecodeError UInt64)
  | quits (quit : Bool)
  | state (registers : Registers) (pc : Word) (cycles : UInt64)
  | flags (set : Bool)
  | byte (value : Byte)
  | word (value : Word)
  | operand (operand : Operand)
  | line (text : String) (size : Nat)

/-- Whether a request gives the host a say in the flags. -/
def Request.setsFlags : Request → Bool
  | .setStatus _ | .assignFlags _ _ => true
  | _ => false

section After

variable {M : Type} [Bus M]

/-- The processor after a step, which leaves it as it was if it fails. -/
def stepped (cpu : Cpu M) : Cpu M :=
  match cpu.step with
  | .ok (_, next) => next
  | .error _ => cpu

/-- The processor after a request. -/
def after (cpu : Cpu M) : Request → Cpu M
  | .step => cpu.stepped
  | .run budget => (cpu.run budget).1
  | .hardReset start => cpu.hardReset start
  | .softReset => cpu.softReset
  | .setA value => { cpu with a := value }
  | .setX value => { cpu with x := value }
  | .setY value => { cpu with y := value }
  | .setStackPointer value => { cpu with sp := value }
  | .setCounter address => { cpu with pc := address }
  | .setStatus status => { cpu with status := status }
  | .assignFlags flags value => { cpu with status := cpu.status.assign flags value }
  | .clearMemory => cpu.clearMemory
  | .poke address value => cpu.poke address value
  | .pokeWord address value => cpu.pokeWord address value
  | .load address bytes => cpu.load address bytes
  | .command command => command.apply cpu
  | .registers | .hasFlags _ | .peek _ | .peekWord _ | .resolve _ | .disassemble _ => cpu

/-- What a step answers: the cycles that it took, or the error. -/
def answer (cpu : Cpu M) : Except DecodeError Nat := cpu.step.map Prod.fst

/-- The mnemonic of the instruction at the program counter. -/
def mnemonic (cpu : Cpu M) : Option Mnemonic :=
  (Instruction.decode cpu.memory cpu.pc).mnemonic

/-- What the processor replies to a request. -/
def reply (cpu : Cpu M) : Request → Reply
  | .step => .stepped cpu.answer
  | .run budget => .ran (cpu.run budget).2
  | .command command => .quits command.isQuit
  | .registers => .state cpu.toRegisters cpu.pc cpu.cycles
  | .hasFlags flags => .flags (cpu.status.contains flags)
  | .peek address => .byte (cpu.peek address)
  | .peekWord address => .word (cpu.peekWord address)
  | .resolve mode => .operand (cpu.resolve mode)
  | .disassemble address =>
      let (text, size) := cpu.disassemble address
      .line text size
  | .hardReset _ | .softReset | .setA _ | .setX _ | .setY _ | .setStackPointer _ |
    .setCounter _ | .setStatus _ | .assignFlags _ _ | .clearMemory | .poke _ _ |
    .pokeWord _ _ | .load _ _ => .done

/-- The replies to requests that are made one after the other. -/
def replies (cpu : Cpu M) : List Request → List Reply
  | [] => []
  | r :: requests => cpu.reply r :: (cpu.after r).replies requests

theorem replies_append (cpu : Cpu M) (earlier later : List Request) :
    cpu.replies (earlier ++ later) =
      cpu.replies earlier ++ (earlier.foldl after cpu).replies later := by
  induction earlier generalizing cpu with
  | nil => rfl
  | cons r earlier ih => exact congrArg _ (ih (cpu.after r))

theorem stepped_of_ok {cpu next : Cpu M} {cost : Nat} (hstep : cpu.step = .ok (cost, next)) :
    cpu.stepped = next := by
  rw [stepped, hstep]

theorem stepped_of_error {cpu : Cpu M} {e : DecodeError} (hstep : cpu.step = .error e) :
    cpu.stepped = cpu := by
  rw [stepped, hstep]

theorem step_of_answer_ok {cpu : Cpu M} {cost : Nat} (hanswer : cpu.answer = .ok cost) :
    cpu.step = .ok (cost, cpu.stepped) := by
  cases hstep : cpu.step with
  | ok outcome =>
      obtain ⟨taken, next⟩ := outcome
      rw [answer, hstep] at hanswer
      cases hanswer
      rw [stepped_of_ok hstep]
  | error e =>
      rw [answer, hstep] at hanswer
      cases hanswer

theorem step_of_answer_error {cpu : Cpu M} {e : DecodeError} (hanswer : cpu.answer = .error e) :
    cpu.step = .error e := by
  cases hstep : cpu.step with
  | ok outcome =>
      rw [answer, hstep] at hanswer
      cases hanswer
  | error e' =>
      rw [answer, hstep] at hanswer
      cases hanswer
      rfl

/-! ## What every step keeps -/

/-- What a step keeps, any number of steps keeps. -/
theorem steps_keep {P : Cpu M → Prop}
    (hkeeps : ∀ cpu cost next, P cpu → cpu.step = .ok (cost, next) → P next)
    {cpu final : Cpu M} {k n : Nat} (hcpu : P cpu) (hsteps : cpu.steps k = .ok (n, final)) :
    P final := by
  induction k generalizing cpu n with
  | zero =>
      cases hsteps
      exact hcpu
  | succ k ih =>
      obtain ⟨cost, next, spent, hstep, hrest, -⟩ := exists_step_of_steps_succ hsteps
      exact ih (hkeeps cpu cost next hcpu hstep) hrest

/-- A run ends behind a number of steps, also if it ends with an error. -/
theorem exists_steps_of_run (cpu : Cpu M) (budget : UInt64) :
    ∃ k n, cpu.steps k = .ok (n, (cpu.run budget).1) := by
  rcases reaches_or_fails cpu budget.toNat with
    ⟨k, n, final, hreaches⟩ | ⟨k, n, final, e, hfails⟩
  · refine ⟨k, n, ?_⟩
    rw [hreaches.run_eq]
    exact hreaches.taken
  · refine ⟨k, n, ?_⟩
    rw [hfails.run_eq]
    exact hfails.taken

theorem run_keeps {P : Cpu M → Prop}
    (hkeeps : ∀ cpu cost next, P cpu → cpu.step = .ok (cost, next) → P next)
    {cpu : Cpu M} (hcpu : P cpu) (budget : UInt64) : P (cpu.run budget).1 := by
  obtain ⟨k, n, hsteps⟩ := exists_steps_of_run cpu budget
  exact steps_keep hkeeps hcpu hsteps

end After

end Cpu

/-! ## Machines -/

namespace Machine

/-- What a host can ask of a machine. -/
inductive Request
  | step
  | run (budget : UInt32)
  | hardReset (start : Word)
  | softReset
  | setCounter (address : Word)
  | poke (address : Word) (value : Byte)
  | loadProgram (start : Word) (program : List Byte)
  | command (line : String)
  -- Looking
  | registers
  | peek (address : Word)
  | peekWord (address : Word)
  | page (number : Byte)
  | disassemble (address : Word)

/-- The machine after a request. -/
def after (machine : Machine) : Request → Machine
  | .step =>
      match machine.step with
      | .ok (_, next) => next
      | .error _ => machine
  | .run budget => (machine.run budget).1
  | .hardReset start => machine.hardReset start
  | .softReset => machine.softReset
  | .setCounter address => machine.setCounter address
  | .poke address value => machine.poke address value
  | .loadProgram start program => machine.loadProgram start program
  | .command line =>
      match machine.command line with
      | .ok (_, next) => next
      | .error _ => machine
  | .registers | .peek _ | .peekWord _ | .page _ | .disassemble _ => machine

/-- The machine that has been booted and has answered requests. -/
def session (start : Word) (requests : List Request) : Machine :=
  requests.foldl after (boot start)

/-- What a machine asks of its processor to answer a request. -/
def Request.toCpu : Request → List Cpu.Request
  | .step => [.step]
  | .run budget => [.run budget.toUInt64]
  | .hardReset start => [.hardReset start]
  | .softReset => [.softReset]
  | .setCounter address => [.setCounter address]
  | .poke address value => [.poke address value]
  | .loadProgram start program => [.load start program, .setCounter start]
  | .command line =>
      match Monitor.Command.parse line with
      | .ok parsed => [.command parsed]
      | .error _ => []
  | .registers | .peek _ | .peekWord _ | .page _ | .disassemble _ => []

theorem cpu_after (machine : Machine) (r : Request) :
    (machine.after r).cpu = r.toCpu.foldl Cpu.after machine.cpu := by
  cases r with
  | step =>
      change (match machine.step with
        | .ok (_, next) => next
        | .error _ => machine).cpu = machine.cpu.stepped
      rw [step, Cpu.stepped]
      cases machine.cpu.step with
      | ok outcome => rfl
      | error e => rfl
  | run budget =>
      change (machine.run budget).1.cpu = (machine.cpu.run budget.toUInt64).1
      rw [run]
      obtain ⟨final, result⟩ := machine.cpu.run budget.toUInt64
      cases result with
      | ok elapsed => rfl
      | error e => rfl
  | command line =>
      change (match machine.command line with
        | .ok (_, next) => next
        | .error _ => machine).cpu = _
      rw [command, Request.toCpu]
      cases Monitor.Command.parse line with
      | ok parsed => rfl
      | error e => rfl
  | hardReset | softReset | setCounter | poke | loadProgram | registers | peek | peekWord |
    page | disassemble => rfl

/-- All that a session does is requests to the processor. -/
theorem cpu_session (start : Word) (requests : List Request) :
    (session start requests).cpu =
      (requests.flatMap Request.toCpu).foldl Cpu.after (boot start).cpu := by
  rw [session]
  generalize boot start = machine
  induction requests generalizing machine with
  | nil => rfl
  | cons r requests ih =>
      rw [List.foldl_cons, ih, List.flatMap_cons, List.foldl_append, cpu_after]

/-- No machine lets its host set the flags. -/
theorem setsFlags_of_mem_toCpu {r : Request} {c : Cpu.Request} (hmem : c ∈ r.toCpu) :
    c.setsFlags = false := by
  cases r with
  | command line =>
      rw [Request.toCpu] at hmem
      split at hmem
      · rw [List.mem_singleton.1 hmem]
        rfl
      · cases hmem
  | loadProgram start program =>
      simp only [Request.toCpu, List.mem_cons, List.not_mem_nil, or_false] at hmem
      rcases hmem with rfl | rfl <;> rfl
  | step | run | hardReset | softReset | setCounter | poke =>
      rw [List.mem_singleton.1 hmem]
      rfl
  | registers | peek | peekWord | page | disassemble => cases hmem

end Machine

end Nmos6502
