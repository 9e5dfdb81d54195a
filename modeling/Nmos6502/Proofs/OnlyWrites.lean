import Nmos6502.Bus.Mapped
import Nmos6502.Proofs.Rewiring

/-!
# Only writes reach memory

Whatever a host asks of a processor, memory is changed by writes of single bytes and by nothing
else, as long as clearing is done by writes, too.  `Bus.WrittenFrom` says so of two memories,
and `writtenFrom_requests` of any history of requests.  What each write keeps is therefore kept
for good.

Read-only cells are the case in point.  `Bus.Wiring` is the general form of a board with such
cells: addresses lead to cells, any number of addresses to the same one.  It is *not* said there
that a write to any other cell has the effect that one expects.
-/

namespace Nmos6502

namespace Bus

/-- Clearing the bus is writing zero to each address, from the lowest up. -/
def ClearsByWriting (M : Type) [Bus M] : Prop := ∀ m : M, clear m = fill m 0 65536 0

section WrittenFrom

variable {M : Type} [Bus M]

/-- Writes lead from one memory to the other. -/
def WrittenFrom (m n : M) : Prop := ∃ writes, n = writeAll m writes

namespace WrittenFrom

theorem refl (m : M) : WrittenFrom m m := ⟨[], rfl⟩

theorem write (m : M) (address : Word) (value : Byte) :
    WrittenFrom m (Bus.write m address value) := ⟨[(address, value)], rfl⟩

theorem trans {m n o : M} (hfirst : WrittenFrom m n) (hsecond : WrittenFrom n o) :
    WrittenFrom m o := by
  obtain ⟨first, rfl⟩ := hfirst
  obtain ⟨second, rfl⟩ := hsecond
  exact ⟨first ++ second, (writeAll_append m first second).symm⟩

theorem load (m : M) (address : Word) (bytes : List Byte) :
    WrittenFrom m (Bus.load m address bytes) :=
  ⟨rowWrites address bytes, load_eq_writeAll m address bytes⟩

theorem fill (m : M) (address : Word) (count : Nat) (value : Byte) :
    WrittenFrom m (Bus.fill m address count value) := by
  rw [fill_eq_load]
  exact load m address _

theorem writeWord (m : M) (address value : Word) :
    WrittenFrom m (Bus.writeWord m address value) :=
  (write m address value.low).trans (write _ (address + 1) value.high)

theorem clear (hclear : ClearsByWriting M) (m : M) : WrittenFrom m (Bus.clear m) := by
  rw [hclear]
  exact fill m 0 65536 0

/-- What each write keeps, any number of writes keeps. -/
theorem keeps {P : M → Prop} (hwrite : ∀ m a v, P m → P (Bus.write m a v)) {m n : M}
    (hwritten : WrittenFrom m n) (hm : P m) : P n := by
  obtain ⟨writes, rfl⟩ := hwritten
  induction writes generalizing m with
  | nil => exact hm
  | cons write writes ih => exact ih (hwrite m write.1 write.2 hm)

end WrittenFrom

/-! ## Boards with read-only cells -/

/-- How addresses lead to cells, and which of the cells are read-only.  A write does not rewire
the board, it leaves every cell alone but the one that its address leads to, and that one, too,
if it is read-only. -/
structure Wiring (M Cell : Type) [Bus M] where
  cellOf : M → Word → Cell
  content : M → Cell → Byte
  readOnly : M → Cell → Prop
  read_eq : ∀ m a, read m a = content m (cellOf m a)
  cellOf_write : ∀ m a v, cellOf (write m a v) = cellOf m
  readOnly_write : ∀ m a v, readOnly (write m a v) = readOnly m
  content_write_of_ne : ∀ m a v c, c ≠ cellOf m a → content (write m a v) c = content m c
  content_write_of_readOnly : ∀ m a v, readOnly m (cellOf m a) →
    content (write m a v) (cellOf m a) = content m (cellOf m a)

namespace Wiring

variable {Cell : Type} (w : Wiring M Cell)

/-- The board is wired as it was, and the read-only cell has the byte that it had. -/
structure Keeps (c : Cell) (m n : M) : Prop where
  cellOf : w.cellOf n = w.cellOf m
  readOnly : w.readOnly n c
  content : w.content n c = w.content m c

theorem keeps_write {c : Cell} {m n : M} (hkeeps : w.Keeps c m n) (a : Word) (v : Byte) :
    w.Keeps c m (write n a v) where
  cellOf := (w.cellOf_write n a v).trans hkeeps.cellOf
  readOnly := by
    rw [w.readOnly_write]
    exact hkeeps.readOnly
  content := by
    rw [← hkeeps.content]
    by_cases hcell : c = w.cellOf n a
    · have hreadOnly := hkeeps.readOnly
      rw [hcell] at hreadOnly ⊢
      exact w.content_write_of_readOnly n a v hreadOnly
    · exact w.content_write_of_ne n a v c hcell

theorem keeps_of_writtenFrom {c : Cell} {m n : M} (hreadOnly : w.readOnly m c)
    (hwritten : WrittenFrom m n) : w.Keeps c m n := by
  have hstart : w.Keeps c m m := ⟨rfl, hreadOnly, rfl⟩
  exact hwritten.keeps (P := w.Keeps c m) (fun _ a v hkeeps => w.keeps_write hkeeps a v) hstart

/-- An address that leads to the cell is answered as before. -/
theorem Keeps.read {w : Wiring M Cell} {m n : M} {a : Word}
    (hkeeps : w.Keeps (w.cellOf m a) m n) : Bus.read n a = Bus.read m a := by
  rw [w.read_eq, w.read_eq, hkeeps.cellOf, hkeeps.content]

end Wiring

end WrittenFrom

end Bus

/-- The wiring of a board with few address lines and a range of read-only cells. -/
def MappedMemory.wiring : Bus.Wiring MappedMemory Word where
  cellOf := cellOf
  content m c := m.cells.read c
  readOnly m c := m.isReadOnly c = true
  read_eq _ _ := rfl
  cellOf_write m a v := by
    simp only [Bus.write, write]
    split <;> rfl
  readOnly_write m a v := by
    simp only [Bus.write, write]
    split <;> rfl
  content_write_of_ne m a v c hne := by
    have hcells := Ram.read_write m.cells (m.cellOf a) c v
    rw [if_neg hne] at hcells
    simp only [Bus.write, write]
    split
    · rfl
    · exact hcells
  content_write_of_readOnly m a v hreadOnly := by
    simp only [Bus.write, write]
    rw [if_pos hreadOnly]

namespace Cpu

section OnlyWrites

variable {M : Type} [Bus M]

/-! ## What requests do to memory -/

theorem writtenFrom_stepped (cpu : Cpu M) : Bus.WrittenFrom cpu.memory cpu.stepped.memory := by
  -- A processor that is wired to its own memory reads what it reads.
  have hreads : ∀ e ∈ Encoding.lookup cpu.opcode,
      cpu.ReadsAlike cpu.memory e.mode e.mnemonic.operation := by
    intro e _
    cases e.mnemonic.operation with
    | read | modify | interruptReturn => exact ⟨rfl, rfl⟩
    | store | branch | jump | pull | call | callReturn | interrupt => rfl
    | internal | push => trivial
  obtain ⟨writes, hmemory, -⟩ := cpu.stepped_wiredTo (n := cpu.memory) rfl hreads
  exact ⟨writes, hmemory⟩

/-- A run only writes to memory, also if it ends with an error. -/
theorem writtenFrom_run (cpu : Cpu M) (budget : UInt64) :
    Bus.WrittenFrom cpu.memory (cpu.run budget).1.memory := by
  let Reached : Cpu M → Prop := fun next => Bus.WrittenFrom cpu.memory next.memory
  have hkeeps : ∀ middle cost next, Reached middle → middle.step = .ok (cost, next) →
      Reached next := by
    intro middle cost next hmiddle hstep
    have hwritten := middle.writtenFrom_stepped
    rw [stepped_of_ok hstep] at hwritten
    exact Bus.WrittenFrom.trans hmiddle hwritten
  exact run_keeps (P := Reached) hkeeps (.refl cpu.memory) budget

theorem writtenFrom_after (hclear : Bus.ClearsByWriting M) (cpu : Cpu M) (r : Request) :
    Bus.WrittenFrom cpu.memory (cpu.after r).memory := by
  cases r with
  | step => exact cpu.writtenFrom_stepped
  | run budget => exact cpu.writtenFrom_run budget
  | hardReset start => exact (Bus.WrittenFrom.clear hclear _).trans (.writeWord _ _ _)
  | clearMemory => exact .clear hclear _
  | poke address value => exact .write _ _ _
  | pokeWord address value => exact .writeWord _ _ _
  | load address bytes => exact .load _ _ _
  | command command =>
      cases command with
      | setMemory address value => exact .write _ _ _
      | setBlock address count value => exact .fill _ _ _ _
      | setRegister register value => cases register <;> exact .refl _
      | pushStack value => exact .write _ _ _
      | quit => exact .refl _
  | softReset | setA | setX | setY | setStackPointer | setCounter | setStatus | assignFlags |
    registers | hasFlags | peek | peekWord | resolve | disassemble => exact .refl _

theorem writtenFrom_requests (hclear : Bus.ClearsByWriting M) (cpu : Cpu M)
    (requests : List Request) :
    Bus.WrittenFrom cpu.memory (requests.foldl after cpu).memory := by
  induction requests generalizing cpu with
  | nil => exact .refl cpu.memory
  | cons r requests ih => exact (cpu.writtenFrom_after hclear r).trans (ih _)

/-- Requests keep whatever each single write keeps.  A read-only cell therefore has the same
byte after them, whatever address one looks at it through. -/
theorem requests_only_write (hclear : Bus.ClearsByWriting M) (cpu : Cpu M)
    (requests : List Request) :
    let final := requests.foldl after cpu
    (∀ P : M → Prop, (∀ m a v, P m → P (Bus.write m a v)) →
      P cpu.memory → P final.memory) ∧
    ∀ (Cell : Type) (w : Bus.Wiring M Cell) (c : Cell), w.readOnly cpu.memory c →
      w.content final.memory c = w.content cpu.memory c ∧
      ∀ a, w.cellOf cpu.memory a = c →
        Bus.read final.memory a = Bus.read cpu.memory a := by
  have hwritten := cpu.writtenFrom_requests hclear requests
  refine ⟨fun P hwrite hmemory => hwritten.keeps hwrite hmemory, ?_⟩
  intro Cell w c hreadOnly
  have hkeeps := w.keeps_of_writtenFrom hreadOnly hwritten
  refine ⟨hkeeps.content, ?_⟩
  rintro a rfl
  exact hkeeps.read

end OnlyWrites

/-- A board with twelve address lines, on which the stack lies in read-only cells. -/
def burntStack : Cpu MappedMemory where
  pc := 0x0200
  memory := MappedMemory.burn
    { lines := 0x0FFF, readOnly := some ⟨0x0100, 0x01FF⟩, cells := Ram.zeroed } 0x01FF [0x42]

/-- Neither a push nor a block over the whole address space changes a cell of that stack, here
seen through one of the other addresses that lead to it. -/
theorem requests_burntStack :
    Bus.ClearsByWriting MappedMemory ∧
    let final := [.command (.pushStack 0x07), .hardReset 0x0200,
      .command (.setBlock 0 0xFFFF 0x48), .run 1000, .clearMemory].foldl after burntStack
    final.memory.lines = 0x0FFF ∧ Bus.read final.memory 0xF1FF = 0x42 := by
  have hclear : Bus.ClearsByWriting MappedMemory := fun _ => rfl
  refine ⟨hclear, ?_⟩
  intro final
  obtain ⟨hkept, hreadOnly⟩ := requests_only_write hclear burntStack
    [.command (.pushStack 0x07), .hardReset 0x0200, .command (.setBlock 0 0xFFFF 0x48),
      .run 1000, .clearMemory]
  constructor
  · refine hkept (fun m => m.lines = 0x0FFF) ?_ rfl
    intro m a v hlines
    simp only [Bus.write, MappedMemory.write]
    split <;> exact hlines
  · have hburnt : burntStack.memory.isReadOnly 0x01FF = true := by decide +kernel
    obtain ⟨-, hread⟩ := hreadOnly Word MappedMemory.wiring 0x01FF hburnt
    rw [hread 0xF1FF (by decide +kernel)]
    decide +kernel

end Cpu

end Nmos6502
