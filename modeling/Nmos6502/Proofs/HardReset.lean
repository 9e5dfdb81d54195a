import Nmos6502.Proofs.OnlyWrites

/-!
# What a hard reset leaves behind

On a full address space of memory a hard reset leaves the machine that has just been booted:
`hardReset_eq_boot`.  What came before it, a failed run or a register set by hand, shows in no
reply that comes after it.

On a board with few address lines and read-only cells the same addresses are written, but which
of the writes get anywhere is up to the board.  `MappedMemory.ResetTo` says what they come to,
cell by cell.  A reset vector whose bytes share a cell, or one that is read-only, does *not* hold
what was written to it, and execution starts elsewhere: `pc_hardReset_of_shared` and
`pc_hardReset_of_readOnly`.
-/

namespace Nmos6502

namespace MappedMemory

/-- Some write changes the cell: an address leads to it, and it is not read-only. -/
def IsWritable (m : MappedMemory) (c : Word) : Prop :=
  (∃ address, m.cellOf address = c) ∧ m.isReadOnly c = false

/-- The two are wired alike, and hold the same bytes where no write gets. -/
structure SameBoard (m n : MappedMemory) : Prop where
  lines : n.lines = m.lines
  readOnly : n.readOnly = m.readOnly
  kept : ∀ c, ¬ m.IsWritable c → n.cells.read c = m.cells.read c

/-- What a hard reset makes of a board.  The high byte of the address comes last and stays, the
low byte stays if it has a cell of its own, and every other cell that is written to is zero. -/
structure ResetTo (start : Word) (m n : MappedMemory) : Prop extends SameBoard m n where
  high : m.isReadOnly (m.cellOf 0xFFFD) = false →
    n.cells.read (m.cellOf 0xFFFD) = start.high
  low : m.isReadOnly (m.cellOf 0xFFFC) = false → m.cellOf 0xFFFC ≠ m.cellOf 0xFFFD →
    n.cells.read (m.cellOf 0xFFFC) = start.low
  zero : ∀ c, m.IsWritable c → c ≠ m.cellOf 0xFFFC → c ≠ m.cellOf 0xFFFD →
    n.cells.read c = 0

/-! ## Single writes -/

theorem read_cells_write (m : MappedMemory) (a c : Word) (value : Byte) :
    (Bus.write m a value).cells.read c =
      if c = m.cellOf a ∧ m.isReadOnly c = false then value else m.cells.read c := by
  by_cases hcell : c = m.cellOf a
  · subst hcell
    cases hreadOnly : m.isReadOnly (m.cellOf a) with
    | true =>
        rw [if_neg (fun h => Bool.noConfusion h.2)]
        exact wiring.content_write_of_readOnly m a value hreadOnly
    | false =>
        rw [if_pos ⟨rfl, rfl⟩]
        simp only [Bus.write, write, hreadOnly]
        exact Ram.read_write_self m.cells (m.cellOf a) value
  · rw [if_neg (fun h => hcell h.1)]
    exact wiring.content_write_of_ne m a value c hcell

namespace SameBoard

theorem refl (m : MappedMemory) : SameBoard m m := ⟨rfl, rfl, fun _ _ => rfl⟩

theorem cellOf_eq {m n : MappedMemory} (hsame : SameBoard m n) (a : Word) :
    n.cellOf a = m.cellOf a := by
  rw [cellOf, cellOf, hsame.lines]

theorem isReadOnly_eq {m n : MappedMemory} (hsame : SameBoard m n) (c : Word) :
    n.isReadOnly c = m.isReadOnly c := by
  rw [isReadOnly, isReadOnly, hsame.readOnly]

theorem write {m n : MappedMemory} (hsame : SameBoard m n) (a : Word) (value : Byte) :
    SameBoard m (Bus.write n a value) where
  lines := by
    rw [← hsame.lines]
    simp only [Bus.write, MappedMemory.write]
    split <;> rfl
  readOnly := by
    rw [← hsame.readOnly]
    simp only [Bus.write, MappedMemory.write]
    split <;> rfl
  kept c hc := by
    rw [read_cells_write, if_neg, hsame.kept c hc]
    rintro ⟨rfl, hreadOnly⟩
    exact hc ⟨⟨a, (hsame.cellOf_eq a).symm⟩, hsame.isReadOnly_eq _ ▸ hreadOnly⟩

theorem of_writtenFrom {m n : MappedMemory} (hwritten : Bus.WrittenFrom m n) : SameBoard m n :=
  hwritten.keeps (P := SameBoard m) (fun _ a v hsame => hsame.write a v) (refl m)

end SameBoard

/-! ## The reset -/

theorem clearsByWriting : Bus.ClearsByWriting MappedMemory := fun _ => rfl

/-- Filling leaves its value in each cell that some address of the row leads to. -/
theorem read_cells_fill (m : MappedMemory) (first : Word) (count : Nat) (value : Byte) {c : Word}
    (hc : m.isReadOnly c = false)
    (hreached : m.cells.read c = value ∨ ∃ k < count, m.cellOf (first + UInt16.ofNat k) = c) :
    (Bus.fill m first count value).cells.read c = value := by
  -- A cell that has the value keeps it, since nothing else is written.
  induction count generalizing m first with
  | zero =>
      rcases hreached with hvalue | ⟨k, hk, -⟩
      · exact hvalue
      · exact absurd hk (Nat.not_lt_zero k)
  | succ count ih =>
      have hsame := (SameBoard.refl m).write first value
      rw [Bus.fill_succ]
      apply ih
      · rw [hsame.isReadOnly_eq, hc]
      · rw [read_cells_write]
        by_cases hfirst : c = m.cellOf first
        · rw [if_pos ⟨hfirst, hc⟩]
          exact .inl rfl
        · rw [if_neg (fun h => hfirst h.1)]
          rcases hreached with hvalue | ⟨k, hk, hcell⟩
          · exact .inl hvalue
          · cases k with
            | zero => exact absurd (by simpa using hcell.symm) hfirst
            | succ k =>
                refine .inr ⟨k, Nat.lt_of_succ_lt_succ hk, ?_⟩
                rw [hsame.cellOf_eq, ← hcell, UInt16.add_assoc]
                congr 2
                rw [UInt16.add_comm, ← UInt16.ofNat_one, ← UInt16.ofNat_add]

theorem read_cells_clear (m : MappedMemory) {c : Word} (hc : m.IsWritable c) :
    (Bus.clear m).cells.read c = 0 := by
  obtain ⟨⟨address, haddress⟩, hreadOnly⟩ := hc
  rw [clearsByWriting]
  refine read_cells_fill m 0 65536 0 hreadOnly (.inr ⟨address.toNat, address.toNat_lt, ?_⟩)
  simpa using haddress

theorem resetTo_writeWord_clear (start : Word) (m : MappedMemory) :
    ResetTo start m (Bus.writeWord (Bus.clear m) resetVector start) := by
  have hwritten := Bus.WrittenFrom.clear clearsByWriting m
  have hcleared := SameBoard.of_writtenFrom hwritten
  have hlow := hcleared.write resetVector start.low
  -- What the two writes to the vector leave in a cell, in terms of the board as it was.
  have hcell (c : Word) : (Bus.writeWord (Bus.clear m) resetVector start).cells.read c =
      if c = m.cellOf 0xFFFD ∧ m.isReadOnly c = false then start.high
      else if c = m.cellOf 0xFFFC ∧ m.isReadOnly c = false then start.low
      else (Bus.clear m).cells.read c := by
    rw [Bus.writeWord, read_cells_write, read_cells_write, hlow.cellOf_eq, hlow.isReadOnly_eq,
      hcleared.cellOf_eq, hcleared.isReadOnly_eq]
    rfl
  refine ⟨SameBoard.of_writtenFrom (hwritten.trans (.writeWord _ _ _)), ?_, ?_, ?_⟩
  · intro hreadOnly
    rw [hcell, if_pos ⟨rfl, hreadOnly⟩]
  · intro hreadOnly hne
    rw [hcell, if_neg (fun h => hne h.1), if_pos ⟨rfl, hreadOnly⟩]
  · intro c hc hnotLow hnotHigh
    rw [hcell, if_neg (fun h => hnotHigh h.1), if_neg (fun h => hnotLow h.1),
      read_cells_clear m hc]

end MappedMemory

namespace Cpu

/-! ## Where execution starts on a board -/

theorem readWord_resetVector (m : MappedMemory) :
    Bus.readWord m resetVector =
      .ofBytes (m.cells.read (m.cellOf 0xFFFC)) (m.cells.read (m.cellOf 0xFFFD)) := rfl

theorem resetTo_hardReset (cpu : Cpu MappedMemory) (start : Word) :
    MappedMemory.ResetTo start cpu.memory (cpu.hardReset start).memory :=
  MappedMemory.resetTo_writeWord_clear start cpu.memory

theorem pc_hardReset (cpu : Cpu MappedMemory) (start : Word) :
    (cpu.hardReset start).pc =
      .ofBytes ((cpu.hardReset start).memory.cells.read (cpu.memory.cellOf 0xFFFC))
        ((cpu.hardReset start).memory.cells.read (cpu.memory.cellOf 0xFFFD)) := by
  have hreset := cpu.resetTo_hardReset start
  rw [← hreset.cellOf_eq, ← hreset.cellOf_eq]
  exact readWord_resetVector _

/-- Execution starts where it was asked to if the vector has two cells that take writes. -/
theorem pc_hardReset_of_separate (cpu : Cpu MappedMemory) (start : Word)
    (hlow : cpu.memory.isReadOnly (cpu.memory.cellOf 0xFFFC) = false)
    (hhigh : cpu.memory.isReadOnly (cpu.memory.cellOf 0xFFFD) = false)
    (hseparate : cpu.memory.cellOf 0xFFFC ≠ cpu.memory.cellOf 0xFFFD) :
    (cpu.hardReset start).pc = start := by
  have hreset := cpu.resetTo_hardReset start
  rw [pc_hardReset, hreset.low hlow hseparate, hreset.high hhigh, Word.ofBytes_low_high]

/-- Where the bytes of the vector share a cell, the page number stands for both. -/
theorem pc_hardReset_of_shared (cpu : Cpu MappedMemory) (start : Word)
    (hwritable : cpu.memory.isReadOnly (cpu.memory.cellOf 0xFFFD) = false)
    (hshared : cpu.memory.cellOf 0xFFFC = cpu.memory.cellOf 0xFFFD) :
    (cpu.hardReset start).pc = .ofBytes start.high start.high := by
  have hreset := cpu.resetTo_hardReset start
  rw [pc_hardReset, hshared, hreset.high hwritable]

/-- A read-only vector leads where it has always led. -/
theorem pc_hardReset_of_readOnly (cpu : Cpu MappedMemory) (start : Word)
    (hlow : cpu.memory.isReadOnly (cpu.memory.cellOf 0xFFFC) = true)
    (hhigh : cpu.memory.isReadOnly (cpu.memory.cellOf 0xFFFD) = true) :
    (cpu.hardReset start).pc = Bus.readWord cpu.memory resetVector := by
  have hreset := cpu.resetTo_hardReset start
  have hkept {c : Word} (hc : cpu.memory.isReadOnly c = true) : ¬ cpu.memory.IsWritable c := by
    rintro ⟨-, hwritable⟩
    rw [hc] at hwritable
    cases hwritable
  rw [pc_hardReset, hreset.kept _ (hkept hlow), hreset.kept _ (hkept hhigh)]
  rfl

/-- A board whose reset vector is burnt in. -/
def burntVector (address : Word) : MappedMemory where
  lines := 0xFFFF
  readOnly := some ⟨0xFFFC, 0xFFFD⟩
  cells := Bus.writeWord Ram.zeroed resetVector address

theorem cellOf_burntVector (address a : Word) : (burntVector address).cellOf a = a := by
  apply UInt16.toNat_inj.1
  change (a &&& 0xFFFF).toNat = a.toNat
  rw [UInt16.toNat_and]
  exact (Nat.and_two_pow_sub_one_eq_mod a.toNat 16).trans (Nat.mod_eq_of_lt a.toNat_lt)

theorem readWord_burntVector (address : Word) :
    Bus.readWord (burntVector address) resetVector = address := by
  have hne : resetVector ≠ resetVector + 1 := by decide
  change Word.ofBytes (Bus.read (burntVector address).cells ((burntVector address).cellOf _))
    (Bus.read (burntVector address).cells ((burntVector address).cellOf _)) = address
  rw [cellOf_burntVector, cellOf_burntVector, burntVector, Bus.writeWord, Ram.read_write,
    if_neg hne, Ram.read_write_self, Ram.read_write_self, Word.ofBytes_low_high]

/-- On such a board a reset leads to the address that is burnt in, whatever is asked for. -/
theorem pc_hardReset_burntVector (address start : Word) :
    ((powerUp (burntVector address)).hardReset start).pc = address := by
  have hreadOnly (c : Word) (hc : (0xFFFC ≤ c && c ≤ 0xFFFD) = true) :
      (burntVector address).isReadOnly ((burntVector address).cellOf c) = true := by
    rw [cellOf_burntVector]
    exact hc
  rw [pc_hardReset_of_readOnly _ start (hreadOnly 0xFFFC (by decide))
    (hreadOnly 0xFFFD (by decide))]
  exact readWord_burntVector address

/-! ## A fresh machine -/

theorem hardReset_eq_boot (cpu : Cpu Ram) (start : Word) :
    cpu.hardReset start = (Machine.boot start).cpu := rfl

theorem read_boot (start address : Word) :
    Bus.read (Machine.boot start).cpu.memory address =
      if address = 0xFFFC then start.low else if address = 0xFFFD then start.high else 0 := by
  change Bus.read (Bus.writeWord (Bus.clear Ram.zeroed) resetVector start) address = _
  rw [Bus.writeWord, Ram.read_write, Ram.read_write, Ram.read_clear]
  by_cases hlow : address = 0xFFFC
  · rw [if_pos hlow, hlow]
    rfl
  · rw [if_neg hlow]
    exact congrArg (ite _ _) (if_neg hlow)

theorem pc_boot (start : Word) : (Machine.boot start).cpu.pc = start := by
  change Bus.readWord (Machine.boot start).cpu.memory 0xFFFC = start
  rw [Bus.readWord, read_boot, read_boot]
  exact Word.ofBytes_low_high start

/-- A hard reset makes every processor with a full memory the one of a machine that has just
been booted, and a board that writes do not wholly reach what those writes make of it. -/
theorem hardReset_forgets_history (start : Word) :
    (∀ (cpu : Cpu Ram) (earlier later : List Request),
      cpu.hardReset start = (Machine.boot start).cpu ∧
      (earlier ++ .hardReset start :: later).foldl after cpu =
        later.foldl after (Machine.boot start).cpu ∧
      cpu.replies (earlier ++ .hardReset start :: later) =
        cpu.replies earlier ++ .done :: (Machine.boot start).cpu.replies later) ∧
    (∀ (first : Word) (earlier later : List Machine.Request),
      Machine.session first (earlier ++ .hardReset start :: later) =
        Machine.session start later) ∧
    (let fresh := (Machine.boot start).cpu
     fresh.toRegisters = ⟨0, 0, 0, 0xFF, .empty⟩ ∧ fresh.cycles = 0 ∧ fresh.pc = start ∧
      ∀ address, Bus.read fresh.memory address =
        if address = 0xFFFC then start.low else if address = 0xFFFD then start.high else 0) ∧
    (∀ cpu : Cpu MappedMemory,
      let next := cpu.hardReset start
      next.toRegisters = ⟨0, 0, 0, 0xFF, .empty⟩ ∧ next.cycles = 0 ∧
      MappedMemory.ResetTo start cpu.memory next.memory ∧
      next.pc = Bus.readWord next.memory 0xFFFC) ∧
    ∃ cpu : Cpu MappedMemory, (cpu.hardReset start).pc ≠ start := by
  refine ⟨?_, ?_, ⟨rfl, rfl, pc_boot start, read_boot start⟩, ?_, ?_⟩
  · intro cpu earlier later
    refine ⟨hardReset_eq_boot cpu start, ?_, ?_⟩
    · rw [List.foldl_append, List.foldl_cons, after, hardReset_eq_boot]
    · rw [replies_append, replies, reply, after, hardReset_eq_boot]
  · intro first earlier later
    rw [Machine.session, List.foldl_append, List.foldl_cons]
    rfl
  · intro cpu next
    exact ⟨rfl, rfl, cpu.resetTo_hardReset start, rfl⟩
  · refine ⟨powerUp (burntVector (start + 1)), ?_⟩
    rw [pc_hardReset_burntVector]
    intro hsucc
    exact absurd (UInt16.add_eq_left.1 hsucc) (by decide)

end Cpu

end Nmos6502
