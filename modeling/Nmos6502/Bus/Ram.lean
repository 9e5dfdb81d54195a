import Nmos6502.Bus
import Nmos6502.ByteTable

/-!
# A full address space of memory

Every address has a cell of its own.  The cells are kept page by page, 256 pages
of 256 bytes, so that a write replaces one page.  `read_write` is the law of the
cells, `read_clear` that of clearing, and `ext_read` says that a memory is no more
than what its addresses answer.
-/

namespace Nmos6502

/-- Sixty-four kilobytes of memory. -/
structure Ram where
  pages : ByteTable (ByteTable Byte)

namespace Ram

/-- The memory with zero in every cell. -/
def zeroed : Ram := ⟨.const (.const 0)⟩

/-- The byte in the cell of an address. -/
@[inline] def read (m : Ram) (address : Word) : Byte :=
  (m.pages.get address.high).get address.low

/-- Replaces the byte in the cell of an address. -/
def write (m : Ram) (address : Word) (value : Byte) : Ram :=
  ⟨m.pages.set address.high ((m.pages.get address.high).set address.low value)⟩

/-- Clearing needs no walk over the cells: it leaves `zeroed`. -/
instance : Bus Ram where
  read := read
  write := write
  clear _ := zeroed

@[simp] theorem read_zeroed (address : Word) : Bus.read zeroed address = 0 := by
  simp [Bus.read, read, zeroed]

@[simp] theorem read_clear (m : Ram) (address : Word) :
    Bus.read (Bus.clear m) address = 0 :=
  read_zeroed address

/-- A write changes the cell of its address and no other. -/
theorem read_write (m : Ram) (a b : Word) (value : Byte) :
    Bus.read (Bus.write m a value) b = if b = a then value else Bus.read m b := by
  simp only [Bus.read, Bus.write, read, write, ByteTable.get_set]
  by_cases hhigh : b.high = a.high
  · by_cases hlow : b.low = a.low
    · have heq : b = a := (Word.eq_iff_low_high b a).2 ⟨hlow, hhigh⟩
      simp [heq, ByteTable.get_set]
    · have hne : b ≠ a := fun heq => hlow (by rw [heq])
      simp [hhigh, hlow, hne, ByteTable.get_set]
  · have hne : b ≠ a := fun heq => hhigh (by rw [heq])
    simp [hhigh, hne]

@[simp] theorem read_write_self (m : Ram) (a : Word) (value : Byte) :
    Bus.read (Bus.write m a value) a = value := by
  simp [read_write]

/-- Two memories that answer alike at every address are the same memory. -/
theorem ext_read {m₁ m₂ : Ram}
    (h : ∀ address, Bus.read m₁ address = Bus.read m₂ address) : m₁ = m₂ := by
  obtain ⟨p₁⟩ := m₁
  obtain ⟨p₂⟩ := m₂
  congr
  apply ByteTable.ext_get
  intro hi
  apply ByteTable.ext_get
  intro lo
  simpa [Bus.read, read] using h (.ofBytes lo hi)

end Ram

end Nmos6502
