import Nmos6502.Byte

/-!
# Tables indexed by a byte

A table holds one entry for each of the 256 bytes, so looking one up never fails.
`ByteTable.ext_get` says that a table is its entries, and `get_const` and `get_set`
say what each way of making a table does to them.
-/

namespace Nmos6502

/-- One entry of type `α` for each byte. -/
structure ByteTable (α : Type) where
  entries : Vector α 256

namespace ByteTable

variable {α : Type}

/-- The entry at a byte. -/
@[inline] def get (table : ByteTable α) (index : Byte) : α :=
  have hbound : index.toNat < 256 := index.toNat_lt
  table.entries[index.toNat]

/-- The table with one entry replaced. -/
def set (table : ByteTable α) (index : Byte) (value : α) : ByteTable α :=
  ⟨table.entries.set index.toNat value index.toNat_lt⟩

/-- The table with the same entry everywhere. -/
def const (value : α) : ByteTable α := ⟨Vector.replicate 256 value⟩

@[simp] theorem get_const (value : α) (index : Byte) : (const value).get index = value := by
  simp [get, const]

/-- Replacing an entry changes that entry alone. -/
theorem get_set (table : ByteTable α) (i j : Byte) (value : α) :
    (table.set i value).get j = if j = i then value else table.get j := by
  simp only [get, set, Vector.getElem_set]
  by_cases h : j = i
  · simp [h]
  · have hne : i.toNat ≠ j.toNat := fun heq => h (UInt8.toNat_inj.1 heq).symm
    simp [h, hne]

/-- A table is determined by its entries. -/
theorem ext_get {s t : ByteTable α} (h : ∀ index, s.get index = t.get index) : s = t := by
  obtain ⟨v⟩ := s
  obtain ⟨w⟩ := t
  congr
  apply Vector.ext
  intro i hi
  have hentry := h (UInt8.ofNatLT i hi)
  simpa [get] using hentry

end ByteTable

end Nmos6502
