import Nmos6502.Bus.Ram

/-!
# A board with few address lines and read-only cells

A board may connect only some of the address lines, so that addresses which differ
in the others share a cell, and it may hold read-only cells.  A write to one of
those is lost without notice.  Clearing such a board is *not* special: it writes
to each address in turn, so read-only cells keep their bytes.
-/

namespace Nmos6502

/-- The cells from `first` to `last`, both included. -/
structure CellRange where
  first : Word
  last : Word

/-- Whether a cell lies in the range. -/
def CellRange.contains (range : CellRange) (cell : Word) : Bool :=
  decide (range.first ≤ cell) && decide (cell ≤ range.last)

/-- Memory behind a choice of address lines, with an optional read-only range. -/
structure MappedMemory where
  /-- A bit is set for each address line that is connected. -/
  lines : Word
  readOnly : Option CellRange
  cells : Ram

namespace MappedMemory

/-- The cell that an address reaches. -/
def cellOf (m : MappedMemory) (address : Word) : Word := address &&& m.lines

/-- Whether a cell takes no writes. -/
def isReadOnly (m : MappedMemory) (cell : Word) : Bool :=
  match m.readOnly with
  | none => false
  | some range => range.contains cell

/-- The byte in the cell that an address reaches. -/
def read (m : MappedMemory) (address : Word) : Byte :=
  m.cells.read (m.cellOf address)

/-- Replaces the byte in the cell that an address reaches, unless the cell is
read-only. -/
def write (m : MappedMemory) (address : Word) (value : Byte) : MappedMemory :=
  if m.isReadOnly (m.cellOf address) then m
  else { m with cells := m.cells.write (m.cellOf address) value }

instance : Bus MappedMemory where
  read := read
  write := write

/-- Burns bytes into the cells from an address on, whether read-only or not. -/
def burn (m : MappedMemory) (address : Word) : List Byte → MappedMemory
  | [] => m
  | b :: bytes =>
      burn { m with cells := m.cells.write (m.cellOf address) b } (address + 1) bytes

end MappedMemory

end Nmos6502
