import Nmos6502.Byte

/-!
# Hexadecimal numbers

Numbers are written with two or four lower-case digits.  They are read with any
number of digits in either case, and a number that is too large is refused however
many of its digits are leading zeros.
-/

namespace Nmos6502.Hex

/-- The lower-case digit for a number below sixteen. -/
def digit (n : Nat) : Char :=
  if n < 10 then Char.ofNat (48 + n) else Char.ofNat (87 + n)

/-- The two digits of a byte. -/
def ofByte (b : Byte) : String :=
  String.ofList [digit (b.toNat / 16), digit (b.toNat % 16)]

/-- The four digits of a word. -/
def ofWord (w : Word) : String := ofByte w.high ++ ofByte w.low

/-- The value of a digit in either case. -/
def digitValue? (c : Char) : Option Nat :=
  if '0' ≤ c ∧ c ≤ '9' then some (c.toNat - 48)
  else if 'a' ≤ c ∧ c ≤ 'f' then some (c.toNat - 87)
  else if 'A' ≤ c ∧ c ≤ 'F' then some (c.toNat - 55)
  else none

/-- The number that digits continue, `high` being the value of those before. -/
def continue? (high : Nat) : List Char → Option Nat
  | [] => some high
  | c :: cs =>
      match digitValue? c with
      | none => none
      | some value => continue? (16 * high + value) cs

/-- The number that one or more digits stand for. -/
def toNat? : List Char → Option Nat
  | [] => none
  | cs => continue? 0 cs

/-- The number that digits stand for, if it is below a limit. -/
def toNatBelow? (limit : Nat) (digits : List Char) : Option Nat :=
  (toNat? digits).filter (· < limit)

theorem digitValue?_digit {n : Nat} (h : n < 16) : digitValue? (digit n) = some n := by
  have hall : ∀ k : Fin 16, digitValue? (digit k.val) = some k.val := by
    decide
  exact hall ⟨n, h⟩

/-- Different numbers have different digits. -/
theorem digit_injective {m n : Nat} (hm : m < 16) (hn : n < 16)
    (h : digit m = digit n) : m = n := by
  have hvalue := digitValue?_digit hm
  rw [h, digitValue?_digit hn] at hvalue
  exact (Option.some.inj hvalue).symm

end Nmos6502.Hex
