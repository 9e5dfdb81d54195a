/-!
# Words of a line

A line is cut into words at blanks, which are the characters with the White_Space
property of Unicode.  The core library knows few of these, so its test is *not* enough.
-/

namespace Nmos6502.Words

/-- The characters with the White_Space property, as ranges of code points. -/
def blankRanges : List (Nat × Nat) :=
  [(0x0009, 0x000D), (0x0020, 0x0020), (0x0085, 0x0085), (0x00A0, 0x00A0),
    (0x1680, 0x1680), (0x2000, 0x200A), (0x2028, 0x2029), (0x202F, 0x202F),
    (0x205F, 0x205F), (0x3000, 0x3000)]

/-- Whether a character separates words. -/
def isBlank (c : Char) : Bool :=
  blankRanges.any fun (first, last) => decide (first ≤ c.toNat ∧ c.toNat ≤ last)

/-- Whether the first character belongs to a word. -/
def startsWord : List Char → Bool
  | [] => false
  | c :: _ => !isBlank c

/-- The words among characters: their longest runs without a blank. -/
def split : List Char → List (List Char)
  | [] => []
  | c :: cs =>
      if isBlank c then split cs
      else
        match startsWord cs, split cs with
        | true, w :: ws => (c :: w) :: ws
        | _, ws => [c] :: ws

/-- The words of a line, in order. -/
def ofLine (line : String) : List String := (split line.toList).map String.ofList

end Nmos6502.Words
