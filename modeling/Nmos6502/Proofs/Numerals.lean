import Mathlib.Data.List.Forall2
import Mathlib.Data.Nat.Digits.Defs
import Mathlib.Tactic.Ring
import Nmos6502.Monitor.Parser

/-!
# Hexadecimal numerals

A numeral is one or more digits, each in either case, and stands for the sum of their
values weighted by powers of sixteen.  Any number of zeros may lead it, so a number has
many numerals; a numeral has only one number.  One mark may come before the digits.
-/

namespace Nmos6502.Hex

/-- The digits in order. -/
def lowerDigits : List Char := "0123456789abcdef".toList

/-- The digits in order, with capital letters. -/
def upperDigits : List Char := "0123456789ABCDEF".toList

/-- The character is a digit of this value. -/
def IsDigit (c : Char) (value : Nat) : Prop :=
  lowerDigits[value]? = some c ∨ upperDigits[value]? = some c

instance (c : Char) (value : Nat) : Decidable (IsDigit c value) :=
  inferInstanceAs (Decidable (_ ∨ _))

/-- The characters are the digits of the number, the most significant one first. -/
def Denotes (digits : List Char) (n : Nat) : Prop :=
  digits ≠ [] ∧
    ∃ values, List.Forall₂ IsDigit digits values ∧ Nat.ofDigits 16 values.reverse = n

/-! ## One digit -/

theorem IsDigit.lt_sixteen {c : Char} {value : Nat} (h : IsDigit c value) : value < 16 := by
  rcases h with h | h <;> exact (List.getElem?_eq_some_iff.1 h).1

theorem IsDigit.digitValue? {c : Char} {value : Nat} (h : IsDigit c value) :
    digitValue? c = some value := by
  have hlower : ∀ k : Fin 16, lowerDigits[k.val]?.bind Hex.digitValue? = some k.val := by
    decide
  have hupper : ∀ k : Fin 16, upperDigits[k.val]?.bind Hex.digitValue? = some k.val := by
    decide
  have hvalue := h.lt_sixteen
  rcases h with hc | hc
  · simpa [hc] using hlower ⟨value, hvalue⟩
  · simpa [hc] using hupper ⟨value, hvalue⟩

theorem toNat_lt_of_digitValue? {c : Char} {value : Nat} (h : digitValue? c = some value) :
    c.toNat < 128 := by
  by_contra hlarge
  have hnone : digitValue? c = none := by
    simp only [digitValue?, Char.le_def, UInt32.le_iff_toNat_le]
    rw [if_neg, if_neg, if_neg] <;>
    · rintro ⟨_, hlast⟩
      exact hlarge (Nat.lt_of_le_of_lt hlast (by decide))
  rw [hnone] at h
  cases h

theorem isDigit_of_digitValue? {c : Char} {value : Nat} (h : digitValue? c = some value) :
    IsDigit c value := by
  have hall : ∀ k : Fin 128, ∀ v ∈ digitValue? (Char.ofNat k.val),
      IsDigit (Char.ofNat k.val) v := by
    decide
  have hc := hall ⟨c.toNat, toNat_lt_of_digitValue? h⟩ value
  rw [Char.ofNat_toNat] at hc
  exact hc h

theorem not_isDigit_of_digitValue? {c : Char} (h : digitValue? c = none) (value : Nat) :
    ¬IsDigit c value := by
  intro hdigit
  rw [hdigit.digitValue?] at h
  cases h

/-! ## Many digits -/

/-- What was read before weighs sixteen times as much for each digit that follows. -/
theorem continue?_eq_some_iff (high : Nat) (digits : List Char) (n : Nat) :
    continue? high digits = some n ↔
      ∃ values, List.Forall₂ IsDigit digits values ∧
        high * 16 ^ digits.length + Nat.ofDigits 16 values.reverse = n := by
  induction digits generalizing high with
  | nil => simp [continue?, List.forall₂_nil_left_iff]
  | cons c digits ih =>
      have hweight : ∀ value (values : List Nat), digits.length = values.length →
          high * 16 ^ (c :: digits).length + Nat.ofDigits 16 (value :: values).reverse =
            (16 * high + value) * 16 ^ digits.length + Nat.ofDigits 16 values.reverse := by
        intro value values hlength
        rw [List.reverse_cons, Nat.ofDigits_append, Nat.ofDigits_singleton,
          List.length_reverse, List.length_cons, hlength]
        ring
      rw [continue?]
      constructor
      · intro h
        cases hvalue : digitValue? c with
        | none =>
            rw [hvalue] at h
            cases h
        | some value =>
            rw [hvalue] at h
            obtain ⟨values, hdigits, hn⟩ := (ih (16 * high + value)).1 h
            refine ⟨value :: values, .cons (isDigit_of_digitValue? hvalue) hdigits, ?_⟩
            rw [hweight value values hdigits.length_eq, hn]
      · rintro ⟨values, hdigits, hn⟩
        cases hdigits with
        | @cons _ value _ values hc hrest =>
            rw [hc.digitValue?]
            refine (ih (16 * high + value)).2 ⟨values, hrest, ?_⟩
            rw [← hweight value values hrest.length_eq, hn]

theorem toNat?_eq_some_iff (digits : List Char) (n : Nat) :
    toNat? digits = some n ↔ Denotes digits n := by
  cases digits with
  | nil => simp [toNat?, Denotes]
  | cons c digits =>
      change continue? 0 (c :: digits) = some n ↔ _
      rw [continue?_eq_some_iff, Denotes]
      simp

theorem toNatBelow?_eq_some_iff (limit : Nat) (digits : List Char) (n : Nat) :
    toNatBelow? limit digits = some n ↔ Denotes digits n ∧ n < limit := by
  rw [toNatBelow?, Option.filter_eq_some_iff, toNat?_eq_some_iff, decide_eq_true_iff]

end Nmos6502.Hex

namespace Nmos6502.Monitor

/-- What may come before the digits of a number: nothing or one of three marks. -/
def marks : List (List Char) := [[], ['$'], ['0', 'x'], ['0', 'X']]

/-- The text is a hexadecimal number of any size, marked or not. -/
def IsNumber (text : String) (n : Nat) : Prop :=
  ∃ mark ∈ marks, ∃ digits, text.toList = mark ++ digits ∧ Hex.Denotes digits n

theorem exists_mark (cs : List Char) : ∃ mark ∈ marks, cs = mark ++ dropMark cs := by
  fun_cases dropMark cs
  · exact ⟨['$'], by decide, rfl⟩
  · exact ⟨['0', 'x'], by decide, rfl⟩
  · exact ⟨['0', 'X'], by decide, rfl⟩
  · exact ⟨[], by decide, rfl⟩

/-- Neither mark begins with two digits or is one. -/
theorem dropMark_digits {digits : List Char} {values : List Nat}
    (h : List.Forall₂ Hex.IsDigit digits values) : dropMark digits = digits := by
  fun_cases dropMark digits
  · cases h with
    | cons hc _ => exact absurd hc (Hex.not_isDigit_of_digitValue? (by decide) _)
  · cases h with
    | cons _ hrest =>
        cases hrest with
        | cons hc _ => exact absurd hc (Hex.not_isDigit_of_digitValue? (by decide) _)
  · cases h with
    | cons _ hrest =>
        cases hrest with
        | cons hc _ => exact absurd hc (Hex.not_isDigit_of_digitValue? (by decide) _)
  · rfl

theorem dropMark_append {mark digits : List Char} {n : Nat} (hmark : mark ∈ marks)
    (h : Hex.Denotes digits n) : dropMark (mark ++ digits) = digits := by
  obtain ⟨_, values, hdigits, _⟩ := h
  simp only [marks, List.mem_cons, List.not_mem_nil, or_false] at hmark
  rcases hmark with rfl | rfl | rfl | rfl
  · exact dropMark_digits hdigits
  · rfl
  · rfl
  · rfl

theorem number?_eq_some_iff (bits : Nat) (text : String) (n : Nat) :
    number? bits text = some n ↔ IsNumber text n ∧ n < 2 ^ bits := by
  rw [number?, Hex.toNatBelow?_eq_some_iff]
  refine and_congr_left fun _ => ?_
  constructor
  · intro h
    obtain ⟨mark, hmark, htext⟩ := exists_mark text.toList
    exact ⟨mark, hmark, _, htext, h⟩
  · rintro ⟨mark, hmark, digits, htext, h⟩
    rw [htext, dropMark_append hmark h]
    exact h

end Nmos6502.Monitor
