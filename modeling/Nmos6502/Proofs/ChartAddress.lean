import Mathlib.Data.List.TakeWhile
import Nmos6502.Chart.Address
import Nmos6502.Proofs.Numerals

/-!
# The addresses that the chart takes

An address is written as any number of `$`, any number of `0x`, perhaps a plus sign, and one or
more hexadecimal digits.  `IsAddress` says so of a text and a number of any size.  A mark `0x`
begins like a number but does not go on like one, so leaving out the marks, as often as they are
there, leaves out no digit: `isAddress_iff`.

This is *not* the language of monitor commands, which have one mark at most.  An address can be
written in every way in which a command can name it, but for the mark `0X`.
-/

namespace Nmos6502.Chart

/-- What may come right before the digits of an address. -/
def signs : List (List Char) := [[], ['+']]

/-- The text is an address in hexadecimal digits, of any size. -/
def IsAddress (text : String) (n : Nat) : Prop :=
  ∃ dollars marks : Nat, ∃ sign ∈ signs, ∃ digits,
    text.toList = List.replicate dollars '$' ++ (List.replicate marks ['0', 'x']).flatten ++
      sign ++ digits ∧
    Hex.Denotes digits n

/-! ## Marks that are left out were there -/

theorem exists_dollars (cs : List Char) :
    ∃ dollars, cs = List.replicate dollars '$' ++ cs.dropWhile (· == '$') := by
  refine ⟨(cs.takeWhile (· == '$')).length, ?_⟩
  have hall : ∀ c ∈ cs.takeWhile (· == '$'), c = '$' := by
    intro c hc
    have hmark := List.mem_takeWhile_imp hc
    exact beq_iff_eq.1 hmark
  rw [← List.eq_replicate_of_mem hall, List.takeWhile_append_dropWhile]

theorem exists_marks (cs : List Char) :
    ∃ marks, cs = (List.replicate marks ['0', 'x']).flatten ++ dropMarks cs := by
  fun_induction dropMarks cs with
  | case1 rest ih =>
      obtain ⟨marks, hrest⟩ := ih
      refine ⟨marks + 1, ?_⟩
      rw [List.replicate_succ, List.flatten_cons, List.append_assoc, ← hrest]
      rfl
  | case2 => exact ⟨0, rfl⟩

theorem exists_sign (cs : List Char) : ∃ sign ∈ signs, cs = sign ++ dropPlus cs := by
  fun_cases dropPlus cs
  · exact ⟨['+'], by decide, rfl⟩
  · exact ⟨[], by decide, rfl⟩

/-! ## Digits are not left out -/

section Digits

variable {digits : List Char} {values : List Nat}

theorem dropWhile_dollars_digits (hdigits : List.Forall₂ Hex.IsDigit digits values) :
    digits.dropWhile (· == '$') = digits := by
  cases hdigits with
  | nil => rfl
  | @cons c value rest _ hc _ =>
      have hne : c ≠ '$' := by
        rintro rfl
        exact Hex.not_isDigit_of_digitValue? (by decide) value hc
      simp [hne]

theorem dropMarks_digits (hdigits : List.Forall₂ Hex.IsDigit digits values) :
    dropMarks digits = digits := by
  fun_cases dropMarks digits
  · -- A mark begins with a digit, but does not go on with one.
    cases hdigits with
    | cons _ hrest =>
        cases hrest with
        | cons hx _ => exact absurd hx (Hex.not_isDigit_of_digitValue? (by decide) _)
  · rfl

theorem dropPlus_digits (hdigits : List.Forall₂ Hex.IsDigit digits values) :
    dropPlus digits = digits := by
  fun_cases dropPlus digits
  · cases hdigits with
    | cons hplus _ => exact absurd hplus (Hex.not_isDigit_of_digitValue? (by decide) _)
  · rfl

variable {sign : List Char}

theorem dropPlus_append (hsign : sign ∈ signs)
    (hdigits : List.Forall₂ Hex.IsDigit digits values) : dropPlus (sign ++ digits) = digits := by
  rcases List.mem_pair.1 hsign with rfl | rfl
  · exact dropPlus_digits hdigits
  · rfl

theorem dropMarks_append (hsign : sign ∈ signs)
    (hdigits : List.Forall₂ Hex.IsDigit digits values) (marks : Nat) :
    dropMarks ((List.replicate marks ['0', 'x']).flatten ++ (sign ++ digits)) =
      sign ++ digits := by
  induction marks with
  | zero =>
      rcases List.mem_pair.1 hsign with rfl | rfl
      · exact dropMarks_digits hdigits
      · rfl
  | succ marks ih => exact ih

theorem dropWhile_dollars_append (hsign : sign ∈ signs)
    (hdigits : List.Forall₂ Hex.IsDigit digits values) (dollars marks : Nat) :
    (List.replicate dollars '$' ++
        ((List.replicate marks ['0', 'x']).flatten ++ (sign ++ digits))).dropWhile (· == '$') =
      (List.replicate marks ['0', 'x']).flatten ++ (sign ++ digits) := by
  have hdollars : ∀ c ∈ List.replicate dollars '$', (c == '$') = true :=
    fun c hc => beq_iff_eq.2 (List.eq_of_mem_replicate hc)
  rw [List.dropWhile_append_of_pos hdollars]
  cases marks with
  | zero =>
      rcases List.mem_pair.1 hsign with rfl | rfl
      · exact dropWhile_dollars_digits hdigits
      · rfl
  | succ marks => rfl

end Digits

/-- An address is what its digits denote. -/
theorem isAddress_iff (text : String) (n : Nat) :
    IsAddress text n ↔ Hex.Denotes (addressDigits text) n := by
  constructor
  · rintro ⟨dollars, marks, sign, hsign, digits, htext, hne, values, hdigits, hvalue⟩
    rw [List.append_assoc, List.append_assoc] at htext
    rw [addressDigits, htext, dropWhile_dollars_append hsign hdigits,
      dropMarks_append hsign hdigits, dropPlus_append hsign hdigits]
    exact ⟨hne, values, hdigits, hvalue⟩
  · intro hdigits
    obtain ⟨dollars, hdollars⟩ := exists_dollars text.toList
    obtain ⟨marks, hmarks⟩ := exists_marks (text.toList.dropWhile (· == '$'))
    obtain ⟨sign, hsign, hplus⟩ := exists_sign (dropMarks (text.toList.dropWhile (· == '$')))
    refine ⟨dollars, marks, sign, hsign, addressDigits text, ?_, hdigits⟩
    rw [List.append_assoc, List.append_assoc, addressDigits, ← hplus, ← hmarks, ← hdollars]

theorem toNatBelow?_addressDigits_eq_some_iff (text : String) (n : Nat) :
    Hex.toNatBelow? 0x10000 (addressDigits text) = some n ↔ IsAddress text n ∧ n ≤ 0xFFFF := by
  rw [Hex.toNatBelow?_eq_some_iff, isAddress_iff, ← Nat.lt_succ_iff]

theorem parseAddress_eq_ok_iff (text : String) (n : Nat) :
    (parseAddress text).map UInt16.toNat = .ok n ↔ IsAddress text n ∧ n ≤ 0xFFFF := by
  rw [← toNatBelow?_addressDigits_eq_some_iff, parseAddress]
  cases hnumber : Hex.toNatBelow? 0x10000 (addressDigits text) with
  | none => simp [Except.map]
  | some m =>
      -- The number is small enough to be found again in the word.
      have hm : m < 65536 := ((Hex.toNatBelow?_eq_some_iff _ _ m).1 hnumber).2
      simp [Except.map, Nat.mod_eq_of_lt hm]

theorem parseAddress_eq_error_iff (text : String) (e : UsageError) :
    parseAddress text = .error e ↔
      e = .invalidAddress text ∧ ∀ n ≤ 0xFFFF, ¬IsAddress text n := by
  have hnone : Hex.toNatBelow? 0x10000 (addressDigits text) = none ↔
      ∀ n ≤ 0xFFFF, ¬IsAddress text n := by
    rw [Option.eq_none_iff_forall_ne_some]
    simp only [ne_eq, toNatBelow?_addressDigits_eq_some_iff, not_and']
  rw [← hnone, parseAddress]
  cases hnumber : Hex.toNatBelow? 0x10000 (addressDigits text) with
  | none => simp [eq_comm]
  | some m => simp

/-- A number of a monitor command is an address, unless its mark is `0X`. -/
theorem isAddress_of_isNumber {text : String} {n : Nat} (hnumber : Monitor.IsNumber text n)
    (hmark : ¬['0', 'X'] <+: text.toList) : IsAddress text n := by
  obtain ⟨mark, hmem, digits, htext, hdigits⟩ := hnumber
  simp only [Monitor.marks, List.mem_cons, List.not_mem_nil, or_false] at hmem
  rcases hmem with rfl | rfl | rfl | rfl
  · exact ⟨0, 0, [], by decide, digits, htext, hdigits⟩
  · exact ⟨1, 0, [], by decide, digits, htext, hdigits⟩
  · exact ⟨0, 1, [], by decide, digits, htext, hdigits⟩
  · exact absurd ⟨digits, htext.symm⟩ hmark

/-- An address is read from exactly the texts that are one and fit into a word; every other text
is refused with the one error that names it.  So a text that a monitor command takes for a
word is read as the same address, unless its mark is `0X`. -/
theorem parseAddress_reads_exactly (text : String) :
    (∀ n, (parseAddress text).map UInt16.toNat = .ok n ↔ IsAddress text n ∧ n ≤ 0xFFFF) ∧
    (∀ e, parseAddress text = .error e ↔
      e = .invalidAddress text ∧ ∀ n ≤ 0xFFFF, ¬IsAddress text n) ∧
    (UsageError.invalidAddress text).message = "invalid hex address: " ++ text ∧
    ∀ n, Monitor.number? 16 text = some n → ¬['0', 'X'] <+: text.toList →
      (parseAddress text).map UInt16.toNat = .ok n := by
  refine ⟨parseAddress_eq_ok_iff text, parseAddress_eq_error_iff text, rfl, ?_⟩
  intro n hnumber hmark
  obtain ⟨hspelled, hn⟩ := (Monitor.number?_eq_some_iff 16 text n).1 hnumber
  rw [parseAddress_eq_ok_iff]
  exact ⟨isAddress_of_isNumber hspelled hmark, Nat.le_of_lt_succ hn⟩

/-- A number with a mark and leading zeros, which both ways of reading take. -/
theorem parseAddress_leadingZeros :
    Monitor.number? 16 "0x0000fFfF" = some 0xFFFF ∧ ¬['0', 'X'] <+: "0x0000fFfF".toList ∧
    (parseAddress "0x0000fFfF").map UInt16.toNat = .ok 0xFFFF := by
  have hnumber : Monitor.number? 16 "0x0000fFfF" = some 0xFFFF := by decide +kernel
  have hmark : ¬['0', 'X'] <+: "0x0000fFfF".toList := by decide +kernel
  obtain ⟨-, -, -, hword⟩ := parseAddress_reads_exactly "0x0000fFfF"
  exact ⟨hnumber, hmark, hword 0xFFFF hnumber hmark⟩

example : parseAddress "$$0x0x+00aB" = .ok 0x00AB := by
  decide +kernel

/-- Texts that only look like addresses. -/
example : ∀ text ∈ ["", "$0x", "+", "-1", "0X12", "0x$12", "00x1", "++1", "1 ", "10000"],
    parseAddress text = .error (.invalidAddress text) := by
  decide +kernel

end Nmos6502.Chart
