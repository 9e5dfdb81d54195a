import Nmos6502.Words

/-!
# Cutting a line into words

What the words of a line are can be said without cutting it: the line is made of them and
of gaps of blanks, and no word can be made longer.  A gap may be empty only at the two
ends, so the words *and* their order are determined by the line.
-/

namespace Nmos6502.Words

/-- The characters are these words with blanks around them.  A word is not empty, holds no
blank and ends where the line does or at a blank. -/
inductive Separated : List Char → List (List Char) → Prop
  | blanks {gap : List Char} (hgap : ∀ c ∈ gap, isBlank c = true) : Separated gap []
  | word {gap w rest : List Char} {ws : List (List Char)}
      (hgap : ∀ c ∈ gap, isBlank c = true)
      (hne : w ≠ []) (hword : ∀ c ∈ w, isBlank c = false)
      (hend : startsWord rest = false) (hrest : Separated rest ws) :
      Separated (gap ++ w ++ rest) (w :: ws)

theorem startsWord_of_blanks {gap : List Char} (hgap : ∀ c ∈ gap, isBlank c = true) :
    startsWord gap = false := by
  cases gap with
  | nil => rfl
  | cons c gap =>
      have hc := hgap c List.mem_cons_self
      simp [startsWord, hc]

/-! ## The words that are cut are those of the line -/

theorem Separated.cons_blank {c : Char} {cs : List Char} {ws : List (List Char)}
    (hc : isBlank c = true) (h : Separated cs ws) : Separated (c :: cs) ws := by
  cases h with
  | blanks hgap => exact .blanks (List.forall_mem_cons.2 ⟨hc, hgap⟩)
  | word hgap hne hword hend hrest =>
      exact .word (List.forall_mem_cons.2 ⟨hc, hgap⟩) hne hword hend hrest

/-- A character before a word belongs to it. -/
theorem Separated.cons_word {c : Char} {cs w : List Char} {ws : List (List Char)}
    (hc : isBlank c = false) (hstarts : startsWord cs = true) (h : Separated cs (w :: ws)) :
    Separated (c :: cs) ((c :: w) :: ws) := by
  cases h with
  | @word gap _ rest _ hgap hne hword hend hrest =>
      have hnil : gap = [] := by
        cases gap with
        | nil => rfl
        | cons d gap =>
            have hd := hgap d List.mem_cons_self
            simp [startsWord, hd] at hstarts
      subst hnil
      exact @Separated.word [] (c :: w) rest ws (by simp) (List.cons_ne_nil c w)
        (List.forall_mem_cons.2 ⟨hc, hword⟩) hend hrest

theorem separated_split (cs : List Char) : Separated cs (split cs) := by
  induction cs with
  | nil => exact .blanks (by simp)
  | cons c cs ih =>
      rw [split]
      split
      · next hblank => exact ih.cons_blank hblank
      · next hblank =>
          have hc : isBlank c = false := by simpa using hblank
          split
          · next w ws hstarts hsplit =>
              rw [hsplit] at ih
              exact ih.cons_word hc hstarts
          · next hnot =>
              have hend : startsWord cs = false := by
                rw [Bool.eq_false_iff]
                intro hstarts
                cases hsplit : split cs with
                | nil =>
                    rw [hsplit] at ih
                    cases ih with
                    | blanks hgap => rw [startsWord_of_blanks hgap] at hstarts; cases hstarts
                | cons w ws => exact hnot w ws hstarts hsplit
              exact @Separated.word [] [c] cs (split cs) (by simp) (List.cons_ne_nil c [])
                (by simpa using hc) hend ih

/-! ## A line has no other words -/

theorem split_gap_append {gap : List Char} (hgap : ∀ c ∈ gap, isBlank c = true)
    (cs : List Char) : split (gap ++ cs) = split cs := by
  induction gap with
  | nil => rfl
  | cons c gap ih =>
      obtain ⟨hc, hgap⟩ := List.forall_mem_cons.1 hgap
      rw [List.cons_append, split, if_pos hc]
      exact ih hgap

theorem split_word_append {w rest : List Char} (hne : w ≠ [])
    (hword : ∀ c ∈ w, isBlank c = false) (hend : startsWord rest = false) :
    split (w ++ rest) = w :: split rest := by
  induction w with
  | nil => exact absurd rfl hne
  | cons c w ih =>
      obtain ⟨hc, hword⟩ := List.forall_mem_cons.1 hword
      rw [List.cons_append, split, if_neg (by simp [hc])]
      cases w with
      | nil => simp [hend]
      | cons d w =>
          have hd := hword d List.mem_cons_self
          have hstarts : startsWord (d :: w ++ rest) = true := by simp [startsWord, hd]
          rw [hstarts, ih (List.cons_ne_nil d w) hword]

theorem split_of_separated {cs : List Char} {ws : List (List Char)} (h : Separated cs ws) :
    split cs = ws := by
  induction h with
  | @blanks gap hgap => simpa [split] using split_gap_append hgap []
  | @word gap w rest ws hgap hne hword hend hrest ih =>
      rw [List.append_assoc, split_gap_append hgap, split_word_append hne hword hend, ih]

theorem split_eq_iff (cs : List Char) (ws : List (List Char)) :
    split cs = ws ↔ Separated cs ws := by
  constructor
  · rintro rfl
    exact separated_split cs
  · exact split_of_separated

theorem ofLine_eq_iff (line : String) (words : List String) :
    ofLine line = words ↔ Separated line.toList (words.map String.toList) := by
  rw [← split_eq_iff, ofLine]
  constructor
  · rintro rfl
    simp [Function.comp_def]
  · intro hsplit
    simp [hsplit, Function.comp_def]

end Nmos6502.Words
