import Mathlib.Data.List.DropRight
import TreeLayout.Text.Basic

/-!
# Blanks around a text

A trimmed text neither starts nor ends in a blank, and every text is its trimmed form between two
runs of blanks. Such runs mean nothing: a text without blanks at its ends is found again between
them.
-/

namespace TreeLayout.Text

/-- Whether a text holds nothing but blanks. -/
def IsBlankText (text : List Char) : Prop := ∀ c ∈ text, isBlank c = true

instance (text : List Char) : Decidable (IsBlankText text) := List.decidableBAll _ text

/-- Whether a text has no blank at either end. -/
structure IsTrimmed (text : List Char) : Prop where
  start : ∀ c ∈ text.head?, isBlank c = false
  finish : ∀ c ∈ text.getLast?, isBlank c = false

theorem isTrimmed_nil : IsTrimmed [] := ⟨by simp, by simp⟩

theorem isBlankText_nil : IsBlankText [] := by simp [IsBlankText]

theorem IsBlankText.append {front back : List Char} (hfront : IsBlankText front)
    (hback : IsBlankText back) : IsBlankText (front ++ back) := fun c hc =>
  (List.mem_append.mp hc).elim (hfront c) (hback c)

/-- Blanks hold no other character. -/
theorem IsBlankText.notMem {text : List Char} (h : IsBlankText text) {c : Char}
    (hc : isBlank c = false) : c ∉ text := by
  intro hmem
  rw [h c hmem] at hc
  cases hc

theorem trim_eq (text : List Char) : trim text = (text.dropWhile isBlank).rdropWhile isBlank := rfl

/-- A text that does not end in a blank keeps its end. -/
theorem trimEnd_eq_self {text : List Char} (h : ∀ c ∈ text.getLast?, isBlank c = false) :
    trimEnd text = text := by
  rw [show trimEnd text = text.rdropWhile isBlank from rfl, List.rdropWhile_eq_self_iff]
  intro hne
  simp [h _ (List.getLast?_eq_getLast_of_ne_nil hne)]

/-- Only blanks are trimmed. -/
theorem exists_blanks_around (text : List Char) :
    ∃ front back, IsBlankText front ∧ IsBlankText back ∧ text = front ++ trim text ++ back := by
  refine ⟨text.takeWhile isBlank, (text.dropWhile isBlank).rtakeWhile isBlank,
    fun c hc => List.mem_takeWhile_imp hc, fun c hc => List.mem_rtakeWhile_imp hc, ?_⟩
  rw [trim_eq, List.append_assoc, List.rdropWhile_append_rtakeWhile,
    List.takeWhile_append_dropWhile]

/-- No blank is left at the ends. -/
theorem isTrimmed_trim (text : List Char) : IsTrimmed (trim text) := by
  refine ⟨fun c hc => ?_, fun c hc => ?_⟩
  · obtain ⟨back, hback⟩ := List.rdropWhile_prefix isBlank (l := text.dropWhile isBlank)
    obtain ⟨rest, hrest⟩ := List.head?_eq_some_iff.mp hc
    have hfirst := List.head?_dropWhile_not isBlank text
    rw [← hback, ← trim_eq, hrest] at hfirst
    simpa using hfirst
  · obtain ⟨hne, rfl⟩ := List.mem_getLast?_eq_getLast hc
    exact Bool.eq_false_iff.mpr (List.rdropWhile_last_not isBlank _ hne)

namespace IsTrimmed

variable {text : List Char}

/-- A text without blanks at its ends is found again between blanks. -/
theorem trim_surround (h : IsTrimmed text) {front back : List Char} (hfront : IsBlankText front)
    (hback : IsBlankText back) : trim (front ++ text ++ back) = text := by
  have hend : text.rdropWhile isBlank = text := trimEnd_eq_self h.finish
  rw [trim_eq, List.append_assoc, List.dropWhile_append_of_pos hfront]
  cases text with
  | nil =>
    rw [List.nil_append, List.dropWhile_eq_nil_iff.mpr hback]
    rfl
  | cons c rest =>
    have hreverse : ∀ d ∈ back.reverse, isBlank d = true := fun d hd =>
      hback d (List.mem_reverse.mp hd)
    rw [List.cons_append, List.dropWhile_cons_of_neg (by simp [h.start c rfl]),
      ← List.cons_append, List.rdropWhile, List.reverse_append,
      List.dropWhile_append_of_pos hreverse]
    exact hend

end IsTrimmed

/-- Blanks around a text change nothing about its trimmed form. -/
theorem trim_surround {front back : List Char} (hfront : IsBlankText front)
    (hback : IsBlankText back) (text : List Char) : trim (front ++ text ++ back) = trim text := by
  obtain ⟨start, finish, hstart, hfinish, htext⟩ := exists_blanks_around text
  have h := (isTrimmed_trim text).trim_surround (hfront.append hstart) (hfinish.append hback)
  rw [← h]
  conv_lhs => rw [htext]
  simp only [List.append_assoc]

/-- Exactly the texts of blanks are trimmed to nothing. -/
theorem trim_eq_nil_iff {text : List Char} : trim text = [] ↔ IsBlankText text := by
  constructor
  · intro h
    obtain ⟨front, back, hfront, hback, htext⟩ := exists_blanks_around text
    rw [htext, h, List.append_nil]
    exact hfront.append hback
  · intro h
    simpa using isTrimmed_nil.trim_surround h isBlankText_nil

end TreeLayout.Text
