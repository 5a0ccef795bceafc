import Mathlib.Data.List.TakeWhile
import TreeLayout.Proofs.Text.Segments

/-!
# Lines of a text put together

A line feed ends a line, so the lines of a text around one are those before it, the last of which
may be empty, and those after it. The part of a line before a mark ends at the first such mark.
-/

namespace TreeLayout.Text

section Before

variable {α : Type} [DecidableEq α] {a : α}

theorem before_of_notMem {text : List α} (h : a ∉ text) : before a text = text := by
  rw [before, List.takeWhile_eq_self_iff]
  intro b hb
  rw [decide_eq_true_iff]
  intro heq
  subst heq
  exact h hb

theorem before_append_cons {front : List α} (h : a ∉ front) (back : List α) :
    before a (front ++ a :: back) = front := by
  have hfront := before_of_notMem h
  rw [before, List.takeWhile_eq_self_iff] at hfront
  rw [before, List.takeWhile_append_of_pos hfront, List.takeWhile_cons_of_neg (by simp),
    List.append_nil]

/-- What follows a mark plays no role. -/
theorem before_append_of_mem {front : List α} (h : a ∈ front) (back : List α) :
    before a (front ++ back) = before a front := by
  obtain ⟨start, rest, rfl, hstart⟩ := List.eq_append_cons_of_mem h
  rw [List.append_assoc, List.cons_append, before_append_cons hstart, before_append_cons hstart]

theorem notMem_before (text : List α) : a ∉ before a text := by
  intro h
  simpa using List.mem_takeWhile_imp h

end Before

section Separator

variable {α : Type} [DecidableEq α] {lf cr : α}

/-- The lines around a line feed: every piece before it is a line, and the rest follows. -/
theorem linesBy_append_cons (front back : List α) :
    linesBy lf cr (front ++ lf :: back) =
      (split lf front).map (dropLastOf cr) ++ linesBy lf cr back := by
  have hback : split lf back ≠ [] := split_ne_nil back
  have hlast : (split lf front ++ split lf back).getLastD [] = (split lf back).getLastD [] := by
    rw [List.getLastD_eq_getLast?, List.getLastD_eq_getLast?,
      List.getLast?_append_of_ne_nil _ hback]
  simp only [linesBy, split_append_cons, hlast, List.dropLast_append_of_ne_nil hback,
    List.map_append, List.append_assoc]

/-- A text without a line feed is one line, unless it is empty. -/
theorem linesBy_of_notMem {text : List α} (h : lf ∉ text) :
    linesBy lf cr text = if text = [] then [] else [text] := by
  simp [linesBy, split_of_notMem h]

theorem dropLastOf_isPrefix (a : α) (text : List α) : dropLastOf a text <+: text := by
  unfold dropLastOf
  split
  · exact text.dropLast_prefix
  · exact List.prefix_rfl

/-- A line holds no line feed. -/
theorem notMem_of_mem_linesBy {text line : List α} (h : line ∈ linesBy lf cr text) : lf ∉ line := by
  have hlast : (split lf text).getLastD [] = (split lf text).getLast (split_ne_nil text) := by
    rw [List.getLastD_eq_getLast?, List.getLast?_eq_some_getLast (split_ne_nil text)]
    rfl
  simp only [linesBy, hlast] at h
  rcases List.mem_append.mp h with hfront | hback
  · obtain ⟨piece, hpiece, rfl⟩ := List.mem_map.mp hfront
    intro hmem
    exact notMem_of_mem_split (List.dropLast_subset _ hpiece)
      ((dropLastOf_isPrefix cr piece).subset hmem)
  · split at hback
    · cases hback
    · rw [List.mem_singleton.mp hback]
      exact notMem_of_mem_split (List.getLast_mem _)

end Separator

section SingleBytes

/-- Dropping a byte at the end of a text's bytes drops its character at the end of the text. -/
theorem dropLastOf_bytes {a : Char} {b : UInt8} (hsingle : String.utf8EncodeChar a = [b])
    (text : List Char) : dropLastOf b (bytes text) = bytes (dropLastOf a text) := by
  cases text using List.reverseRecOn with
  | nil => rfl
  | append_singleton front c =>
    rw [bytes_append, bytes_cons, bytes_nil, List.append_nil]
    by_cases hc : c = a
    · subst hc
      simp [dropLastOf, hsingle]
    · have hlast : (bytes front ++ String.utf8EncodeChar c).getLast? ≠ some b := by
        rw [List.getLast?_append_of_ne_nil _ String.utf8EncodeChar_ne_nil]
        exact fun h => notMem_utf8EncodeChar hsingle hc (List.mem_of_getLast? h)
      rw [dropLastOf, if_neg hlast, dropLastOf, if_neg (by simpa using hc), bytes_append, bytes_cons,
        bytes_nil, List.append_nil]

/-- The lines of a text's bytes are the bytes of its lines. -/
theorem linesBy_bytes {lf cr : Char} {lfByte crByte : UInt8}
    (hlf : String.utf8EncodeChar lf = [lfByte]) (hcr : String.utf8EncodeChar cr = [crByte])
    (text : List Char) :
    linesBy lfByte crByte (bytes text) = (linesBy lf cr text).map bytes := by
  have hlast : ((split lf text).map bytes).getLastD [] = bytes ((split lf text).getLastD []) := by
    rw [List.getLastD_eq_getLast?, List.getLastD_eq_getLast?, List.getLast?_map]
    cases (split lf text).getLast? <;> rfl
  have hpieces : ∀ piece, dropLastOf crByte (bytes piece) = bytes (dropLastOf cr piece) :=
    dropLastOf_bytes hcr
  simp only [linesBy, split_bytes_of_single hlf, hlast, bytes_eq_nil_iff, ← List.map_dropLast,
    List.map_append, List.map_map, Function.comp_def, hpieces]
  split <;> rfl

end SingleBytes

/-- The lines around a line feed that ends the first line. -/
theorem lines_cons {line rest : List Char} (h : '\n' ∉ line) :
    lines (line ++ '\n' :: rest) = dropLastOf '\r' line :: lines rest := by
  rw [lines, linesBy_append_cons, split_of_notMem h]
  rfl

theorem lines_of_notMem {text : List Char} (h : '\n' ∉ text) :
    lines text = if text = [] then [] else [text] := linesBy_of_notMem h

end TreeLayout.Text
