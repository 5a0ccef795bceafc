import TreeLayout.Proofs.Text.Blanks
import TreeLayout.Proofs.Text.Lines
import TreeLayout.Rules.Parser

/-!
# Numbered lines of rules texts put together

What a line says is independent of its place, and its number is its place. So the lines of two texts
with a line feed between them are those of the first, followed by those of the second moved down.
-/

namespace TreeLayout.Rules

open Text

/-- The same line, further down in a longer text. -/
def SourceLine.movedDown (count : Nat) (line : SourceLine) : SourceLine :=
  { line with number := .ofNat (line.number.toNat + count) }

/-- A carriage return at the end of a line says nothing. -/
theorem statement_dropLastOf (line : List Char) :
    statement (dropLastOf '\r' line) = statement line := by
  unfold dropLastOf
  split
  · rename_i hlast
    obtain ⟨front, rfl⟩ := List.getLast?_eq_some_iff.mp hlast
    rw [List.dropLast_concat]
    by_cases hcomment : '#' ∈ front
    · rw [statement, statement, before_append_of_mem hcomment]
    · have hreturn : '#' ∉ front ++ ['\r'] := by simp [hcomment]
      have hblank : IsBlankText ['\r'] := by decide
      rw [statement, statement, before_of_notMem hcomment, before_of_notMem hreturn]
      simpa using (trim_surround isBlankText_nil hblank front).symm
  · rfl

theorem sourceLinesFrom_append (first : Nat) (front back : List (List Char)) :
    sourceLinesFrom first (front ++ back) =
      sourceLinesFrom first front ++ sourceLinesFrom (first + front.length) back := by
  induction front generalizing first with
  | nil => rfl
  | cons line front ih =>
    simp only [List.cons_append, sourceLinesFrom, ih, List.length_cons]
    rw [show first + 1 + front.length = first + (front.length + 1) by omega]
    split <;> rfl

/-- A line keeps its place in the text as its number. -/
theorem sourceLinesFrom_eq_filterMap (first : Nat) (lines : List (List Char)) :
    sourceLinesFrom first lines = (lines.zipIdx (first + 1)).filterMap fun place =>
      if statement place.1 = [] then none
      else some ⟨.ofList (statement place.1), .ofNat place.2⟩ := by
  induction lines generalizing first with
  | nil => rfl
  | cons line lines ih =>
    rw [sourceLinesFrom, List.zipIdx_cons, List.filterMap_cons, ih]
    by_cases hline : statement line = []
    · simp only [if_pos hline]
    · simp only [if_neg hline]

/-- Only the numbers depend on where the first line stands. -/
theorem sourceLinesFrom_add (first count : Nat) (lines : List (List Char)) :
    sourceLinesFrom (first + count) lines =
      (sourceLinesFrom first lines).map (SourceLine.movedDown count) := by
  have hnumber (n : Nat) : UInt32.ofNat ((UInt32.ofNat n).toNat + count) = .ofNat (n + count) := by
    rw [UInt32.ofNat_add, UInt32.ofNat_toNat, ← UInt32.ofNat_add]
  induction lines generalizing first with
  | nil => rfl
  | cons line lines ih =>
    have hrest := ih (first + 1)
    rw [show first + 1 + count = first + count + 1 by omega] at hrest
    simp only [sourceLinesFrom, hrest]
    split
    · rfl
    · rw [List.map_cons, SourceLine.movedDown, hnumber,
        show first + 1 + count = first + count + 1 by omega]

/-- A text says the same before a line feed as at its end. -/
theorem sourceLinesFrom_pieces (first : Nat) (text : List Char) :
    sourceLinesFrom first ((split '\n' text).map (dropLastOf '\r')) =
      sourceLinesFrom first (lines text) := by
  obtain ⟨pieces, last, hpieces⟩ : ∃ pieces last, split '\n' text = pieces ++ [last] :=
    ⟨_, _, (List.dropLast_append_getLast (split_ne_nil text)).symm⟩
  have hlines : lines text =
      pieces.map (dropLastOf '\r') ++ if last = [] then [] else [last] := by
    simp [lines, linesBy, hpieces]
  rw [hlines, hpieces, List.map_append, sourceLinesFrom_append, sourceLinesFrom_append,
    List.map_singleton]
  congr 1
  by_cases hlast : last = []
  · rw [hlast]
    rfl
  · simp only [hlast, if_false, sourceLinesFrom, statement_dropLastOf]

/-- The lines of two texts with a line feed between them. -/
theorem sourceLines_append_line (first second : String) :
    sourceLines (first ++ "\n" ++ second) = sourceLines first ++
      (sourceLines second).map (SourceLine.movedDown (first.toList.count '\n' + 1)) := by
  have htext : (first ++ "\n" ++ second).toList = first.toList ++ '\n' :: second.toList := by
    simp [String.toList_append]
  rw [sourceLines, htext, lines, linesBy_append_cons, sourceLinesFrom_append,
    sourceLinesFrom_pieces, List.length_map, length_split, sourceLinesFrom_add]
  rfl

/-- A line that says something is a line of the text, at the place that its number tells. -/
theorem exists_line_of_mem_sourceLines {text : String} {line : SourceLine}
    (h : line ∈ sourceLines text) : ∃ place raw, (lines text.toList)[place]? = some raw ∧
      statement raw ≠ [] ∧ line = ⟨.ofList (statement raw), .ofNat (place + 1)⟩ := by
  rw [sourceLines, sourceLinesFrom_eq_filterMap] at h
  obtain ⟨⟨raw, number⟩, hplace, hline⟩ := List.mem_filterMap.mp h
  obtain ⟨hfirst, hlast, hraw⟩ := List.mem_zipIdx hplace
  split at hline
  · cases hline
  · rename_i hsaid
    cases hline
    refine ⟨number - 1, raw, ?_, hsaid, by rw [Nat.sub_add_cancel (by omega)]⟩
    rw [hraw]
    exact List.getElem?_eq_getElem (show number - 1 < _ by omega)

/-- A line alone is the first line. -/
theorem sourceLines_ofList {raw : List Char} (hline : '\n' ∉ raw) (hsaid : statement raw ≠ []) :
    sourceLines (.ofList raw) = [⟨.ofList (statement raw), 1⟩] := by
  have hne : raw ≠ [] := by
    rintro rfl
    exact hsaid rfl
  rw [sourceLines, String.toList_ofList, lines_of_notMem hline, if_neg hne]
  simp only [sourceLinesFrom, if_neg hsaid]
  rfl

end TreeLayout.Rules
