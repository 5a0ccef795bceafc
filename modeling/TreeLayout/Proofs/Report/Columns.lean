import Mathlib.Data.List.Forall2
import TreeLayout.Proofs.Report.Color
import TreeLayout.Proofs.Text.Segments

/-!
# Columns of a listing

A listing has one row for each rule: the location in parentheses, spaces up to a column that all rows have
in common, two spaces more, and the rule (`Rule.IsRow`). The column is the greatest number of bytes of a
location, while the spaces are counted in characters. As no text has more characters than bytes, every
location fits, and every rule starts at one and the same column (`Rule.exists_isRow_plain_listing`).
-/

namespace TreeLayout

open Terminal Text

/-- The greatest of some numbers is bounded as all of them are. -/
theorem foldl_max_le_iff {numbers : List Nat} {start bound : Nat} :
    numbers.foldl max start ≤ bound ↔ start ≤ bound ∧ ∀ number ∈ numbers, number ≤ bound := by
  induction numbers generalizing start with
  | nil => simp
  | cons number numbers ih => rw [List.foldl_cons, ih, Nat.max_le, List.forall_mem_cons, and_assoc]

namespace Rule

variable {rule : Rule} {rules : List Rule} {width : Nat} {row : List Char}

/-- Whether a text is the row of a rule in a listing: the location in parentheses, spaces up to a number of
characters, two spaces more, and the rule. -/
def IsRow (width : Nat) (rule : Rule) (row : List Char) : Prop :=
  ∃ gap, rule.origin.length + gap = width ∧
    row = rule.origin.toList ++ List.replicate gap ' ' ++ [' ', ' '] ++ rule.text.toList

/-- The row of a rule without its line feed. -/
def rowText (width : Nat) (rule : Rule) : List Char :=
  (padded width rule.origin ++ "  " ++ rule.text).toList

/-- The column is the least number that no location exceeds in bytes. -/
theorem column_le_iff {bound : Nat} :
    column rules ≤ bound ↔ ∀ rule ∈ rules, rule.origin.utf8ByteSize ≤ bound := by
  rw [column, foldl_max_le_iff, List.forall_mem_map]
  exact and_iff_right (Nat.zero_le bound)

/-- No location has more characters than the column. -/
theorem length_origin_le_column (h : rule ∈ rules) : rule.origin.length ≤ column rules :=
  calc rule.origin.length ≤ rule.origin.utf8ByteSize := length_le_utf8ByteSize rule.origin
    _ ≤ column rules := column_le_iff.mp (Nat.le_refl _) rule h

/-- Where the location fits, the row of a rule is as it should be. -/
theorem isRow_rowText (h : rule.origin.length ≤ width) : IsRow width rule (rowText width rule) := by
  refine ⟨width - rule.origin.length, by omega, ?_⟩
  simp [rowText, padded]

/-- A row is the rule behind two characters more than the column, which are those of the location and
spaces. -/
theorem IsRow.exists_cell (h : IsRow width rule row) :
    ∃ cell, row = cell ++ rule.text.toList ∧ cell.length = width + 2 ∧
      ∀ c ∈ cell, c ∈ rule.origin.toList ∨ c = ' ' := by
  obtain ⟨gap, hgap, hrow⟩ := h
  refine ⟨rule.origin.toList ++ List.replicate gap ' ' ++ [' ', ' '], hrow, ?_, ?_⟩
  · simp only [List.length_append, String.length_toList, List.length_replicate, List.length_cons,
      List.length_nil]
    omega
  · intro c hc
    rcases List.mem_append.mp hc with hpadded | hspaces
    · exact (List.mem_append.mp hpadded).imp_right List.eq_of_mem_replicate
    · exact .inr (List.eq_of_mem_replicate (n := 2) hspaces)

/-- Every rule starts two characters behind the column. -/
theorem IsRow.drop_eq (h : IsRow width rule row) : row.drop (width + 2) = rule.text.toList := by
  obtain ⟨cell, hrow, hlength, -⟩ := h.exists_cell
  rw [hrow, List.drop_left' hlength]

/-- What stands before a rule is on the line that the row starts. -/
theorem IsRow.notMem_take (h : IsRow width rule row) (hfile : '\n' ∉ rule.location.file.toList) :
    '\n' ∉ row.take (width + 2) := by
  obtain ⟨cell, hrow, hlength, hcell⟩ := h.exists_cell
  have horigin : '\n' ∉ rule.origin.toList := by
    simp [origin, Location.notMem_text (by decide) rfl hfile]
  rw [hrow, List.take_left' hlength]
  intro hmem
  rcases hcell '\n' hmem with hlocation | hspace
  · exact horigin hlocation
  · cases hspace

/-- A row is one line if neither its file name nor its pattern breaks it. -/
theorem IsRow.notMem (h : IsRow width rule row) (hfile : '\n' ∉ rule.location.file.toList)
    (hpattern : '\n' ∉ rule.pattern.toList) : '\n' ∉ row := by
  have hrule : '\n' ∉ rule.text.toList := by
    rw [text, Expression.text]
    split
    · rw [String.toList_append, List.mem_append]
      exact not_or.mpr ⟨by decide, hpattern⟩
    · exact hpattern
  rw [← List.take_append_drop (width + 2) row, h.drop_eq, List.mem_append]
  exact not_or.mpr ⟨h.notMem_take hfile, hrule⟩

theorem toList_plain_row (width : Nat) (rule : Rule) :
    (plain (rule.row width)).toList = rowText width rule ++ ['\n'] := by
  rw [row]
  split
  · simp [plain, Piece.plain, rowText]
  · simp [plain, Piece.plain, rowText]

/-- A listing is its rows, each with a line feed behind it. -/
theorem toList_plain_listing (rules : List Rule) :
    (plain (listing rules)).toList =
      (rules.map (rowText (column rules))).flatMap (· ++ ['\n']) := by
  rw [toList_plain, listing, List.flatMap_assoc, List.flatMap_map]
  simp only [← toList_plain, toList_plain_row]

/-- A listing is aligned. It has one row for each rule, with a line feed behind it: the location in
parentheses, spaces up to the column, two spaces more, and the rule, which so starts at the same place of a
line in every row. The column is no less than the number of characters of any location, and the least
number that is no less than their numbers of bytes. Where no pattern breaks its line, the rows are the lines
of the listing. -/
theorem exists_isRow_plain_listing (rules : List Rule)
    (hfiles : ∀ rule ∈ rules, '\n' ∉ rule.location.file.toList) :
    ∃ rows : List (List Char),
      (plain (listing rules)).toList = rows.flatMap (· ++ ['\n']) ∧
      List.Forall₂ (fun rule row => IsRow (column rules) rule row ∧
        '\n' ∉ row.take (column rules + 2) ∧ row.drop (column rules + 2) = rule.text.toList)
        rules rows ∧
      (∀ rule ∈ rules, rule.origin.length ≤ column rules) ∧
      (∀ bound, column rules ≤ bound ↔ ∀ rule ∈ rules, rule.origin.utf8ByteSize ≤ bound) ∧
      ((∀ rule ∈ rules, '\n' ∉ rule.pattern.toList) →
        split '\n' (plain (listing rules)).toList = rows ++ [[]]) := by
  have hrows (rule : Rule) (hrule : rule ∈ rules) :
      IsRow (column rules) rule (rowText (column rules) rule) :=
    isRow_rowText (length_origin_le_column hrule)
  refine ⟨rules.map (rowText (column rules)), toList_plain_listing rules, ?_,
    fun _ => length_origin_le_column, fun _ => column_le_iff, ?_⟩
  · rw [List.forall₂_map_right_iff, List.forall₂_same]
    intro rule hrule
    have hrow := hrows rule hrule
    exact ⟨hrow, hrow.notMem_take (hfiles rule hrule), hrow.drop_eq⟩
  · intro hpatterns
    rw [toList_plain_listing]
    apply split_flatMap_append_separator
    rw [List.forall_mem_map]
    intro rule hrule
    exact (hrows rule hrule).notMem (hfiles rule hrule) (hpatterns rule hrule)

/-- Rules of files whose names have more bytes than characters. -/
def wideRules : List Rule :=
  [⟨⟨"src/**", false⟩, ⟨"größe.rules", 9⟩⟩, ⟨⟨"old/", true⟩, ⟨"規則", 120⟩⟩]

/-- The column is that of the longer name in bytes, which both names fall short of in characters. -/
theorem exists_isRow_plain_listing_wide :
    (∀ rule ∈ wideRules, '\n' ∉ rule.location.file.toList) ∧ column wideRules = 17 ∧
      ∃ rows, split '\n' (plain (listing wideRules)).toList = rows ++ [[]] ∧
        List.Forall₂ (fun rule row => IsRow 17 rule row ∧ row.drop 19 = rule.text.toList)
          wideRules rows := by
  have hfiles : ∀ rule ∈ wideRules, '\n' ∉ rule.location.file.toList := by decide
  have hcolumn : column wideRules = 17 := by decide
  obtain ⟨rows, -, hrows, -, -, hlines⟩ := exists_isRow_plain_listing wideRules hfiles
  refine ⟨hfiles, hcolumn, rows, hlines (by decide), ?_⟩
  rw [hcolumn] at hrows
  exact hrows.imp fun _ _ h => ⟨h.1, h.2.2⟩

end Rule

end TreeLayout
