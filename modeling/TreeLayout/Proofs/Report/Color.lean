import TreeLayout.Proofs.Terminal.Display
import TreeLayout.Report.Human

/-!
# Colour in reports

Where paths, patterns and file names are texts of one line without escape characters, colour adds control
sequences to a report and to a listing and nothing else, and a report breaks its lines only while the
terminal is reset. In a listing only the rows of rules that allow do so (`Rule.breaksReset_row_iff`).
-/

namespace TreeLayout

open Terminal

/-- Whether a text holds neither an escape character nor a line break. -/
def IsOneLine (text : String) : Prop := '\x1b' ∉ text.toList ∧ '\n' ∉ text.toList

instance (text : String) : Decidable (IsOneLine text) :=
  inferInstanceAs (Decidable (_ ∧ _))

/-- The path, pattern and file name that a violation is reported with. -/
def Violation.texts (violation : Violation) : List String :=
  match violation.reason with
  | .notAllowed => [violation.path]
  | .forbidden pattern location => [violation.path, pattern, location.file]

/-- The pattern and file name that a rule is listed with. -/
def Rule.texts (rule : Rule) : List String := [rule.pattern, rule.location.file]

theorem IsOneLine.append {first second : String} (hfirst : IsOneLine first) (hsecond : IsOneLine second) :
    IsOneLine (first ++ second) := by
  constructor
  · rw [String.toList_append, List.mem_append]
    exact not_or.mpr ⟨hfirst.1, hsecond.1⟩
  · rw [String.toList_append, List.mem_append]
    exact not_or.mpr ⟨hfirst.2, hsecond.2⟩

/-- A location adds a colon and digits to the name of its file, and nothing else. -/
theorem Location.notMem_text {location : Location} {c : Char} (hcolon : c ≠ ':')
    (hdigit : c.isDigit = false) (h : c ∉ location.file.toList) : c ∉ location.text.toList := by
  have hnumber : c ∉ Nat.toDigits 10 location.line.toNat := by
    intro hmem
    cases hdigit.symm.trans (Nat.isDigit_of_mem_toDigits (by decide) (by decide) hmem)
  simp [text, h, hcolon, hnumber]

theorem Location.isOneLine_text {location : Location} (h : IsOneLine location.file) :
    IsOneLine location.text :=
  ⟨notMem_text (by decide) rfl h.1, notMem_text (by decide) rfl h.2⟩

namespace Violation

variable {violation : Violation}

/-- What stands after a forbidden path is one line. -/
theorem isOneLine_note {pattern : String} {location : Location} (hpattern : IsOneLine pattern)
    (hfile : IsOneLine location.file) :
    IsOneLine ("  (forbidden by !" ++ pattern ++ " at " ++ location.text ++ ")") := by
  have hopening : IsOneLine ("  (forbidden by !" ++ pattern ++ " at ") :=
    (IsOneLine.append (by decide) hpattern).append (by decide)
  exact (hopening.append (Location.isOneLine_text hfile)).append (by decide)

theorem isUnescaped_of_mem_pieces (h : ∀ text ∈ violation.texts, IsOneLine text) :
    ∀ piece ∈ violation.pieces, piece.IsUnescaped := by
  obtain ⟨path, reason⟩ := violation
  cases reason with
  | notAllowed =>
    have hpath : IsOneLine path := h path (by simp [texts])
    simp [pieces, Piece.IsUnescaped, hpath.1]
  | forbidden pattern location =>
    have hpath : IsOneLine path := h path (by simp [texts])
    have hnote := isOneLine_note (h pattern (by simp [texts])) (h location.file (by simp [texts]))
    simp only [pieces, List.forall_mem_cons]
    exact ⟨hpath.1, trivial, hnote.1, trivial, by decide, List.forall_mem_nil _⟩

/-- The line of a violation ends reset, and its line break comes after the note in its style. -/
theorem breaksReset_pieces (h : ∀ text ∈ violation.texts, IsOneLine text) :
    BreaksReset violation.pieces := by
  obtain ⟨path, reason⟩ := violation
  cases reason with
  | notAllowed => exact (BreaksReset.text path).append (BreaksReset.text "\n")
  | forbidden pattern location =>
    have hnote := isOneLine_note (h pattern (by simp [texts])) (h location.file (by simp [texts]))
    exact ((BreaksReset.text path).append (BreaksReset.styled .dimmed hnote.2)).append
      (BreaksReset.text "\n")

end Violation

namespace Report

variable {report : Report}

theorem isUnescaped_of_mem_pieces
    (h : ∀ violation ∈ report.violations, ∀ text ∈ violation.texts, IsOneLine text) :
    ∀ piece ∈ report.pieces, piece.IsUnescaped := by
  rw [pieces]
  split
  · exact List.forall_mem_nil _
  · rw [List.forall_mem_append, List.forall_mem_flatMap]
    refine ⟨by decide, ?_⟩
    intro violation hviolation
    exact Violation.isUnescaped_of_mem_pieces (h violation hviolation)

/-- The header of a report ends reset, and so does each of its lines. -/
theorem breaksReset_pieces
    (h : ∀ violation ∈ report.violations, ∀ text ∈ violation.texts, IsOneLine text) :
    BreaksReset report.pieces := by
  rw [pieces]
  split
  · exact .nil
  · have htitle : BreaksReset [.style .alarm, .text "ERROR:", .reset] := .styled .alarm (by decide)
    have hheader := (htitle.append (.text " the following files must not exist:\n")).append (.text "\n")
    have hrows := BreaksReset.flatMap fun violation hviolation =>
      Violation.breaksReset_pieces (h violation hviolation)
    exact hheader.append hrows

end Report

namespace Rule

variable {rule : Rule}

/-- A location in parentheses is one line, and so it is with spaces after it. -/
theorem isOneLine_padded_origin (h : IsOneLine rule.location.file) (width : Nat) :
    IsOneLine (padded width rule.origin) := by
  have horigin : IsOneLine rule.origin :=
    (IsOneLine.append (by decide) (Location.isOneLine_text h)).append (by decide)
  have hspaces (n : Nat) : IsOneLine (String.ofList (List.replicate n ' ')) := by
    simp [IsOneLine, List.mem_replicate]
  exact horigin.append (hspaces _)

theorem isOneLine_text (h : IsOneLine rule.pattern) : IsOneLine rule.text := by
  rw [text, Expression.text]
  split
  · exact IsOneLine.append (by decide) h
  · exact h

theorem isUnescaped_of_mem_row (h : ∀ text ∈ rule.texts, IsOneLine text) (width : Nat) :
    ∀ piece ∈ rule.row width, piece.IsUnescaped := by
  have horigin := isOneLine_padded_origin (h rule.location.file (by simp [texts])) width
  have htext := isOneLine_text (h rule.pattern (by simp [texts]))
  rw [row, List.forall_mem_append, List.forall_mem_append]
  refine ⟨⟨?_, ?_⟩, ?_⟩
  · simp [Piece.IsUnescaped, horigin.1]
  · split
    · decide
    · exact List.forall_mem_nil _
  · simp [Piece.IsUnescaped, htext.1]

/-- The row of a rule that allows breaks its line reset; that of a rule that forbids breaks it in red. -/
theorem breaksReset_row_iff (h : IsOneLine rule.location.file) (width : Nat) :
    BreaksReset (rule.row width) ↔ rule.negated = false := by
  have horigin : BreaksReset [.style .dimmed, .text (padded width rule.origin), .reset] :=
    .styled .dimmed (isOneLine_padded_origin h width).2
  constructor
  · intro hreset
    cases hnegated : rule.negated with
    | false => rfl
    | true =>
      have hbreak : ('\n', [['3', '1']]) ∈ shown [] ((rule.row width).flatMap Piece.signals) := by
        rw [row, if_pos hnegated, List.append_assoc, List.flatMap_append, shown_append,
          horigin.left_eq_nil]
        refine List.mem_append_right _ ?_
        simp [Piece.signals, Style.reddened, shown, force, shown_append]
      cases hreset.breaks _ hbreak
  · intro hallows
    rw [row, if_neg (by simp [hallows]), List.append_nil]
    exact horigin.append ((BreaksReset.text _).append .reset)

theorem isUnescaped_of_mem_listing {rules : List Rule}
    (h : ∀ rule ∈ rules, ∀ text ∈ rule.texts, IsOneLine text) :
    ∀ piece ∈ listing rules, piece.IsUnescaped := by
  rw [listing, List.forall_mem_flatMap]
  intro rule hrule
  exact isUnescaped_of_mem_row (h rule hrule) _

end Rule

/-- Colour changes nothing but colour. Without control sequences, a coloured report and a coloured listing
are the plain ones, and every line break of a coloured report is printed while no sequence is in force. -/
theorem erase_write_always_and_breaks_reset (report : Report) (rules : List Rule)
    (hreport : ∀ violation ∈ report.violations, ∀ text ∈ violation.texts, IsOneLine text)
    (hrules : ∀ rule ∈ rules, ∀ text ∈ rule.texts, IsOneLine text) :
    erase (write .always report.pieces).toList = (plain report.pieces).toList ∧
      erase (write .always (Rule.listing rules)).toList = (plain (Rule.listing rules)).toList ∧
      ∀ inForce, ('\n', inForce) ∈ shown [] (signals (write .always report.pieces).toList) →
        inForce = [] := by
  have hpieces := Report.isUnescaped_of_mem_pieces hreport
  refine ⟨erase_colored hpieces, erase_colored (Rule.isUnescaped_of_mem_listing hrules), ?_⟩
  intro inForce hmem
  rw [write, if_pos rfl, signals_colored hpieces] at hmem
  exact (Report.breaksReset_pieces hreport).breaks inForce hmem

/-- A file that no rule allows and a directory that a rule forbids. -/
def mixedReport : Report :=
  { violations := [⟨"tmp/größe [31m.log", .notAllowed⟩,
      ⟨"old/", .forbidden "old/" ⟨"layout.rules", 12⟩⟩]
    filesChecked := 3
    patternsApplied := 2 }

/-- A rule that allows and one that forbids. -/
def mixedRules : List Rule :=
  [⟨⟨"src/**", false⟩, ⟨"layout.rules", 9⟩⟩, ⟨⟨"old/", true⟩, ⟨"layout.rules", 12⟩⟩]

/-- The paths may look like control sequences as long as no escape character stands before them. -/
theorem erase_write_always_and_breaks_reset_mixed :
    (∀ violation ∈ mixedReport.violations, ∀ text ∈ violation.texts, IsOneLine text) ∧
      (∀ rule ∈ mixedRules, ∀ text ∈ rule.texts, IsOneLine text) ∧
      write .always mixedReport.pieces ≠ plain mixedReport.pieces ∧
      erase (write .always mixedReport.pieces).toList = (plain mixedReport.pieces).toList ∧
      erase (write .always (Rule.listing mixedRules)).toList = (plain (Rule.listing mixedRules)).toList ∧
      ∀ inForce, ('\n', inForce) ∈ shown [] (signals (write .always mixedReport.pieces).toList) →
        inForce = [] := by
  have hreport : ∀ violation ∈ mixedReport.violations, ∀ text ∈ violation.texts, IsOneLine text := by
    decide
  have hrules : ∀ rule ∈ mixedRules, ∀ text ∈ rule.texts, IsOneLine text := by
    decide
  exact ⟨hreport, hrules, by decide,
    erase_write_always_and_breaks_reset mixedReport mixedRules hreport hrules⟩

end TreeLayout
