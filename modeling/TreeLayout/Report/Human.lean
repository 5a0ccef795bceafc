import TreeLayout.Report.Basic
import TreeLayout.Terminal.Painted

/-!
# Reports for people

Violations stand one a line under a header, and a forbidden path names the rule that forbids it. A
listing of rules has one row a rule: the location, padded to a common column, and the pattern.
-/

namespace TreeLayout

open Terminal

/-- The pieces of one violation's line. -/
def Violation.pieces (violation : Violation) : List Piece :=
  match violation.reason with
  | .notAllowed => [.text violation.path, .text "\n"]
  | .forbidden pattern location =>
    [.text violation.path, .style .dimmed,
      .text ("  (forbidden by !" ++ pattern ++ " at " ++ location.text ++ ")"), .reset, .text "\n"]

/-- A report as painted text; one without violations has none. -/
def Report.pieces (report : Report) : List Piece :=
  if report.passed then []
  else
    [.style .alarm, .text "ERROR:", .reset, .text " the following files must not exist:\n",
      .text "\n"] ++ report.violations.flatMap Violation.pieces

namespace Rule

/-- The location of a rule in parentheses. -/
def origin (rule : Rule) : String := "(" ++ rule.location.text ++ ")"

/-- The column that the locations of some rules are padded to: the greatest number of bytes among
them, which is no less than the number of characters of any. -/
def column (rules : List Rule) : Nat := (rules.map fun rule => rule.origin.utf8ByteSize).foldl max 0

/-- A text followed by spaces up to a number of characters. The number is not limited here; formatting
that keeps its widths in 16 bits gives up on a column beyond 65535. -/
def padded (width : Nat) (text : String) : String :=
  text ++ String.ofList (List.replicate (width - text.length) ' ')

/-- The pieces of one rule's row. -/
def row (width : Nat) (rule : Rule) : List Piece :=
  [.style .dimmed, .text (padded width rule.origin), .reset] ++
    (if rule.negated then [.style .reddened] else []) ++
    [.text ("  " ++ rule.text ++ "\n"), .reset]

/-- A listing of rules as painted text. -/
def listing (rules : List Rule) : List Piece := rules.flatMap (row (column rules))

end Rule

end TreeLayout
