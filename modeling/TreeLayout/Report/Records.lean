import TreeLayout.Report.Basic
import TreeLayout.Json.Record

/-!
# Reports for programs

A report as JSON records, one a violation and then one with the totals; likewise a listing of rules.
-/

namespace TreeLayout

/-- The record of a violation; only a forbidden path has a pattern and a rule. -/
def Violation.record (violation : Violation) : Json.Record :=
  [("type", .text "violation"), ("path", .text violation.path)] ++
    match violation.reason with
    | .notAllowed => [("reason", .text "not_allowed")]
    | .forbidden pattern location =>
      [("reason", .text "forbidden"), ("pattern", .text pattern), ("rule", .text location.text)]

namespace Report

/-- The record with the totals of a report. -/
def statusRecord (report : Report) : Json.Record :=
  [("type", .text "status"), ("passed", .flag report.passed),
    ("files_checked", .count report.filesChecked),
    ("patterns_applied", .count report.patternsApplied),
    ("violations", .count report.violations.length)]

/-- A report as records. -/
def records (report : Report) : List Json.Record :=
  report.violations.map Violation.record ++ [report.statusRecord]

end Report

namespace Rule

/-- The record of a rule. -/
def record (rule : Rule) : Json.Record :=
  [("type", .text "rule"), ("pattern", .text rule.pattern), ("negated", .flag rule.negated),
    ("file", .text rule.location.file), ("line", .count rule.location.line.toNat)]

/-- The record with the totals of a listing. -/
def statusRecord (rules : List Rule) : Json.Record :=
  let negative := rules.countP negated
  [("type", .text "status"), ("rules", .count rules.length),
    ("positive", .count (rules.length - negative)), ("negative", .count negative)]

/-- A listing of rules as records. -/
def records (rules : List Rule) : List Json.Record := rules.map record ++ [statusRecord rules]

end Rule

end TreeLayout
