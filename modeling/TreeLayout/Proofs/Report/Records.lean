import TreeLayout.Proofs.Json.RoundTrip
import TreeLayout.Report.Records

/-!
# Reports for programs read back

A consumer that knows JSON and the keys of the records gets from the lines of a report what the report says
about each path, and from those of a listing the rules themselves. Members are looked up by their keys, so
neither their order nor further members play a role.
-/

namespace TreeLayout

open Json (Value parse? lineOf membersOf writeLines)

/-- The type that an object names for itself. -/
def recordType? (value : Value) : Option String := do (← value.member? "type").text?

/-- The text under a key, if the object has that key. -/
def optionalText? (value : Value) (key : String) : Option (Option String) :=
  match value.member? key with
  | some member => member.text?.map some
  | none => some none

/-- What a record says about a path that must not exist. -/
structure Notice where
  path : String
  reason : String
  pattern : Option String
  rule : Option String
deriving DecidableEq, Repr

/-- The notice in an object. -/
def Notice.ofValue? (value : Value) : Option Notice := do
  if (← recordType? value) ≠ "violation" then none
  return {
    path := ← (← value.member? "path").text?
    reason := ← (← value.member? "reason").text?
    pattern := ← optionalText? value "pattern"
    rule := ← optionalText? value "rule" }

/-- What is to be said of a violation: a forbidden path comes with the pattern and the rule. -/
def Violation.notice (violation : Violation) : Notice :=
  match violation.reason with
  | .notAllowed => ⟨violation.path, "not_allowed", none, none⟩
  | .forbidden pattern location =>
    ⟨violation.path, "forbidden", some pattern, some location.text⟩

/-- The totals of a report. -/
structure Report.Totals where
  passed : Bool
  filesChecked : Nat
  patternsApplied : Nat
  violations : Nat
deriving DecidableEq, Repr

/-- The totals in an object. -/
def Report.Totals.ofValue? (value : Value) : Option Totals := do
  if (← recordType? value) ≠ "status" then none
  return {
    passed := ← (← value.member? "passed").flag?
    filesChecked := ← (← value.member? "files_checked").count?
    patternsApplied := ← (← value.member? "patterns_applied").count?
    violations := ← (← value.member? "violations").count? }

/-- The rule in an object. -/
def Rule.ofValue? (value : Value) : Option Rule := do
  if (← recordType? value) ≠ "rule" then none
  let pattern ← (← value.member? "pattern").text?
  let negated ← (← value.member? "negated").flag?
  let file ← (← value.member? "file").text?
  let line ← (← value.member? "line").count?
  if h : line < UInt32.size then
    return ⟨⟨pattern, negated⟩, ⟨file, .ofNatLT line h⟩⟩
  else none

/-- The totals of a listing. -/
structure Rule.Totals where
  rules : Nat
  positive : Nat
  negative : Nat
deriving DecidableEq, Repr

/-- The totals in an object. -/
def Rule.Totals.ofValue? (value : Value) : Option Totals := do
  if (← recordType? value) ≠ "status" then none
  return {
    rules := ← (← value.member? "rules").count?
    positive := ← (← value.member? "positive").count?
    negative := ← (← value.member? "negative").count? }

theorem Notice.ofValue?_record (violation : Violation) :
    Notice.ofValue? (.object (membersOf violation.record)) = some violation.notice := by
  obtain ⟨path, reason⟩ := violation
  cases reason <;> rfl

theorem Report.Totals.ofValue?_statusRecord (report : Report) :
    Totals.ofValue? (.object (membersOf report.statusRecord)) =
      some ⟨report.passed, report.filesChecked, report.patternsApplied,
        report.violations.length⟩ := rfl

theorem Rule.ofValue?_record (rule : Rule) :
    Rule.ofValue? (.object (membersOf rule.record)) = some rule := by
  have hline : rule.location.line.toNat < UInt32.size := rule.location.line.toNat_lt_size
  change (if h : rule.location.line.toNat < UInt32.size then
    some (⟨rule.expression, rule.location.file, .ofNatLT rule.location.line.toNat h⟩ : Rule)
    else none) = some rule
  rw [dif_pos hline, UInt32.ofNatLT_toNat]

theorem Rule.Totals.ofValue?_statusRecord (rules : List Rule) :
    Totals.ofValue? (.object (membersOf (statusRecord rules))) =
      some ⟨rules.length, rules.length - rules.countP negated, rules.countP negated⟩ := rfl

theorem Violation.record_ne_nil (violation : Violation) : violation.record ≠ [] := List.cons_ne_nil _ _

theorem Rule.record_ne_nil (rule : Rule) : rule.record ≠ [] := List.cons_ne_nil _ _

section Lines

variable {α β γ : Type} {record : α → Json.Record} {status : Json.Record} {read : Value → Option β}
  {said : α → β} {readTotals : Value → Option γ} {totals : γ}

/-- Records of some items and one with totals are one line more than there are items: the lines are read
as what is said of the items, in their order, and the last as the totals. -/
theorem exists_lines (hitem : ∀ item, record item ≠ []) (hstatus : status ≠ [])
    (hread : ∀ item, read (.object (membersOf (record item))) = some (said item))
    (htotals : readTotals (.object (membersOf status)) = some totals) (items : List α) :
    ∃ front last,
      Json.AreObjectLines (front ++ [last]) (writeLines (items.map record ++ [status])) ∧
      (front ++ [last]).length = items.length + 1 ∧
      front.map (fun line => (parse? line).bind read) = items.map (fun item => some (said item)) ∧
      (parse? last).bind readTotals = some totals := by
  have hne : ∀ written ∈ items.map record ++ [status], written ≠ [] := by
    intro written hwritten
    rcases List.mem_append.mp hwritten with hmem | hmem
    · obtain ⟨item, -, rfl⟩ := List.mem_map.mp hmem
      exact hitem item
    · rw [List.mem_singleton.mp hmem]
      exact hstatus
  refine ⟨items.map (lineOf ∘ record), lineOf status, ?_, ?_, ?_, ?_⟩
  · have hlines := Json.areObjectLines_writeLines hne
    rwa [List.map_append, List.map_map, List.map_singleton] at hlines
  · rw [List.length_append, List.length_map, List.length_singleton]
  · rw [List.map_map]
    apply List.map_congr_left
    intro item _
    simp only [Function.comp_apply, Json.parse?_lineOf (hitem item), Option.bind_some, hread item]
  · rw [Json.parse?_lineOf hstatus, Option.bind_some, htotals]

end Lines

/-- The lines of a report say what the report says. -/
theorem Report.exists_lines (report : Report) :
    ∃ front last,
      Json.AreObjectLines (front ++ [last]) (writeLines report.records) ∧
      (front ++ [last]).length = report.violations.length + 1 ∧
      front.map (fun line => (parse? line).bind Notice.ofValue?) =
        report.violations.map (fun violation => some violation.notice) ∧
      (parse? last).bind Totals.ofValue? =
        some ⟨report.passed, report.filesChecked, report.patternsApplied,
          report.violations.length⟩ :=
  TreeLayout.exists_lines Violation.record_ne_nil (List.cons_ne_nil _ _) Notice.ofValue?_record
    (Totals.ofValue?_statusRecord report) report.violations

/-- The lines of a listing say what the rules are. -/
theorem Rule.exists_lines (rules : List Rule) :
    ∃ front last,
      Json.AreObjectLines (front ++ [last]) (writeLines (Rule.records rules)) ∧
      (front ++ [last]).length = rules.length + 1 ∧
      front.map (fun line => (parse? line).bind Rule.ofValue?) = rules.map some ∧
      (parse? last).bind Totals.ofValue? =
        some ⟨rules.length, rules.length - rules.countP negated, rules.countP negated⟩ :=
  TreeLayout.exists_lines Rule.record_ne_nil (List.cons_ne_nil _ _) Rule.ofValue?_record
    (Totals.ofValue?_statusRecord rules) rules

/-- Rules are known from the lines of their listing. -/
theorem Rule.injective_writeLines_records :
    Function.Injective fun rules : List Rule => writeLines (Rule.records rules) := by
  intro rules rules' heq
  obtain ⟨front, last, hlines, -, hfront, -⟩ := Rule.exists_lines rules
  obtain ⟨front', last', hlines', -, hfront', -⟩ := Rule.exists_lines rules'
  dsimp only at heq
  rw [← heq] at hlines'
  obtain ⟨rfl, -⟩ := List.append_inj' (hlines.unique hlines') rfl
  rw [hfront] at hfront'
  exact (List.map_injective_iff.mpr fun _ _ => Option.some.inj) hfront'

/-- What the records of reports and listings say can be read from their lines: of a report, what it says of
each path and its totals; of a listing, the rules and their number, so that no two lists of rules have the
same lines. -/
theorem records_read_back :
    (∀ report : Report, ∃ front last,
      Json.AreObjectLines (front ++ [last]) (writeLines report.records) ∧
      (front ++ [last]).length = report.violations.length + 1 ∧
      front.map (fun line => (parse? line).bind Notice.ofValue?) =
        report.violations.map (fun violation => some violation.notice) ∧
      (parse? last).bind Report.Totals.ofValue? =
        some ⟨decide (report.violations.length = 0), report.filesChecked, report.patternsApplied,
          report.violations.length⟩) ∧
    (∀ rules : List Rule, ∃ front last totals,
      Json.AreObjectLines (front ++ [last]) (writeLines (Rule.records rules)) ∧
      (front ++ [last]).length = rules.length + 1 ∧
      front.map (fun line => (parse? line).bind Rule.ofValue?) = rules.map some ∧
      (parse? last).bind Rule.Totals.ofValue? = some totals ∧
      totals.rules = rules.length ∧ totals.rules = totals.positive + totals.negative) ∧
    ∀ rules rules' : List Rule,
      writeLines (Rule.records rules) = writeLines (Rule.records rules') → rules = rules' := by
  refine ⟨fun report => ?_, fun rules => ?_, fun rules rules' h => ?_⟩
  · obtain ⟨front, last, hlines, hlength, hfront, hlast⟩ := report.exists_lines
    have hpassed : report.passed = decide (report.violations.length = 0) := by
      rw [Report.passed, Bool.eq_iff_iff, List.isEmpty_iff, decide_eq_true_iff, List.length_eq_zero_iff]
    rw [hpassed] at hlast
    exact ⟨front, last, hlines, hlength, hfront, hlast⟩
  · obtain ⟨front, last, hlines, hlength, hfront, hlast⟩ := Rule.exists_lines rules
    have hnegative : rules.countP Rule.negated ≤ rules.length := List.countP_le_length
    refine ⟨front, last, _, hlines, hlength, hfront, hlast, rfl, ?_⟩
    dsimp only
    omega
  · exact Rule.injective_writeLines_records h

/-- A report and a rule are read back from their records, whatever has to be escaped in them, and rules that
look alike have different records. -/
theorem records_read_back_escaped :
    (∃ front last,
      Json.AreObjectLines (front ++ [last]) (writeLines
        (Report.records ⟨[⟨"a\"\n\\", .notAllowed⟩, ⟨"é\x01", .forbidden "é*" ⟨"r\t", 12⟩⟩], 3, 1⟩)) ∧
      front.map (fun line => (parse? line).bind Notice.ofValue?) =
        [some ⟨"a\"\n\\", "not_allowed", none, none⟩,
          some ⟨"é\x01", "forbidden", some "é*", some "r\t:12"⟩] ∧
      (parse? last).bind Report.Totals.ofValue? = some ⟨false, 3, 1, 2⟩) ∧
    (∃ front last totals,
      Json.AreObjectLines (front ++ [last]) (writeLines (Rule.records [⟨⟨"\n\"é", true⟩, ⟨"r\t", 7⟩⟩])) ∧
      front.map (fun line => (parse? line).bind Rule.ofValue?) = [some ⟨⟨"\n\"é", true⟩, ⟨"r\t", 7⟩⟩] ∧
      (parse? last).bind Rule.Totals.ofValue? = some totals ∧ totals.rules = 1) ∧
    writeLines (Rule.records [⟨⟨"!a", false⟩, ⟨"r", 1⟩⟩]) ≠
      writeLines (Rule.records [⟨⟨"a", true⟩, ⟨"r", 1⟩⟩]) := by
  obtain ⟨front, last, hlines, -, hfront, hlast⟩ := records_read_back.1
    ⟨[⟨"a\"\n\\", .notAllowed⟩, ⟨"é\x01", .forbidden "é*" ⟨"r\t", 12⟩⟩], 3, 1⟩
  obtain ⟨frontRules, lastRules, totals, hlinesRules, -, hfrontRules, hlastRules, hcount, -⟩ :=
    records_read_back.2.1 [⟨⟨"\n\"é", true⟩, ⟨"r\t", 7⟩⟩]
  refine ⟨⟨front, last, hlines, hfront, hlast⟩,
    ⟨frontRules, lastRules, totals, hlinesRules, hfrontRules, hlastRules, hcount⟩, fun h => ?_⟩
  exact absurd (records_read_back.2.2 _ _ h) (by decide)

end TreeLayout
