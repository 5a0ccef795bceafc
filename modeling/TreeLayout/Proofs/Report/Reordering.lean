import TreeLayout.Proofs.Report.Exchange
import TreeLayout.Proofs.Report.Parts

/-!
# Rules in another order, and added rules

The order of the rules decides only which rule a prohibition names and where it stands; what is reported
does not depend on it. A rule that allows takes nothing but missing permissions out of a report, and a rule
that forbids takes nothing out (`Snapshot.check_reorder_add`).
-/

namespace TreeLayout

/-- Whether two reports say the same but for the rules that prohibitions name, and their order. -/
structure Report.Agrees (report other : Report) : Prop where
  notAllowed : other.notAllowed = report.notAllowed
  forbidden : ∀ path, path ∈ other.forbidden ↔ path ∈ report.forbidden
  passed : other.passed = report.passed
  filesChecked : other.filesChecked = report.filesChecked
  patternsApplied : other.patternsApplied = report.patternsApplied

/-- A computation with a result changes nothing about whether and how others fail. -/
theorem mapM_insert_eq_error_iff {ε α β : Type} {f : α → Except ε β} {front back : List α} {item : α}
    {b : β} (h : f item = .ok b) {error : ε} :
    (front ++ item :: back).mapM f = .error error ↔ (front ++ back).mapM f = .error error := by
  rw [List.mapM_append, List.mapM_append, List.mapM_cons, h]
  cases front.mapM f with
  | error failure => rfl
  | ok first =>
    cases back.mapM f with
    | error failure => rfl
    | ok second => simp [bind, Except.bind, pure, Except.pure]

namespace Snapshot

variable {snapshot : Snapshot} {rules others front back : List Rule} {added : Rule}
  {alsoAllowed : String → Bool}

/-- Permuted rules find the same paths forbidden. -/
theorem mem_map_path_forbidden_of_perm (h : rules.Perm others) (path : String) :
    path ∈ (snapshot.forbidden others).map Violation.path ↔
      path ∈ (snapshot.forbidden rules).map Violation.path := by
  rw [mem_map_path_forbidden, mem_map_path_forbidden]
  simp only [h.mem_iff]

/-- Permuted rules leave the same files without permission. -/
theorem unallowed_of_perm (h : rules.Perm others) :
    snapshot.unallowed others alsoAllowed = snapshot.unallowed rules alsoAllowed := by
  apply unallowed_congr
  intro file _
  simp only [h.mem_iff]

/-- The reports for permuted rules agree. -/
theorem agrees_reportOn_of_perm (h : rules.Perm others) :
    (snapshot.reportOn rules alsoAllowed).Agrees (snapshot.reportOn others alsoAllowed) := by
  have hforbidden (path : String) : path ∈ (snapshot.forbidden others).map Violation.path ↔
      path ∈ (snapshot.forbidden rules).map Violation.path := mem_map_path_forbidden_of_perm h path
  refine ⟨?_, ?_, ?_, rfl, h.length_eq.symm⟩
  · rw [notAllowed_reportOn, notAllowed_reportOn, unallowed_of_perm h]
  · intro path
    rw [forbidden_reportOn, forbidden_reportOn, hforbidden]
  · rw [Bool.eq_iff_iff, Report.passed_eq_true_iff, Report.passed_eq_true_iff]
    simp only [notAllowed_reportOn, forbidden_reportOn, unallowed_of_perm h,
      List.eq_nil_iff_forall_not_mem, hforbidden]

/-- With more rules, fewer files lack permission. -/
theorem unallowed_sublist (h : rules ⊆ others) :
    (snapshot.unallowed others alsoAllowed).Sublist (snapshot.unallowed rules alsoAllowed) := by
  apply List.monotone_filter_right
  intro file hfile
  simp only [Bool.and_eq_true, List.all_eq_true] at hfile ⊢
  exact ⟨fun rule hrule => hfile.1 rule (h hrule), hfile.2⟩

/-- A rule that allows changes nothing about what is forbidden. -/
theorem forbidden_insert_of_allows (h : added.negated = false) :
    snapshot.forbidden (front ++ added :: back) = snapshot.forbidden (front ++ back) := by
  have hadded : ∀ rule ∈ [added], rule.negated = false := by simpa using h
  have hexchange : snapshot.forbidden (front ++ [added] ++ back) =
      snapshot.forbidden (front ++ [] ++ back) := forbidden_exchange hadded (by simp)
  simpa using hexchange

/-- What is reported is still reported when a rule that forbids is added: a file without permission that
it matches is then forbidden. -/
theorem mem_violations_insert_of_forbids (h : added.negated = true) {report extended : Report}
    (hcheck : snapshot.checkAllowing (front ++ back) alsoAllowed = .ok report)
    (hextended : snapshot.checkAllowing (front ++ added :: back) alsoAllowed = .ok extended)
    {path : String} (hpath : path ∈ report.violations.map Violation.path) :
    path ∈ extended.violations.map Violation.path := by
  rw [mem_map_path_violations hextended]
  rcases (mem_map_path_violations hcheck).mp hpath with hfile | ⟨rule, hrule, hrest⟩
  · by_cases hmatched : path ∈ snapshot.matchedBy added
    · exact .inr ⟨added, by simp, h, hmatched⟩
    · obtain ⟨hmem, hnone, halso⟩ := mem_unallowed.mp hfile
      refine .inl (mem_unallowed.mpr ⟨hmem, ?_, halso⟩)
      intro rule hrule
      rcases List.mem_append.mp hrule with hfront | hback
      · exact hnone rule (List.mem_append_left back hfront)
      · rcases List.mem_cons.mp hback with rfl | hback
        · exact hmatched
        · exact hnone rule (List.mem_append_right front hback)
  · have hsubset : front ++ back ⊆ front ++ added :: back := by simp
    exact .inr ⟨rule, hsubset hrule, hrest⟩

/-- A pattern that is a glob has no part in whether and how a check fails. -/
theorem check_insert_eq_error_iff (h : ∃ query, EntryQuery.ofPattern added.pattern = .ok query)
    {error : Rules.Error} : snapshot.check (front ++ added :: back) = .error error ↔
      snapshot.check (front ++ back) = .error error := by
  obtain ⟨query, hquery⟩ := h
  rw [check, check, checkAllowing_eq_error_iff, checkAllowing_eq_error_iff, findings, findings]
  apply mapM_insert_eq_error_iff (b := (added, snapshot.matchedBy added))
  rw [pathsMatching_eq_matchedBy hquery]

/-- Two checks with permuted rules both fail, or their reports agree. Adding a rule whose pattern is a glob
leaves a failure as it is; otherwise a rule that allows leaves all prohibitions as they are and takes
files from those that lack permission, and a rule that forbids leaves every path reported. -/
theorem check_reorder_add (snapshot : Snapshot) :
    (∀ rules others : List Rule, rules.Perm others →
      (∃ error other, snapshot.check rules = .error error ∧ snapshot.check others = .error other) ∨
      ∃ report other, snapshot.check rules = .ok report ∧ snapshot.check others = .ok other ∧
        report.Agrees other) ∧
    ∀ (front : List Rule) (added : Rule) (back : List Rule),
      (∃ query, EntryQuery.ofPattern added.pattern = .ok query) →
      (∃ error, snapshot.check (front ++ back) = .error error ∧
        snapshot.check (front ++ added :: back) = .error error) ∨
      ∃ report extended, snapshot.check (front ++ back) = .ok report ∧
        snapshot.check (front ++ added :: back) = .ok extended ∧
        (added.negated = false →
          extended.violations.filter Violation.isForbidden =
            report.violations.filter Violation.isForbidden ∧
          extended.notAllowed.Sublist report.notAllowed) ∧
        (added.negated = true → ∀ path ∈ report.violations.map Violation.path,
          path ∈ extended.violations.map Violation.path) := by
  constructor
  · intro rules others hperm
    by_cases hglobs : AllGlobs rules
    · have hothers : AllGlobs others := fun rule hrule => hglobs rule (hperm.mem_iff.mpr hrule)
      exact .inr ⟨_, _, checkAllowing_eq_ok_iff.mpr ⟨hglobs, rfl⟩,
        checkAllowing_eq_ok_iff.mpr ⟨hothers, rfl⟩, agrees_reportOn_of_perm hperm⟩
    · have hothers : ¬ AllGlobs others := fun hothers =>
        hglobs fun rule hrule => hothers rule (hperm.mem_iff.mp hrule)
      obtain ⟨error, herror⟩ : ∃ error, snapshot.check rules = .error error :=
        exists_checkAllowing_eq_error hglobs
      obtain ⟨other, hother⟩ : ∃ error, snapshot.check others = .error error :=
        exists_checkAllowing_eq_error hothers
      exact .inl ⟨error, other, herror, hother⟩
  · intro front added back hadded
    cases hcheck : snapshot.check (front ++ back) with
    | error error => exact .inl ⟨error, rfl, (check_insert_eq_error_iff hadded).mpr hcheck⟩
    | ok report =>
      obtain ⟨hglobs, rfl⟩ := checkAllowing_eq_ok_iff.mp hcheck
      have hextended : AllGlobs (front ++ added :: back) := by
        obtain ⟨hfront, hback⟩ := allGlobs_append.mp hglobs
        exact allGlobs_append.mpr ⟨hfront, List.forall_mem_cons.mpr ⟨hadded, hback⟩⟩
      have hcheckExtended : snapshot.check (front ++ added :: back) = _ :=
        checkAllowing_eq_ok_iff.mpr ⟨hextended, rfl⟩
      refine .inr ⟨_, _, rfl, hcheckExtended, ?_, ?_⟩
      · intro hallows
        rw [filter_isForbidden_reportOn, filter_isForbidden_reportOn, notAllowed_reportOn,
          notAllowed_reportOn]
        exact ⟨forbidden_insert_of_allows hallows, unallowed_sublist (by simp)⟩
      · intro hforbids path
        exact mem_violations_insert_of_forbids hforbids hcheck hcheckExtended

/-- Two rules that forbid one file, in either order, and then a rule that allows the other file. -/
theorem check_reorder_add_two_files :
    let snapshot : Snapshot := ⟨[⟨"a", .file⟩, ⟨"b", .file⟩]⟩
    let first : Rule := ⟨⟨"a", true⟩, ⟨"rules", 1⟩⟩
    let second : Rule := ⟨⟨"a*", true⟩, ⟨"rules", 2⟩⟩
    let added : Rule := ⟨⟨"b", false⟩, ⟨"rules", 3⟩⟩
    [first, second].Perm [second, first] ∧
      (∃ query, EntryQuery.ofPattern added.pattern = .ok query) ∧
      (∃ report other, snapshot.check [first, second] = .ok report ∧
        snapshot.check [second, first] = .ok other ∧ report.Agrees other ∧ report ≠ other) ∧
      ∃ report extended, snapshot.check [first, second] = .ok report ∧
        snapshot.check [first, added, second] = .ok extended ∧
        extended.notAllowed.Sublist report.notAllowed ∧ extended.notAllowed ≠ report.notAllowed := by
  intro snapshot first second added
  have hfirst : snapshot.check [first, second] =
      .ok ⟨[⟨"b", .notAllowed⟩, ⟨"a", .forbidden "a" ⟨"rules", 1⟩⟩], 2, 2⟩ := by decide +kernel
  have hsecond : snapshot.check [second, first] =
      .ok ⟨[⟨"b", .notAllowed⟩, ⟨"a", .forbidden "a*" ⟨"rules", 2⟩⟩], 2, 2⟩ := by decide +kernel
  have hadded : snapshot.check [first, added, second] =
      .ok ⟨[⟨"a", .forbidden "a" ⟨"rules", 1⟩⟩], 2, 3⟩ := by decide +kernel
  obtain ⟨hreorder, hadd⟩ := check_reorder_add snapshot
  have hperm : [first, second].Perm [second, first] := .swap second first []
  have hquery : ∃ query, EntryQuery.ofPattern "b" = .ok query := ⟨_, rfl⟩
  refine ⟨hperm, hquery, ⟨_, _, hfirst, hsecond, ?_, by decide⟩, ⟨_, _, hfirst, hadded, ?_, by decide⟩⟩
  · rcases hreorder _ _ hperm with ⟨error, other, herror, -⟩ | ⟨report, other, hreport, hother, h⟩
    · cases hfirst.symm.trans herror
    · cases hfirst.symm.trans hreport
      cases hsecond.symm.trans hother
      exact h
  · rcases hadd [first] added [second] hquery with ⟨error, herror, -⟩ | ⟨report, extended, h⟩
    · cases hfirst.symm.trans herror
    · obtain ⟨hreport, hextended, hallows, -⟩ := h
      cases hfirst.symm.trans hreport
      cases hadded.symm.trans hextended
      exact (hallows rfl).2

end Snapshot

end TreeLayout
