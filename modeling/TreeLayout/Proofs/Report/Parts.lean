import TreeLayout.Proofs.Report.Naming

/-!
# The two parts of a report

A check has a report exactly if all patterns are globs. The files that lack permission and the
prohibitions stand in it one after the other, and its violations tell which of the two they are.
-/

namespace TreeLayout

/-- A report has no violations exactly if it has none of either kind. -/
theorem Report.passed_eq_true_iff {report : Report} :
    report.passed = true ↔ report.notAllowed = [] ∧ report.forbidden = [] := by
  rw [passed, List.isEmpty_iff, notAllowed, forbidden, List.map_eq_nil_iff, List.map_eq_nil_iff,
    List.filter_eq_nil_iff, List.filter_eq_nil_iff]
  constructor
  · intro h
    simp [h]
  · intro h
    obtain ⟨hnotAllowed, hforbidden⟩ := h
    rw [List.eq_nil_iff_forall_not_mem]
    intro violation hmem
    have hkind := hforbidden violation hmem
    exact hnotAllowed violation hmem (by simpa using hkind)

namespace Snapshot

variable {snapshot : Snapshot} {rules : List Rule} {alsoAllowed : String → Bool}

/-- The report on a tree for rules whose patterns are globs. -/
def reportOn (snapshot : Snapshot) (rules : List Rule) (alsoAllowed : String → Bool) : Report where
  violations := (snapshot.unallowed rules alsoAllowed).map (⟨·, .notAllowed⟩) ++
    snapshot.forbidden rules
  filesChecked := snapshot.files.length
  patternsApplied := rules.length

/-- A check has a report exactly if all patterns are globs. -/
theorem checkAllowing_eq_ok_iff {report : Report} :
    snapshot.checkAllowing rules alsoAllowed = .ok report ↔
      AllGlobs rules ∧ report = snapshot.reportOn rules alsoAllowed := by
  constructor
  · intro h
    have hglobs := allGlobs_of_checkAllowing h
    rw [checkAllowing_of_allGlobs hglobs] at h
    cases h
    exact ⟨hglobs, rfl⟩
  · intro h
    obtain ⟨hglobs, rfl⟩ := h
    exact checkAllowing_of_allGlobs hglobs alsoAllowed

/-- A check fails if some pattern is no glob. -/
theorem exists_checkAllowing_eq_error (h : ¬ AllGlobs rules) :
    ∃ error, snapshot.checkAllowing rules alsoAllowed = .error error := by
  cases hcheck : snapshot.checkAllowing rules alsoAllowed with
  | error error => exact ⟨error, rfl⟩
  | ok report => exact absurd (checkAllowing_eq_ok_iff.mp hcheck).1 h

/-- The reason of a prohibition is a rule that forbids. -/
theorem isForbidden_of_mem_forbidden {violation : Violation}
    (h : violation ∈ snapshot.forbidden rules) : violation.isForbidden = true := by
  obtain ⟨rule, -, hreason⟩ := mem_forbidden.mp h
  rw [Violation.isForbidden, hreason]

/-- The prohibitions are the part of a report that names rules. -/
theorem filter_isForbidden_reportOn :
    (snapshot.reportOn rules alsoAllowed).violations.filter Violation.isForbidden =
      snapshot.forbidden rules := by
  rw [reportOn, List.filter_append, List.filter_map]
  have hunallowed : ((snapshot.unallowed rules alsoAllowed).filter
      (Violation.isForbidden ∘ (⟨·, .notAllowed⟩))) = [] := by
    rw [List.filter_eq_nil_iff]
    intro file _
    simp [Violation.isForbidden]
  rw [hunallowed, List.filter_eq_self.mpr fun violation => isForbidden_of_mem_forbidden]
  rfl

@[simp] theorem forbidden_reportOn : (snapshot.reportOn rules alsoAllowed).forbidden =
    (snapshot.forbidden rules).map Violation.path :=
  congrArg (List.map Violation.path) filter_isForbidden_reportOn

@[simp] theorem notAllowed_reportOn : (snapshot.reportOn rules alsoAllowed).notAllowed =
    snapshot.unallowed rules alsoAllowed := by
  have hforbidden : (snapshot.forbidden rules).filter (fun violation => !violation.isForbidden) =
      [] := by
    rw [List.filter_eq_nil_iff]
    intro violation hmem
    simp [isForbidden_of_mem_forbidden hmem]
  rw [Report.notAllowed, reportOn, List.filter_append, hforbidden, List.append_nil,
    List.filter_map, List.map_map, List.filter_eq_self.mpr]
  · exact List.map_id _
  · intro file _
    rfl

end Snapshot

end TreeLayout
