import TreeLayout.Proofs.Report.Parts

/-!
# Checks with and without an ignore list

An ignore list is asked only about files that no rule speaks of, and only takes such files out of a report.
So with a list a check fails as it does without one, and otherwise its violations are the same but for
the files that are on the list (`Snapshot.checkIgnoring_of_isRelative`).
-/

namespace TreeLayout

namespace IgnoreList

/-- Whether a path is ignored; one that has no answer is not. -/
def ignores (ignored : IgnoreList) (path : String) : Bool := ignored.isIgnored path = .ok true

theorem isIgnored_of_isRelative (ignored : IgnoreList) {path : String} (h : IsRelative path) :
    ignored.isIgnored path = .ok (ignored.ignores path) := by
  obtain ⟨answer, hanswer⟩ := ignored.exists_isIgnored_of_isRelative h
  cases answer <;> simp [ignores, hanswer]

end IgnoreList

namespace Snapshot

variable {snapshot : Snapshot} {rules : List Rule} {alsoAllowed : String → Bool}

/-- The files without permission are those of the rules alone that are not allowed on other grounds. -/
theorem unallowed_eq_filter : snapshot.unallowed rules alsoAllowed =
    (snapshot.unallowed rules fun _ => false).filter fun file => !alsoAllowed file := by
  rw [unallowed, unallowed, List.filter_filter]
  refine List.filter_congr fun file _ => ?_
  rw [Bool.not_false, Bool.and_true, Bool.and_comm]

/-- The violations are those of the rules alone, without the files that are allowed on other grounds. -/
theorem violations_reportOn : (snapshot.reportOn rules alsoAllowed).violations =
    (snapshot.reportOn rules fun _ => false).violations.filter fun violation =>
      violation.isForbidden || !alsoAllowed violation.path := by
  have hforbidden : (snapshot.forbidden rules).filter
      (fun violation => violation.isForbidden || !alsoAllowed violation.path) =
        snapshot.forbidden rules := by
    rw [List.filter_eq_self]
    intro violation hmem
    rw [isForbidden_of_mem_forbidden hmem, Bool.true_or]
  rw [reportOn, reportOn, List.filter_append, hforbidden, List.filter_map, unallowed_eq_filter]
  rfl

/-- A check with an ignore list fails exactly as it does without one. Otherwise it has the same
prohibitions, and of the files that lack permission it reports those that are not ignored; nothing is
added, and no verdict changes but that on a file that is ignored. -/
theorem checkIgnoring_of_isRelative (hpaths : ∀ file ∈ snapshot.files, IsRelative file)
    (rules : List Rule) (ignored : IgnoreList) :
    (∀ error, snapshot.checkIgnoring rules ignored = .error error ↔
      ∃ cause, snapshot.check rules = .error cause ∧ error = .rules cause) ∧
    ∀ report, snapshot.check rules = .ok report → ∃ ingested,
      snapshot.checkIgnoring rules ignored = .ok ingested ∧
      ingested.violations.filter Violation.isForbidden =
        report.violations.filter Violation.isForbidden ∧
      ingested.notAllowed =
        report.notAllowed.filter (fun file => ignored.isIgnored file = .ok false) ∧
      ingested.violations.Sublist report.violations ∧
      (∀ violation, ignored.isIgnored violation.path ≠ .ok true →
        (violation ∈ ingested.violations ↔ violation ∈ report.violations)) ∧
      ingested.filesChecked = report.filesChecked ∧
      ingested.patternsApplied = report.patternsApplied := by
  have hignoring : snapshot.checkIgnoring rules ignored =
      (snapshot.checkAllowing rules ignored.ignores).mapError .rules :=
    checkIgnoring_eq_checkAllowing fun file hfile =>
      ignored.isIgnored_of_isRelative (hpaths file hfile)
  rw [hignoring]
  constructor
  · intro error
    cases hcheck : snapshot.check rules with
    | error cause =>
      have hcause : snapshot.checkAllowing rules ignored.ignores = .error cause :=
        checkAllowing_eq_error_iff.mpr (checkAllowing_eq_error_iff.mp hcheck)
      rw [hcause]
      simp [Except.mapError, eq_comm]
    | ok report =>
      obtain ⟨hglobs, -⟩ := checkAllowing_eq_ok_iff.mp hcheck
      rw [checkAllowing_eq_ok_iff.mpr ⟨hglobs, rfl⟩]
      simp [Except.mapError]
  · intro report hcheck
    obtain ⟨hglobs, rfl⟩ := checkAllowing_eq_ok_iff.mp hcheck
    refine ⟨snapshot.reportOn rules ignored.ignores, ?_, ?_, ?_, ?_, ?_, rfl, rfl⟩
    · rw [checkAllowing_eq_ok_iff.mpr ⟨hglobs, rfl⟩]
      rfl
    · rw [filter_isForbidden_reportOn, filter_isForbidden_reportOn]
    · rw [notAllowed_reportOn, notAllowed_reportOn, unallowed_eq_filter]
      apply List.filter_congr
      intro file hfile
      rw [ignored.isIgnored_of_isRelative (hpaths file (mem_unallowed.mp hfile).1)]
      simp
    · rw [violations_reportOn]
      exact List.filter_sublist
    · intro violation hignored
      rw [violations_reportOn, List.mem_filter]
      simp [IgnoreList.ignores, hignored]

/-- A file on the list goes, one that is included again and one that is forbidden stay. -/
theorem checkIgnoring_of_isRelative_reincluded :
    let snapshot : Snapshot := ⟨[⟨"a.log", .file⟩, ⟨"keep.log", .file⟩, ⟨"old.log", .file⟩]⟩
    let rules : List Rule := [⟨⟨"old*", true⟩, ⟨"rules", 1⟩⟩]
    (∀ file ∈ snapshot.files, IsRelative file) ∧
      ∃ ignored report ingested, IgnoreList.ofLines ["*.log", "!keep.log"] = .ok ignored ∧
        snapshot.check rules = .ok report ∧ snapshot.checkIgnoring rules ignored = .ok ingested ∧
        report.notAllowed = ["a.log", "keep.log"] ∧ ingested.notAllowed = ["keep.log"] ∧
        ingested.violations.filter Violation.isForbidden =
          [⟨"old.log", .forbidden "old*" ⟨"rules", 1⟩⟩] := by
  intro snapshot rules
  let ignored : IgnoreList :=
    ⟨[⟨⟨"**/*.log", .leadingStars :: .anyRun :: ".log".toList.map .literal⟩, false, false⟩,
      ⟨⟨"**/keep.log", .leadingStars :: "keep.log".toList.map .literal⟩, true, false⟩]⟩
  have hignored : IgnoreList.ofLines ["*.log", "!keep.log"] = .ok ignored := by decide +kernel
  have hpaths : ∀ file ∈ snapshot.files, IsRelative file := by decide +kernel
  have hcheck : snapshot.check rules = .ok ⟨[⟨"a.log", .notAllowed⟩, ⟨"keep.log", .notAllowed⟩,
      ⟨"old.log", .forbidden "old*" ⟨"rules", 1⟩⟩], 3, 1⟩ := by decide +kernel
  obtain ⟨ingested, hingested, hforbidden, hnotAllowed, -⟩ :=
    (checkIgnoring_of_isRelative hpaths rules ignored).2 _ hcheck
  refine ⟨hpaths, ignored, _, ingested, hignored, hcheck, hingested, by decide, ?_, hforbidden⟩
  rw [hnotAllowed]
  decide +kernel

end Snapshot

end TreeLayout
