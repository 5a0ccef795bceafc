import TreeLayout.Proofs.Report.Violations

/-!
# When a check passes

A check passes if every file is matched by a rule that allows it or is allowed on other grounds, and
no entry is matched by a rule that forbids it. An ignore list is such a ground, as far as it has an
answer for every file.
-/

namespace TreeLayout

/-- Whether the pattern of a rule matches an entry. -/
def Rule.Selects (rule : Rule) (entry : Entry) : Prop :=
  ∃ query, EntryQuery.ofPattern rule.pattern = .ok query ∧ query.selects entry = true

/-- Whether a path is relative: no slash starts it, nor what follows a first `./`. -/
def IsRelative (path : String) : Prop := (Text.dropDotSlash path.toList).head? ≠ some '/'

instance (path : String) : Decidable (IsRelative path) :=
  inferInstanceAs (Decidable ((Text.dropDotSlash path.toList).head? ≠ some '/'))

/-- A path without empty segments is relative. -/
theorem isRelative_of_notMem_segments {path : String} (h : [] ∉ Text.segments path.toList) :
    IsRelative path := by
  apply Text.head?_of_notMem_segments
  intro hmem
  exact h (Text.segments_dropDotSlash_subset path.toList hmem)

/-- An ignore list has an answer for every relative path. -/
theorem IgnoreList.exists_isIgnored_of_isRelative (ignored : IgnoreList) {path : String}
    (h : IsRelative path) : ∃ answer, ignored.isIgnored path = .ok answer := by
  rw [isIgnored]
  dsimp only
  rw [if_neg h]
  split
  · exact ⟨_, rfl⟩
  · exact ⟨_, rfl⟩

/-- An ignore list has an answer for a path without empty segments, since no such path is absolute. -/
theorem IgnoreList.exists_isIgnored (ignored : IgnoreList) {path : String}
    (h : [] ∉ Text.segments path.toList) : ∃ answer, ignored.isIgnored path = .ok answer :=
  ignored.exists_isIgnored_of_isRelative (isRelative_of_notMem_segments h)

namespace Snapshot

open Text

variable {snapshot : Snapshot} {rules : List Rule}

/-- A rule matches some path exactly if it selects some entry. -/
theorem exists_mem_matchedBy {rule : Rule} :
    (∃ path, path ∈ snapshot.matchedBy rule) ↔ ∃ entry ∈ snapshot.entries, rule.Selects entry := by
  constructor
  · intro h
    obtain ⟨path, hpath⟩ := h
    obtain ⟨query, hquery, entry, hentry, hselects, -⟩ := mem_matchedBy.mp hpath
    exact ⟨entry, hentry, query, hquery, hselects⟩
  · intro h
    obtain ⟨entry, hentry, query, hquery, hselects⟩ := h
    exact ⟨query.report entry, mem_matchedBy.mpr ⟨query, hquery, entry, hentry, hselects, rfl⟩⟩

/-- A file whose path ends in no slash is matched exactly if it is selected: a question about
directories reports no such path, and any other question looks at the path alone. -/
theorem mem_matchedBy_of_file {rule : Rule} {file : String}
    (hfile : ⟨file, .file⟩ ∈ snapshot.entries) (hslash : endsInSlash file.toList = false) :
    file ∈ snapshot.matchedBy rule ↔ rule.Selects ⟨file, .file⟩ := by
  rw [mem_matchedBy]
  apply exists_congr
  intro query
  apply and_congr_right
  intro _
  cases hdirectories : query.directoriesOnly with
  | true =>
    constructor
    · intro h
      obtain ⟨entry, _, _, hreport⟩ := h
      rw [EntryQuery.report, if_pos hdirectories] at hreport
      rw [← hreport, endsInSlash_append_slash] at hslash
      cases hslash
    · intro hselects
      simp [EntryQuery.selects, hdirectories, Entry.isDirectory] at hselects
  | false =>
    have hreport (entry : Entry) : query.report entry = entry.path := by
      simp [EntryQuery.report, hdirectories]
    constructor
    · intro h
      obtain ⟨entry, _, hselects, hpath⟩ := h
      rw [hreport] at hpath
      subst hpath
      simpa [EntryQuery.selects, hdirectories] using hselects
    · intro hselects
      exact ⟨⟨file, .file⟩, hfile, hselects, hreport _⟩

/-- Nothing is forbidden exactly if no rule that forbids selects an entry. -/
theorem forbidden_eq_nil_iff : snapshot.forbidden rules = [] ↔
    ∀ rule ∈ rules, rule.negated = true → ∀ entry ∈ snapshot.entries, ¬ rule.Selects entry := by
  rw [← List.map_eq_nil_iff (f := Violation.path), List.eq_nil_iff_forall_not_mem]
  constructor
  · intro hnone rule hrule hnegated entry hentry hselects
    obtain ⟨path, hpath⟩ := exists_mem_matchedBy.mpr ⟨entry, hentry, hselects⟩
    exact hnone path (mem_map_path_forbidden.mpr ⟨rule, hrule, hnegated, hpath⟩)
  · intro hnone path hpath
    obtain ⟨rule, hrule, hnegated, hmatched⟩ := mem_map_path_forbidden.mp hpath
    obtain ⟨entry, hentry, hselects⟩ := exists_mem_matchedBy.mp ⟨path, hmatched⟩
    exact hnone rule hrule hnegated entry hentry hselects

/-- No file lacks permission exactly if each is selected by a rule or allowed on other grounds. -/
theorem unallowed_eq_nil_iff {alsoAllowed : String → Bool}
    (hslash : ∀ file ∈ snapshot.files, endsInSlash file.toList = false) :
    snapshot.unallowed rules alsoAllowed = [] ↔ ∀ file ∈ snapshot.files,
      (∃ rule ∈ rules, rule.Selects ⟨file, .file⟩) ∨ alsoAllowed file = true := by
  rw [List.eq_nil_iff_forall_not_mem]
  constructor
  · intro hnone file hfile
    by_cases halso : alsoAllowed file = true
    · exact .inr halso
    · have hmatched : ¬ ∀ rule ∈ rules, file ∉ snapshot.matchedBy rule := by
        intro hrules
        exact hnone file (mem_unallowed.mpr ⟨hfile, hrules, by simpa using halso⟩)
      push Not at hmatched
      obtain ⟨rule, hrule, hmem⟩ := hmatched
      have hselects := (mem_matchedBy_of_file (mem_files.mp hfile) (hslash file hfile)).mp hmem
      exact .inl ⟨rule, hrule, hselects⟩
  · intro hall file hmem
    obtain ⟨hfile, hrules, halso⟩ := mem_unallowed.mp hmem
    rcases hall file hfile with ⟨rule, hrule, hselects⟩ | hallowed
    · apply hrules rule hrule
      exact (mem_matchedBy_of_file (mem_files.mp hfile) (hslash file hfile)).mpr hselects
    · rw [halso] at hallowed
      cases hallowed

/-- A check with an ignore list that has an answer for every file is a check in which the files that
it ignores are also allowed. -/
theorem checkIgnoring_eq_checkAllowing {ignored : IgnoreList} {isIgnored : String → Bool}
    (h : ∀ file ∈ snapshot.files, ignored.isIgnored file = .ok (isIgnored file)) :
    snapshot.checkIgnoring rules ignored =
      (snapshot.checkAllowing rules isIgnored).mapError .rules := by
  rw [checkIgnoring, checkAllowing]
  cases hjudge : snapshot.judge rules with
  | error error => rfl
  | ok judgement =>
    have hfiles : ∀ file ∈ judgement.unallowed, file ∈ snapshot.files := by
      rw [judge] at hjudge
      obtain ⟨findings, -, hjudgement⟩ := bind_eq_ok_iff.mp hjudge
      cases hjudgement
      intro file hfile
      exact List.mem_of_mem_filter hfile
    have hanswers : ∀ file ∈ judgement.unallowed,
        (do return !(← ignored.isIgnored file) : Except RootedPath Bool).mapError
          CheckError.rooted = .ok !isIgnored file := by
      intro file hfile
      rw [h file (hfiles file hfile)]
      rfl
    change (judgement.unallowed.filterM _ >>= _ : Except CheckError Report) = _
    rw [filterM_eq_ok hanswers]
    rfl

end Snapshot

end TreeLayout
