import TreeLayout.Proofs.Report.Attribution

/-!
# What a report says

A check fails with the first pattern that is no glob. Otherwise its report holds the files that no
rule speaks about and that are not allowed on other grounds, in the order of the tree, and then the
forbidden paths, each once and for the first rule that forbids it.
-/

namespace TreeLayout

namespace Snapshot

open Text

variable {snapshot : Snapshot} {rules : List Rule}

/-- Whether the patterns of all rules are globs. -/
def AllGlobs (rules : List Rule) : Prop :=
  ∀ rule ∈ rules, ∃ query, EntryQuery.ofPattern rule.pattern = .ok query

/-- A pattern that is a glob matches the paths that it is asked for. -/
theorem pathsMatching_eq_matchedBy {rule : Rule} {query : EntryQuery}
    (h : EntryQuery.ofPattern rule.pattern = .ok query) :
    snapshot.pathsMatching rule.pattern = .ok (snapshot.matchedBy rule) := by
  have hpaths := pathsMatching_of_ofPattern h snapshot
  rw [matchedBy, hpaths]

/-- A pattern that is no glob fails on every tree. -/
theorem pathsMatching_of_ofPattern_error {pattern : String} {error : Glob.Error}
    (h : EntryQuery.ofPattern pattern = .error error) :
    snapshot.pathsMatching pattern = .error error := by
  rw [pathsMatching, h]
  rfl

/-- The paths that the pattern of a rule matches are those of the entries that it selects, as its
question reports them. -/
theorem mem_matchedBy {rule : Rule} {path : String} : path ∈ snapshot.matchedBy rule ↔
    ∃ query, EntryQuery.ofPattern rule.pattern = .ok query ∧
      ∃ entry ∈ snapshot.entries, query.selects entry = true ∧ query.report entry = path := by
  cases hquery : EntryQuery.ofPattern rule.pattern with
  | error error => simp [matchedBy, pathsMatching_of_ofPattern_error hquery]
  | ok query => simp [matchedBy, pathsMatching_of_ofPattern hquery, and_assoc]

/-- Where all patterns are globs, every rule is found with its paths. -/
theorem findings_of_allGlobs (h : AllGlobs rules) :
    snapshot.findings rules = .ok (rules.map fun rule => (rule, snapshot.matchedBy rule)) := by
  refine mapM_eq_ok fun rule hrule => ?_
  obtain ⟨query, hquery⟩ := h rule hrule
  rw [pathsMatching_eq_matchedBy hquery]

/-- The first pattern that is no glob is the failure. -/
theorem findings_eq_error_iff {error : Rules.Error} :
    snapshot.findings rules = .error error ↔ ∃ front rule back fault,
      rules = front ++ rule :: back ∧ AllGlobs front ∧
      EntryQuery.ofPattern rule.pattern = .error fault ∧ error = .query rule.location fault := by
  rw [findings, mapM_eq_error_iff]
  constructor
  · intro hexists
    obtain ⟨front, rule, back, rfl, hfront, hrule⟩ := hexists
    refine ⟨front, rule, back, ?_⟩
    have hglobs : AllGlobs front := by
      intro other hother
      obtain ⟨finding, hfinding⟩ := hfront other hother
      cases hquery : EntryQuery.ofPattern other.pattern with
      | ok query => exact ⟨query, rfl⟩
      | error fault => simp [pathsMatching_of_ofPattern_error hquery] at hfinding
    cases hquery : EntryQuery.ofPattern rule.pattern with
    | ok query => simp [pathsMatching_eq_matchedBy hquery] at hrule
    | error fault =>
      simp only [pathsMatching_of_ofPattern_error hquery, Except.error.injEq] at hrule
      exact ⟨fault, rfl, hglobs, rfl, hrule.symm⟩
  · intro hexists
    obtain ⟨front, rule, back, fault, rfl, hfront, hrule, rfl⟩ := hexists
    refine ⟨front, rule, back, rfl, fun other hother => ?_, ?_⟩
    · obtain ⟨query, hquery⟩ := hfront other hother
      exact ⟨_, by rw [pathsMatching_eq_matchedBy hquery]⟩
    · rw [pathsMatching_of_ofPattern_error hrule]

/-- The files that no rule speaks about and that are not allowed on other grounds. -/
def unallowed (snapshot : Snapshot) (rules : List Rule) (alsoAllowed : String → Bool) :
    List String :=
  snapshot.files.filter fun file =>
    (rules.all fun rule => file ∉ snapshot.matchedBy rule) && !alsoAllowed file

/-- The forbidden paths, each for the first rule that forbids it. -/
def forbidden (snapshot : Snapshot) (rules : List Rule) : List Violation :=
  Findings.forbiddenBeyond [] (snapshot.prohibitions rules)

/-- A violation is one of the prohibitions exactly if its reason is the first rule that forbids its
path. -/
theorem mem_forbidden {violation : Violation} :
    violation ∈ snapshot.forbidden rules ↔ ∃ rule,
      rules.find? (snapshot.forbids violation.path) = some rule ∧
        violation.reason = .forbidden rule.pattern rule.location := by
  rw [forbidden, Findings.mem_forbiddenBeyond, find?_prohibitions]
  constructor
  · intro hexists
    obtain ⟨-, pair, hpair, hreason⟩ := hexists
    obtain ⟨rule, hrule, rfl⟩ := Option.map_eq_some_iff.mp hpair
    exact ⟨rule, hrule, hreason⟩
  · intro hexists
    obtain ⟨rule, hrule, hreason⟩ := hexists
    exact ⟨List.not_mem_nil, (rule, violation.path), by rw [hrule, Option.map_some], hreason⟩

/-- A path is forbidden exactly if some rule forbids it. -/
theorem mem_map_path_forbidden {path : String} :
    path ∈ (snapshot.forbidden rules).map Violation.path ↔
      ∃ rule ∈ rules, rule.negated = true ∧ path ∈ snapshot.matchedBy rule := by
  constructor
  · intro hpath
    obtain ⟨violation, hmem, rfl⟩ := List.mem_map.mp hpath
    obtain ⟨rule, hrule, -⟩ := mem_forbidden.mp hmem
    have hforbids := List.find?_some hrule
    obtain ⟨hnegated, hmatched⟩ := Bool.and_eq_true_iff.mp hforbids
    exact ⟨rule, List.mem_of_find?_eq_some hrule, hnegated, of_decide_eq_true hmatched⟩
  · intro hexists
    obtain ⟨rule, hrule, hnegated, hmatched⟩ := hexists
    have hforbids : snapshot.forbids path rule = true := by
      rw [forbids, hnegated, decide_eq_true hmatched, Bool.and_self]
    obtain ⟨first, hfirst⟩ := Option.isSome_iff_exists.mp
      (List.find?_isSome.mpr ⟨rule, hrule, hforbids⟩)
    exact List.mem_map.mpr
      ⟨⟨path, .forbidden first.pattern first.location⟩, mem_forbidden.mpr ⟨first, hfirst, rfl⟩, rfl⟩

/-- A path is allowed exactly if some rule allows it. -/
theorem mem_allowed {path : String} :
    path ∈ Findings.allowed (rules.map fun rule => (rule, snapshot.matchedBy rule)) ↔
      ∃ rule ∈ rules, rule.negated = false ∧ path ∈ snapshot.matchedBy rule := by
  simp only [Findings.allowed, List.flatMap_map, List.mem_flatMap]
  refine exists_congr fun rule => and_congr_right fun _ => ?_
  cases rule.negated <;> simp

/-- Where all patterns are globs, the rules leave the unallowed files and the prohibitions. -/
theorem judge_of_allGlobs (h : AllGlobs rules) :
    snapshot.judge rules = .ok {
      unallowed := snapshot.unallowed rules fun _ => false
      forbidden := snapshot.forbidden rules
      filesChecked := snapshot.files.length
      patternsApplied := rules.length } := by
  have hforbidden : Findings.forbidden (rules.map fun rule => (rule, snapshot.matchedBy rule)) =
      snapshot.forbidden rules := by
    rw [Findings.forbidden, List.flatMap_map]
    rfl
  have hsettled (file : String) :
      decide (file ∉ Findings.allowed (rules.map fun rule => (rule, snapshot.matchedBy rule)) ++
        (snapshot.forbidden rules).map Violation.path) =
      ((rules.all fun rule => file ∉ snapshot.matchedBy rule) && !false) := by
    rw [Bool.eq_iff_iff, decide_eq_true_eq, List.mem_append, mem_allowed, mem_map_path_forbidden,
      Bool.not_false, Bool.and_true, List.all_eq_true]
    constructor
    · intro hnone rule hrule
      rw [decide_eq_true_eq]
      intro hmatched
      apply hnone
      cases hnegated : rule.negated with
      | false => exact .inl ⟨rule, hrule, hnegated, hmatched⟩
      | true => exact .inr ⟨rule, hrule, hnegated, hmatched⟩
    · rintro hall (⟨rule, hrule, -, hmatched⟩ | ⟨rule, hrule, -, hmatched⟩)
      · exact of_decide_eq_true (hall rule hrule) hmatched
      · exact of_decide_eq_true (hall rule hrule) hmatched
  rw [judge, findings_of_allGlobs h]
  simp only [bind, Except.bind, pure, Except.pure, hforbidden, unallowed, hsettled]

/-- Where all patterns are globs, a check reports the unallowed files and the prohibitions. -/
theorem checkAllowing_of_allGlobs (h : AllGlobs rules) (alsoAllowed : String → Bool) :
    snapshot.checkAllowing rules alsoAllowed = .ok {
      violations := (snapshot.unallowed rules alsoAllowed).map (⟨·, .notAllowed⟩) ++
        snapshot.forbidden rules
      filesChecked := snapshot.files.length
      patternsApplied := rules.length } := by
  rw [checkAllowing, judge_of_allGlobs h]
  simp only [bind, Except.bind, pure, Except.pure, Judgement.report, unallowed, List.filter_filter,
    Bool.not_false, Bool.true_and, Bool.and_comm]

/-- A check fails where the search for paths does. -/
theorem checkAllowing_eq_error_iff {alsoAllowed : String → Bool} {error : Rules.Error} :
    snapshot.checkAllowing rules alsoAllowed = .error error ↔
      snapshot.findings rules = .error error := by
  rw [checkAllowing, judge]
  cases snapshot.findings rules <;> simp [bind, Except.bind, pure, Except.pure]

/-- A check that does not fail has found only globs. -/
theorem allGlobs_of_checkAllowing {alsoAllowed : String → Bool} {report : Report}
    (h : snapshot.checkAllowing rules alsoAllowed = .ok report) : AllGlobs rules := by
  cases hfindings : snapshot.findings rules with
  | error error =>
    rw [checkAllowing_eq_error_iff.mpr hfindings] at h
    cases h
  | ok findings =>
    intro rule hrule
    obtain ⟨finding, hfinding⟩ := exists_of_mapM_eq_ok hfindings rule hrule
    cases hquery : EntryQuery.ofPattern rule.pattern with
    | ok query => exact ⟨query, rfl⟩
    | error fault => simp [pathsMatching_of_ofPattern_error hquery] at hfinding

/-- Prohibitions are ordered by the first rules that forbid their paths and, for one rule, by the
positions of their paths in the tree. -/
theorem pairwise_forbidden : (snapshot.forbidden rules).Pairwise fun a b =>
    rules.findIdx (snapshot.forbids a.path) < rules.findIdx (snapshot.forbids b.path) ∨
      rules.findIdx (snapshot.forbids a.path) = rules.findIdx (snapshot.forbids b.path) ∧
        ∀ rule, rules.find? (snapshot.forbids a.path) = some rule →
          snapshot.position rule a.path < snapshot.position rule b.path :=
  Findings.pairwise_forbiddenBeyond.imp lt_of_idxOf_prohibitions

/-- No path is forbidden twice. -/
theorem nodup_map_path_forbidden : ((snapshot.forbidden rules).map Violation.path).Nodup := by
  rw [List.Nodup, List.pairwise_map]
  refine Findings.pairwise_forbiddenBeyond.imp fun {a b} hlt heq => ?_
  rw [heq] at hlt
  exact Nat.lt_irrefl _ hlt

/-- A file that lacks permission is matched by no rule. -/
theorem mem_unallowed {alsoAllowed : String → Bool} {file : String} :
    file ∈ snapshot.unallowed rules alsoAllowed ↔ file ∈ snapshot.files ∧
      (∀ rule ∈ rules, file ∉ snapshot.matchedBy rule) ∧ alsoAllowed file = false := by
  simp [unallowed]

/-- A pattern that ends in a slash matches no file of written paths, except where it is `./`. -/
theorem notMem_matchedBy_of_endsInSlash {paths : List String} {rule : Rule}
    (hslash : endsInSlash rule.pattern.toList = true) (hdot : rule.pattern ≠ "./") {file : String}
    (hfile : file ∈ (ofPaths paths).files) : file ∉ (ofPaths paths).matchedBy rule := by
  intro hmatched
  obtain ⟨query, hquery, entry, -, -, hreport⟩ := mem_matchedBy.mp hmatched
  obtain ⟨tokens, -, rfl⟩ := EntryQuery.exists_parse_of_ofPattern hquery
  have hdirectories : endsInSlash (dropDotSlash rule.pattern.toList) = true := by
    refine endsInSlash_dropDotSlash hslash fun h => hdot ?_
    rw [← String.toList_inj, h]
    rfl
  have hends := endsInSlash_of_mem_files hfile
  rw [← hreport, EntryQuery.report, if_pos hdirectories, endsInSlash_append_slash] at hends
  cases hends

end Snapshot

/-- What a report says about a tree: the files that lack permission, in the order of the tree, and then
the prohibitions, in the order of the rules that they come from; no path stands there twice. -/
structure Report.Accounts (report : Report) (snapshot : Snapshot) (rules : List Rule)
    (alsoAllowed : String → Bool) (unallowed : List String) (forbidden : List Violation) : Prop where
  violations : report.violations = unallowed.map (⟨·, .notAllowed⟩) ++ forbidden
  once : (report.violations.map Violation.path).Nodup
  unallowed_iff : ∀ file ∈ snapshot.files, (file ∈ unallowed ↔
    (∀ rule ∈ rules, file ∉ snapshot.matchedBy rule) ∧ alsoAllowed file = false)
  unallowed_order : unallowed.Sublist snapshot.files
  forbidden_iff : ∀ path, path ∈ forbidden.map Violation.path ↔
    ∃ rule ∈ rules, rule.negated = true ∧ path ∈ snapshot.matchedBy rule
  forbidden_reason : ∀ violation ∈ forbidden, ∃ rule,
    rules.find? (snapshot.forbids violation.path) = some rule ∧
      violation.reason = .forbidden rule.pattern rule.location
  forbidden_order : forbidden.Pairwise fun a b =>
    rules.findIdx (snapshot.forbids a.path) < rules.findIdx (snapshot.forbids b.path) ∨
      rules.findIdx (snapshot.forbids a.path) = rules.findIdx (snapshot.forbids b.path) ∧
        ∀ rule, rules.find? (snapshot.forbids a.path) = some rule →
          snapshot.position rule a.path < snapshot.position rule b.path

/-- A check of written paths fails exactly if some pattern is no glob, with the first such pattern, and
otherwise accounts for every file and every prohibition. A pattern that ends in a slash concerns no
file. -/
theorem checkAllowing_ofPaths (paths : List String) (rules : List Rule)
    (alsoAllowed : String → Bool) :
    ((∃ error, (Snapshot.ofPaths paths).checkAllowing rules alsoAllowed = .error error) ↔
      ∃ rule ∈ rules, ∀ query, EntryQuery.ofPattern rule.pattern ≠ .ok query) ∧
    (∀ error, (Snapshot.ofPaths paths).checkAllowing rules alsoAllowed = .error error ↔
      ∃ front rule back fault, rules = front ++ rule :: back ∧ Snapshot.AllGlobs front ∧
        EntryQuery.ofPattern rule.pattern = .error fault ∧
        error = .query rule.location fault) ∧
    (∀ report, (Snapshot.ofPaths paths).checkAllowing rules alsoAllowed = .ok report →
      ∃ unallowed forbidden,
        report.Accounts (Snapshot.ofPaths paths) rules alsoAllowed unallowed forbidden) ∧
    ∀ rule ∈ rules, Text.endsInSlash rule.pattern.toList = true → rule.pattern ≠ "./" →
      ∀ file ∈ (Snapshot.ofPaths paths).files, file ∉ (Snapshot.ofPaths paths).matchedBy rule := by
  have herror (error : Rules.Error) :
      (Snapshot.ofPaths paths).checkAllowing rules alsoAllowed = .error error ↔ _ :=
    Snapshot.checkAllowing_eq_error_iff.trans Snapshot.findings_eq_error_iff
  refine ⟨⟨?_, ?_⟩, herror, fun report hreport => ?_,
    fun rule _ hslash hdot file hfile => Snapshot.notMem_matchedBy_of_endsInSlash hslash hdot hfile⟩
  · intro hexists
    obtain ⟨error, hfailure⟩ := hexists
    obtain ⟨front, rule, back, fault, rfl, -, hrule, -⟩ := (herror error).mp hfailure
    exact ⟨rule, by simp, fun query hquery => by simp [hrule] at hquery⟩
  · intro hexists
    obtain ⟨rule, hrule, hnone⟩ := hexists
    cases hcheck : (Snapshot.ofPaths paths).checkAllowing rules alsoAllowed with
    | error error => exact ⟨error, rfl⟩
    | ok report =>
      obtain ⟨query, hquery⟩ := Snapshot.allGlobs_of_checkAllowing hcheck rule hrule
      exact absurd hquery (hnone query)
  · have hglobs := Snapshot.allGlobs_of_checkAllowing hreport
    rw [Snapshot.checkAllowing_of_allGlobs hglobs] at hreport
    cases hreport
    refine ⟨(Snapshot.ofPaths paths).unallowed rules alsoAllowed,
      (Snapshot.ofPaths paths).forbidden rules, rfl, ?_, fun file hfile => ?_,
      List.filter_sublist, fun _ => Snapshot.mem_map_path_forbidden,
      fun violation hmem => Snapshot.mem_forbidden.mp hmem, Snapshot.pairwise_forbidden⟩
    · rw [List.map_append, List.map_map, List.nodup_append']
      refine ⟨?_, Snapshot.nodup_map_path_forbidden, fun path hunallowed hforbidden => ?_⟩
      · have hfiles := (Snapshot.nodup_files (paths.flatMap Snapshot.entriesOfPath)).filter
          fun file => (rules.all fun rule => file ∉ (Snapshot.ofPaths paths).matchedBy rule) &&
            !alsoAllowed file
        simpa [Function.comp_def, Snapshot.unallowed, Snapshot.ofPaths] using hfiles
      · have hpath : path ∈ (Snapshot.ofPaths paths).unallowed rules alsoAllowed := by
          simpa using hunallowed
        obtain ⟨rule, hrule, -, hmatched⟩ := Snapshot.mem_map_path_forbidden.mp hforbidden
        exact (Snapshot.mem_unallowed.mp hpath).2.1 rule hrule hmatched
    · rw [Snapshot.mem_unallowed]
      exact and_iff_right hfile

end TreeLayout
