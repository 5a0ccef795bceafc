import TreeLayout.Proofs.Report.Passing

/-!
# The entries that a report names

A query names an entry by its path, and a directory that it asks for as one by its path with a slash. A
report holds no text twice, but it can name a directory both ways: exactly if the directory is forbidden
by a pattern with a slash at its end and is reported without a slash as well (`nodup_map_bare_iff`).
-/

namespace TreeLayout

open Text

/-- Whether a text names an entry: it is the path of the entry, or that of a directory with a slash. -/
def Entry.IsNamed (entry : Entry) (name : String) : Prop :=
  name = entry.path ∨ entry.isDirectory = true ∧ name = entry.path ++ "/"

/-- Without a slash at its end, every name of an entry is the path of the entry. -/
theorem Entry.dropLastOf_of_isNamed {entry : Entry}
    (hslash : endsInSlash entry.path.toList = false) {name : String} (h : entry.IsNamed name) :
    dropLastOf '/' name.toList = entry.path.toList := by
  rcases h with rfl | ⟨-, rfl⟩
  · exact if_neg (by simpa [endsInSlash] using hslash)
  · rw [String.toList_append, show "/".toList = ['/'] from rfl, dropLastOf,
      if_pos List.getLast?_concat, List.dropLast_concat]

theorem Entry.path_ne_append_slash {entry : Entry}
    (hslash : endsInSlash entry.path.toList = false) (path : String) : entry.path ≠ path ++ "/" := by
  intro heq
  rw [heq, endsInSlash_append_slash] at hslash
  cases hslash

/-- A selected entry is reported by one of its names. -/
theorem EntryQuery.isNamed_report {query : EntryQuery} {entry : Entry}
    (h : query.selects entry = true) : entry.IsNamed (query.report entry) := by
  rw [EntryQuery.report]
  split
  · rename_i hdirectories
    have hkind := (Bool.and_eq_true_iff.mp h).1
    rw [hdirectories] at hkind
    exact .inr ⟨by simpa using hkind, rfl⟩
  · exact .inl rfl

namespace Rule

/-- Whether a rule asks for directories, which it then reports with a slash. -/
def asksForDirectories (rule : Rule) : Bool := endsInSlash (dropDotSlash rule.pattern.toList)

theorem directoriesOnly_of_ofPattern {rule : Rule} {query : EntryQuery}
    (h : EntryQuery.ofPattern rule.pattern = .ok query) :
    query.directoriesOnly = rule.asksForDirectories := by
  obtain ⟨tokens, -, rfl⟩ := EntryQuery.exists_parse_of_ofPattern h
  rfl

/-- A rule that asks for directories selects nothing else. -/
theorem Selects.isDirectory {rule : Rule} {entry : Entry} (h : rule.Selects entry)
    (hasks : rule.asksForDirectories = true) : entry.isDirectory = true := by
  obtain ⟨query, hquery, hselects⟩ := h
  rw [← directoriesOnly_of_ofPattern hquery] at hasks
  simpa [hasks] using (Bool.and_eq_true_iff.mp hselects).1

/-- What is selected at the path of a directory makes the directory selected. -/
theorem Selects.of_directory {rule : Rule} {path : String} {kind : EntryKind}
    (h : rule.Selects ⟨path, kind⟩) : rule.Selects ⟨path, .directory⟩ := by
  obtain ⟨query, hquery, hselects⟩ := h
  refine ⟨query, hquery, Bool.and_eq_true_iff.mpr ⟨?_, (Bool.and_eq_true_iff.mp hselects).2⟩⟩
  exact Bool.or_eq_true_iff.mpr (.inr rfl)

end Rule

namespace Snapshot

variable {snapshot : Snapshot} {rules : List Rule} {alsoAllowed : String → Bool}

/-- The paths that a pattern matches name entries. -/
theorem exists_isNamed_of_pathsMatching {pattern : String} {paths : List String}
    (h : snapshot.pathsMatching pattern = .ok paths) {path : String} (hpath : path ∈ paths) :
    ∃ entry ∈ snapshot.entries, entry.IsNamed path := by
  obtain ⟨query, -, rfl⟩ := exists_query_of_pathsMatching h
  obtain ⟨entry, hentry, rfl⟩ := List.mem_map.mp hpath
  obtain ⟨hmem, hselects⟩ := List.mem_filter.mp hentry
  exact ⟨entry, hmem, EntryQuery.isNamed_report hselects⟩

/-- The paths that a rule matches are those of the entries that it selects, with a slash if it asks for
directories. -/
theorem mem_matchedBy_iff_selects {rule : Rule} {path : String} :
    path ∈ snapshot.matchedBy rule ↔ ∃ entry ∈ snapshot.entries, rule.Selects entry ∧
      path = if rule.asksForDirectories then entry.path ++ "/" else entry.path := by
  rw [mem_matchedBy]
  constructor
  · intro h
    obtain ⟨query, hquery, entry, hentry, hselects, rfl⟩ := h
    refine ⟨entry, hentry, ⟨query, hquery, hselects⟩, ?_⟩
    rw [EntryQuery.report, Rule.directoriesOnly_of_ofPattern hquery]
  · intro h
    obtain ⟨entry, hentry, ⟨query, hquery, hselects⟩, rfl⟩ := h
    refine ⟨query, hquery, entry, hentry, hselects, ?_⟩
    rw [EntryQuery.report, Rule.directoriesOnly_of_ofPattern hquery]

/-- The paths of a report are those of the files that lack permission and those that a rule forbids. -/
theorem mem_map_path_violations {report : Report} {path : String}
    (h : snapshot.checkAllowing rules alsoAllowed = .ok report) :
    path ∈ report.violations.map Violation.path ↔ path ∈ snapshot.unallowed rules alsoAllowed ∨
      ∃ rule ∈ rules, rule.negated = true ∧ path ∈ snapshot.matchedBy rule := by
  rw [checkAllowing_of_allGlobs (allGlobs_of_checkAllowing h)] at h
  cases h
  rw [List.map_append, List.mem_append, mem_map_path_forbidden]
  simp

/-- The paths of a report name entries. -/
theorem exists_isNamed_of_checkAllowing {report : Report}
    (h : snapshot.checkAllowing rules alsoAllowed = .ok report) {violation : Violation}
    (hmem : violation ∈ report.violations) :
    ∃ entry ∈ snapshot.entries, entry.IsNamed violation.path := by
  have hpath := List.mem_map_of_mem (f := Violation.path) hmem
  rcases (mem_map_path_violations h).mp hpath with hfile | ⟨rule, -, -, hmatched⟩
  · exact ⟨_, mem_files.mp (mem_unallowed.mp hfile).1, .inl rfl⟩
  · obtain ⟨query, hquery, entry, hentry, hselects, hreport⟩ := mem_matchedBy.mp hmatched
    exact ⟨entry, hentry, hreport ▸ EntryQuery.isNamed_report hselects⟩

/-- No path stands twice in a report. -/
theorem nodup_map_path_violations {entries : List Entry} {report : Report}
    (h : (ofEntries entries).checkAllowing rules alsoAllowed = .ok report) :
    (report.violations.map Violation.path).Nodup := by
  rw [checkAllowing_of_allGlobs (allGlobs_of_checkAllowing h)] at h
  cases h
  have hunallowed : ((ofEntries entries).unallowed rules alsoAllowed).Nodup :=
    (nodup_files entries).filter _
  rw [List.map_append, List.map_map, List.nodup_append']
  refine ⟨by simpa [Function.comp_def] using hunallowed, nodup_map_path_forbidden, ?_⟩
  intro path hfile hforbidden
  have hmem : path ∈ (ofEntries entries).unallowed rules alsoAllowed := by simpa using hfile
  obtain ⟨rule, hrule, -, hmatched⟩ := mem_map_path_forbidden.mp hforbidden
  exact (mem_unallowed.mp hmem).2.1 rule hrule hmatched

section Slash

variable (hslash : ∀ entry ∈ snapshot.entries, endsInSlash entry.path.toList = false)

include hslash

/-- Only a rule that asks for directories matches a path with a slash. -/
theorem mem_matchedBy_append_slash {rule : Rule} {path : String} :
    path ++ "/" ∈ snapshot.matchedBy rule ↔ rule.asksForDirectories = true ∧
      ⟨path, .directory⟩ ∈ snapshot.entries ∧ rule.Selects ⟨path, .directory⟩ := by
  rw [mem_matchedBy_iff_selects]
  constructor
  · intro h
    obtain ⟨entry, hentry, hselects, hpath⟩ := h
    split at hpath
    · rename_i hasks
      obtain rfl : path = entry.path := by simpa [← String.toList_inj] using hpath
      have hdirectory := hselects.isDirectory hasks
      obtain ⟨path, kind⟩ := entry
      obtain rfl : kind = .directory := by simpa [Entry.isDirectory] using hdirectory
      exact ⟨hasks, hentry, hselects⟩
    · exact absurd hpath.symm (Entry.path_ne_append_slash (hslash entry hentry) path)
  · intro h
    obtain ⟨hasks, hentry, hselects⟩ := h
    exact ⟨_, hentry, hselects, by rw [if_pos hasks]⟩

/-- At the path of a directory, only a rule that does not ask for directories matches the bare path. -/
theorem mem_matchedBy_of_directory {rule : Rule} {path : String}
    (hentry : ⟨path, .directory⟩ ∈ snapshot.entries) : path ∈ snapshot.matchedBy rule ↔
      rule.asksForDirectories = false ∧ rule.Selects ⟨path, .directory⟩ := by
  rw [mem_matchedBy_iff_selects]
  constructor
  · intro h
    obtain ⟨other, -, hselects, hpath⟩ := h
    split at hpath
    · exact absurd hpath (Entry.path_ne_append_slash (hslash _ hentry) _)
    · rename_i hasks
      obtain ⟨otherPath, kind⟩ := other
      obtain rfl : path = otherPath := hpath
      exact ⟨by simpa using hasks, hselects.of_directory⟩
  · intro h
    obtain ⟨hasks, hselects⟩ := h
    exact ⟨_, hentry, hselects, by simp [hasks]⟩

end Slash

end Snapshot

/-- Whether some rule forbids a directory by a pattern that ends in a slash, or else by one that does
not. -/
def ForbidsDirectory (rules : List Rule) (slash : Bool) (path : String) : Prop :=
  ∃ rule ∈ rules, rule.negated = true ∧ rule.asksForDirectories = slash ∧
    rule.Selects ⟨path, .directory⟩

namespace Snapshot

variable {entries : List Entry} {rules : List Rule} {alsoAllowed : String → Bool} {report : Report}

section Reported

variable (hslash : ∀ entry ∈ (ofEntries entries).entries, endsInSlash entry.path.toList = false)
  (h : (ofEntries entries).checkAllowing rules alsoAllowed = .ok report) {path : String}

include hslash h

/-- A path with a slash is reported exactly for a directory that is forbidden by a pattern with one. -/
theorem append_slash_mem_violations : path ++ "/" ∈ report.violations.map Violation.path ↔
    ⟨path, .directory⟩ ∈ entries ∧ ForbidsDirectory rules true path := by
  rw [mem_map_path_violations h]
  constructor
  · intro hreported
    rcases hreported with hfile | ⟨rule, hrule, hnegated, hmatched⟩
    · have hentry := mem_files.mp (mem_unallowed.mp hfile).1
      exact absurd rfl (Entry.path_ne_append_slash (hslash _ hentry) path)
    · obtain ⟨hasks, hentry, hselects⟩ := (mem_matchedBy_append_slash hslash).mp hmatched
      exact ⟨mem_ofEntries.mp hentry, rule, hrule, hnegated, hasks, hselects⟩
  · intro hforbids
    obtain ⟨hentry, rule, hrule, hnegated, hasks, hselects⟩ := hforbids
    refine .inr ⟨rule, hrule, hnegated, ?_⟩
    exact (mem_matchedBy_append_slash hslash).mpr ⟨hasks, mem_ofEntries.mpr hentry, hselects⟩

/-- The bare path of a directory is reported for a pattern without a slash, or for a file of the same
path that lacks permission. -/
theorem mem_violations_of_directory (hentry : ⟨path, .directory⟩ ∈ entries) :
    path ∈ report.violations.map Violation.path ↔ ForbidsDirectory rules false path ∨
      ⟨path, .file⟩ ∈ entries ∧ (∀ rule ∈ rules, ¬ rule.Selects ⟨path, .file⟩) ∧
        alsoAllowed path = false := by
  have hdirectory := mem_ofEntries.mpr hentry
  rw [mem_map_path_violations h, or_comm]
  refine or_congr ?_ ?_
  · refine exists_congr fun rule => and_congr_right fun _ => and_congr_right fun _ => ?_
    exact mem_matchedBy_of_directory hslash hdirectory
  · rw [mem_unallowed, mem_files, mem_ofEntries]
    refine and_congr_right fun hfile => and_congr_left fun _ => ?_
    refine forall₂_congr fun rule _ => not_congr ?_
    exact mem_matchedBy_of_file (mem_ofEntries.mpr hfile) (hslash _ hdirectory)

/-- Two reported paths name one entry exactly if they are a path and that path with a slash. -/
theorem nodup_map_bare_iff_forall_append_slash :
    (report.violations.map fun violation => dropLastOf '/' violation.path.toList).Nodup ↔
      ∀ path, path ++ "/" ∈ report.violations.map Violation.path →
        path ∉ report.violations.map Violation.path := by
  have hmap : (report.violations.map fun violation => dropLastOf '/' violation.path.toList) =
      (report.violations.map Violation.path).map fun path => dropLastOf '/' path.toList := by
    rw [List.map_map]
    rfl
  have hnamed (path : String) (hpath : path ∈ report.violations.map Violation.path) :
      ∃ entry ∈ (ofEntries entries).entries, entry.IsNamed path := by
    obtain ⟨violation, hmem, rfl⟩ := List.mem_map.mp hpath
    exact exists_isNamed_of_checkAllowing h hmem
  rw [hmap, List.nodup_map_iff_inj_on (nodup_map_path_violations h)]
  constructor
  · intro honce path hreported hbare
    obtain ⟨entry, hentry, hname⟩ := hnamed _ hreported
    have hpath : path = entry.path := by
      rcases hname with hpath | ⟨-, hpath⟩
      · exact absurd hpath.symm (Entry.path_ne_append_slash (hslash entry hentry) path)
      · simpa [← String.toList_inj] using hpath
    have heq : path ++ "/" = path := by
      apply honce _ hreported _ hbare
      rw [Entry.dropLastOf_of_isNamed (hslash entry hentry) hname,
        Entry.dropLastOf_of_isNamed (hslash entry hentry) (.inl hpath)]
    simp [← String.toList_inj] at heq
  · -- Two names of one entry are the same, or one of them is the other with a slash.
    intro honly path hpath other hother heq
    obtain ⟨a, ha, hnamea⟩ := hnamed path hpath
    obtain ⟨b, hb, hnameb⟩ := hnamed other hother
    rw [Entry.dropLastOf_of_isNamed (hslash a ha) hnamea,
      Entry.dropLastOf_of_isNamed (hslash b hb) hnameb, String.toList_inj] at heq
    rcases hnamea with rfl | ⟨-, rfl⟩ <;> rcases hnameb with rfl | ⟨-, rfl⟩
    · exact heq
    · exact absurd (heq ▸ hpath) (honly _ hother)
    · exact absurd (heq ▸ hother) (honly _ hpath)
    · rw [heq]

end Reported

/-- A report names each entry once exactly if no directory that is forbidden by a pattern with a slash is
reported without one: neither for a pattern without a slash, nor for a file of the same path. -/
theorem nodup_map_bare_iff (hformed : ∀ entry ∈ entries, IsWellFormed entry.path.toList)
    (hglobs : AllGlobs rules) (alsoAllowed : String → Bool) :
    ∃ report, (ofEntries entries).checkAllowing rules alsoAllowed = .ok report ∧
      ((report.violations.map fun violation => dropLastOf '/' violation.path.toList).Nodup ↔
        ∀ path, ⟨path, .directory⟩ ∈ entries → ForbidsDirectory rules true path →
          ¬ ForbidsDirectory rules false path ∧ (⟨path, .file⟩ ∈ entries →
            (∃ rule ∈ rules, rule.Selects ⟨path, .file⟩) ∨ alsoAllowed path = true)) := by
  have hslash : ∀ entry ∈ (ofEntries entries).entries, endsInSlash entry.path.toList = false :=
    fun entry hentry => (hformed entry (mem_ofEntries.mp hentry)).endsInSlash
  have hcheck : (ofEntries entries).checkAllowing rules alsoAllowed = _ :=
    checkAllowing_of_allGlobs hglobs alsoAllowed
  refine ⟨_, hcheck, ?_⟩
  rw [nodup_map_bare_iff_forall_append_slash hslash hcheck]
  refine forall_congr' fun path => ?_
  rw [append_slash_mem_violations hslash hcheck, and_imp]
  refine forall_congr' fun hentry => forall_congr' fun _ => ?_
  rw [mem_violations_of_directory hslash hcheck hentry]
  push Not
  refine and_congr_right fun _ => forall_congr' fun _ => ?_
  rw [ne_eq, Bool.not_eq_false]
  constructor
  · intro hallowed
    by_cases hselects : ∃ rule ∈ rules, rule.Selects ⟨path, .file⟩
    · exact .inl hselects
    · push Not at hselects
      exact .inr (hallowed hselects)
  · intro hallowed hnone
    rcases hallowed with ⟨rule, hrule, hselects⟩ | hallowed
    · exact absurd hselects (hnone rule hrule)
    · exact hallowed

/-- A file that lacks permission and a forbidden directory of the same path are both reported. -/
theorem nodup_map_bare_file_and_directory :
    (∀ entry ∈ [⟨"a", .directory⟩, ⟨"a", .file⟩, ⟨"a/b", .file⟩],
      IsWellFormed (Entry.path entry).toList) ∧
    AllGlobs [⟨⟨"a/", true⟩, ⟨"rules", 1⟩⟩] ∧
    ∃ report, (ofEntries [⟨"a", .directory⟩, ⟨"a", .file⟩, ⟨"a/b", .file⟩]).checkAllowing
        [⟨⟨"a/", true⟩, ⟨"rules", 1⟩⟩] (fun _ => false) = .ok report ∧
      ¬ (report.violations.map fun violation => dropLastOf '/' violation.path.toList).Nodup := by
  have hformed : ∀ entry ∈ [⟨"a", .directory⟩, ⟨"a", .file⟩, ⟨"a/b", .file⟩],
      IsWellFormed (Entry.path entry).toList := by decide
  have hglobs : AllGlobs [⟨⟨"a/", true⟩, ⟨"rules", 1⟩⟩] := by
    intro rule hrule
    obtain rfl := List.mem_singleton.mp hrule
    exact ⟨_, rfl⟩
  obtain ⟨report, hcheck, honce⟩ := nodup_map_bare_iff hformed hglobs fun _ => false
  refine ⟨hformed, hglobs, report, hcheck, fun hnodup => ?_⟩
  have hforbids : ForbidsDirectory [⟨⟨"a/", true⟩, ⟨"rules", 1⟩⟩] true "a" :=
    ⟨_, List.mem_singleton.mpr rfl, rfl, by decide, _, rfl, by decide +kernel⟩
  have hallowed := (honce.mp hnodup "a" (by decide) hforbids).2 (by decide)
  rcases hallowed with ⟨rule, hrule, hselects⟩ | h
  · obtain rfl := List.mem_singleton.mp hrule
    cases hselects.isDirectory (by decide)
  · cases h

/-- A directory that is forbidden with a slash and without one is reported twice. -/
theorem exists_report_of_directory_twice :
    (∀ entry ∈ (ofPaths ["dist/"]).entries, IsWellFormed entry.path.toList) ∧
    ∃ report, (ofPaths ["dist/"]).checkAllowing
        [⟨⟨"dist", true⟩, ⟨"rules", 1⟩⟩, ⟨⟨"dist/", true⟩, ⟨"rules", 2⟩⟩] (fun _ => false) =
        .ok report ∧
      report.violations.map Violation.path = ["dist", "dist/"] ∧
      ¬ (report.violations.map fun violation => dropLastOf '/' violation.path.toList).Nodup := by
  have hentries : ofPaths ["dist/"] = ⟨[⟨"dist", .directory⟩]⟩ := by
    rw [ofPaths, ofEntries_of_pairwise (by decide +kernel)]
    decide +kernel
  rw [hentries]
  exact ⟨by decide, _, rfl, by decide +kernel, by decide +kernel⟩

end Snapshot

end TreeLayout
