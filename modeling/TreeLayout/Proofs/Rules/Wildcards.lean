import TreeLayout.Proofs.Report.Exchange
import TreeLayout.Proofs.Report.Passing
import TreeLayout.Proofs.Rules.Expansion

/-!
# Placeholders without a consequence

An unconditional pattern with a placeholder stands for its instances, one for each value that the
placeholder has in a matched path. Together the instances select what the pattern selects with its
placeholder read as a wildcard, so they can be exchanged for it (`violations_eq_wildcard`).
-/

namespace TreeLayout.Rules

open Text Glob

namespace Template

variable {template : Template} {front back : List Token} {value : List Char} {entry : Entry}

/-- The words of a filled segment are words of the segment with a wildcard in the same place. -/
theorem matches_name_wildcard (hslash : '/' ∉ value) {word : List UInt8}
    (h : (concat ((template.name value).map Token.ofChar)).Matches word) :
    (concat ((template.name ['*']).map Token.ofChar)).Matches word := by
  rw [name, List.map_append, List.map_append] at h ⊢
  obtain ⟨_, last, hstart, hlast, rfl⟩ := matches_concat_append.mp h
  obtain ⟨first, middle, hfirst, hmiddle, rfl⟩ := matches_concat_append.mp hstart
  have hrun : slashByte ∉ middle := by
    rw [← List.count_eq_zero, count_slashByte_of_chars hmiddle]
    exact List.count_eq_zero_of_not_mem hslash
  have hstar : (concat (['*'].map Token.ofChar)).Matches middle :=
    matches_concat_singleton.mpr (matches_star_withinSegment.mpr hrun)
  exact matches_concat_append.mpr
    ⟨_, last, matches_concat_append.mpr ⟨first, middle, hfirst, hstar, rfl⟩, hlast, rfl⟩

/-- What an instance selects, the wildcard selects. -/
theorem selects_wildcard (hslash : '/' ∉ value) (hne : template.name value ≠ [])
    (h : (template.question front back value).selects entry = true) :
    (template.question front back ['*']).selects entry = true := by
  obtain ⟨hkind, hmatch⟩ := Bool.and_eq_true_iff.mp h
  have hwords := concat_of_isMatch (tokens_question_ne hne) hmatch
  obtain ⟨_, after, hstart, hafter, hpath⟩ := matches_concat_append.mp hwords
  obtain ⟨before, middle, hbefore, hmiddle, rfl⟩ := matches_concat_append.mp hstart
  refine Bool.and_eq_true_iff.mpr ⟨hkind, isMatch_of_concat ?_⟩
  refine matches_concat_append.mpr ⟨before ++ middle, after, ?_, hafter, hpath⟩
  exact matches_concat_append.mpr
    ⟨before, middle, hbefore, matches_name_wildcard hslash hmiddle, rfl⟩

/-- The values that the placeholder has in some entries, as its wildcard reports them. -/
def values (template : Template) (query : EntryQuery) (entries : List Entry) : List (List Char) :=
  ((entries.filter query.selects).map query.report).filterMap fun path =>
    template.capture? path.toList

theorem mem_values {query : EntryQuery} {entries : List Entry} :
    value ∈ template.values query entries ↔ ∃ entry ∈ entries, query.selects entry = true ∧
      template.capture? (query.report entry).toList = some value := by
  simp only [values, List.mem_filterMap, List.mem_map, List.mem_filter]
  constructor
  · intro h
    obtain ⟨path, ⟨entry, ⟨hentry, hselects⟩, rfl⟩, hcapture⟩ := h
    exact ⟨entry, hentry, hselects, hcapture⟩
  · intro h
    obtain ⟨entry, hentry, hselects, hcapture⟩ := h
    exact ⟨_, ⟨entry, ⟨hentry, hselects⟩, rfl⟩, hcapture⟩

/-- A template whose parts can be read, and whose segment stands at a known place and has no wildcard
beside the placeholder. -/
structure IsRead (template : Template) (front back : List Token) : Prop extends
    template.IsTidy, template.IsPinned where
  literal : ∀ c ∈ template.head ++ template.tail, c ≠ '?' ∧ c ≠ '*'
  front : Glob.parse false template.lead = .ok front
  back : Glob.parse false (dropSlashes template.trail) = .ok back

/-- A plain pattern has such a template, unless recursive wildcards stand on both sides of the
placeholder's segment. -/
theorem exists_isRead_of_isPlain {pattern : String}
    (htemplate : ofPattern? pattern.toList = some template) (hplain : IsPlain pattern.toList)
    (hliteral : ∀ c ∈ template.head ++ template.tail, c ≠ '?' ∧ c ≠ '*')
    (hstart : ¬ ['.', '/'] <+: dropDotSlash pattern.toList)
    (hfinish : ¬ ['/', '/'] <:+ pattern.toList)
    (hstars : ['*', '*'] ∈ template.before → ['*', '*'] ∉ template.after) :
    ∃ front back, template.IsRead front back := by
  obtain ⟨htext, -⟩ := exists_of_ofPattern? htemplate
  have hfill : IsPlain (template.fill ['%']) := by
    rw [← htext]
    exact fun c hc => hplain c ((dropDotSlash_isSuffix _).subset hc)
  have htidy := isTidy_of_ofPattern? htemplate hstart hfinish
  have hpinned := isPinned_of_isPlain htidy hfill hliteral hstars
  obtain ⟨front, hfront⟩ := hpinned.lead
  obtain ⟨back, hback⟩ := exists_parse_of_isPlain (isPlain_trail hfill)
  exact ⟨front, back, htidy, hpinned, hliteral, hfront, hback⟩

section Values

variable {entries : List Entry} (hread : template.IsRead front back)
  (hformed : ∀ entry ∈ entries, IsWellFormed entry.path.toList)

include hread hformed

/-- Where no path means anything in a glob, a segment with a value for its placeholder can be read
character by character. -/
theorem isName_of_mem_values (hverbatim : ∀ entry ∈ entries, IsVerbatim entry.path.toList)
    (hvalue : value ∈ template.values (template.question front back ['*']) entries) :
    IsName (template.name value) := by
  obtain ⟨entry, hentry, hselects, hcapture⟩ := mem_values.mp hvalue
  obtain ⟨-, hsegment⟩ :=
    selects_of_capture? hread.front hread.back hread.toIsTidy hread.toIsPinned hselects hcapture
  have hmeans : IsVerbatim value := by
    intro c hc
    apply hverbatim entry hentry c
    exact subset_of_mem_split hsegment (by simp [name, hc])
  exact isName_of_mem_segments hread.toIsPinned.plain hmeans (name_ne_stars hread.literal hmeans)
    (hformed entry hentry) hsegment

/-- The instances together select what the wildcard selects. -/
theorem exists_selects_iff {entry : Entry} (hentry : entry ∈ entries) :
    (∃ value ∈ template.values (template.question front back ['*']) entries,
      (template.question front back value).selects entry = true) ↔
        (template.question front back ['*']).selects entry = true := by
  constructor
  · intro h
    obtain ⟨value, hvalue, hselects⟩ := h
    obtain ⟨other, hother, hwildcard, hcapture⟩ := mem_values.mp hvalue
    obtain ⟨-, hsegment⟩ :=
      selects_of_capture? hread.front hread.back hread.toIsTidy hread.toIsPinned hwildcard hcapture
    have hslash : '/' ∉ value := by
      intro hmem
      exact notMem_of_mem_split hsegment (by simp [name, hmem])
    exact selects_wildcard hslash (hformed other hother _ hsegment).1 hselects
  · intro hselects
    obtain ⟨value, hcapture⟩ := exists_capture_of_selects hread.toIsTidy hread.toIsPinned
      hread.literal hread.front hread.back hselects
    obtain ⟨hagain, -⟩ :=
      selects_of_capture? hread.front hread.back hread.toIsTidy hread.toIsPinned hselects hcapture
    exact ⟨value, mem_values.mpr ⟨entry, hentry, hselects, hcapture⟩, hagain⟩

end Values

end Template

/-- Directives without a consequence are resolved to themselves. -/
theorem outcome_resolve_of_unconditional {matcher : Matcher} {directives : List Directive}
    (h : ∀ directive ∈ directives, directive.consequence = none) :
    (resolve matcher directives).outcome =
      .ok (directives.map fun directive => ⟨directive.antecedent, directive.location⟩) := by
  have hfails : ∀ directive ∈ directives, ∀ error, ¬ ResolutionFails matcher directive error := by
    intro directive hdirective error hfails
    cases hfails with
    | query hconditional _ =>
      rw [h directive hdirective] at hconditional
      cases hconditional
  have hrule : ∀ directive ∈ directives,
      ruleOf? matcher directive = some ⟨directive.antecedent, directive.location⟩ := by
    intro directive hdirective
    rw [ruleOf?, h directive hdirective]
  rw [resolve_of_forall hfails, List.filterMap_congr hrule, List.filterMap_eq_map']

/-- The rules of a pattern with each of some values in the place of its placeholder. -/
def rulesWith (pattern : String) (location : Location) (values : List (List Char)) : List Rule :=
  values.map fun value => ⟨⟨substitute value pattern, false⟩, location⟩

theorem negated_of_mem_rulesWith {pattern : String} {location : Location}
    {values : List (List Char)} {rule : Rule} (h : rule ∈ rulesWith pattern location values) :
    rule.negated = false := by
  obtain ⟨value, -, rfl⟩ := List.mem_map.mp h
  rfl

section Instances

variable {pattern : String} {location : Location} {template : Template} {first last : List Token}
  {values : List (List Char)} (hread : template.IsRead first last)
  (htemplate : Template.ofPattern? pattern.toList = some template)
  (hone : pattern.toList.count '%' = 1)

include hread htemplate hone

/-- An unconditional placeholder is compiled to one rule for each value that it has. -/
theorem outcome_expand_resolve_of_unconditional (snapshot : Snapshot) :
    (expand snapshot.matcher [⟨⟨pattern, false⟩, none, location⟩] >>=
      resolve snapshot.matcher).outcome = .ok (rulesWith pattern location
        (template.values (template.question first last ['*']) snapshot.entries)) := by
  have hwildcard := Template.isName_wildcard hread.toIsCut hread.plain hread.single
  have hpaths : snapshot.matcher.paths (.ofList template.wildcard) = .ok
      ((snapshot.entries.filter (template.question first last ['*']).selects).map
        (template.question first last ['*']).report) :=
    Snapshot.pathsMatching_of_ofPattern
      (Template.ofPattern_fill hread.toIsTidy hwildcard (.inl rfl) hread.front hread.back) snapshot
  rw [Inquiry.outcome_bind,
    outcome_expand ⟨⟨pattern, false⟩, none, location⟩ htemplate hone rfl hpaths]
  refine (outcome_resolve_of_unconditional ?_).trans ?_
  · intro directive hdirective
    obtain ⟨value, -, rfl⟩ := List.mem_map.mp hdirective
    rfl
  · rw [List.map_map]
    rfl

variable (hnames : ∀ value ∈ values, Template.IsName (template.name value))

include hnames

theorem allGlobs_rulesWith (location : Location) :
    Snapshot.AllGlobs (rulesWith pattern location values) := by
  intro rule hrule
  obtain ⟨value, hvalue, rfl⟩ := List.mem_map.mp hrule
  exact ⟨_, ofPattern_substitute htemplate hone hread.toIsTidy (hnames value hvalue) hread.front
    hread.back⟩

/-- The rules of some values select what the questions with these values select. -/
theorem exists_selects_rulesWith {entry : Entry} :
    (∃ rule ∈ rulesWith pattern location values, rule.Selects entry) ↔
      ∃ value ∈ values, (template.question first last value).selects entry = true := by
  simp only [rulesWith, List.mem_map, exists_exists_and_eq_and]
  refine exists_congr fun value => and_congr_right fun hvalue => ?_
  have hquestion := ofPattern_substitute htemplate hone hread.toIsTidy (hnames value hvalue)
    hread.front hread.back
  simp [Rule.Selects, Rule.pattern, hquestion]

end Instances

/-- The rules of an unconditional placeholder report the same violations as its wildcard, whatever rules
stand before and after them. -/
theorem violations_eq_wildcard {snapshot : Snapshot} {pattern : String} {location : Location}
    {template : Template} {front back : List Rule}
    (hformed : ∀ entry ∈ snapshot.entries, IsWellFormed entry.path.toList)
    (hverbatim : ∀ entry ∈ snapshot.entries, IsVerbatim entry.path.toList)
    (hplain : IsPlain pattern.toList) (hone : pattern.toList.count '%' = 1)
    (htemplate : Template.ofPattern? pattern.toList = some template)
    (hliteral : ∀ c ∈ template.head ++ template.tail, c ≠ '?' ∧ c ≠ '*')
    (hstart : ¬ ['.', '/'] <+: dropDotSlash pattern.toList)
    (hfinish : ¬ ['/', '/'] <:+ pattern.toList)
    (hstars : ['*', '*'] ∈ template.before → ['*', '*'] ∉ template.after)
    (hfront : Snapshot.AllGlobs front) (hback : Snapshot.AllGlobs back)
    (alsoAllowed : String → Bool) :
    ∃ rules report other,
      (expand snapshot.matcher [⟨⟨pattern, false⟩, none, location⟩] >>=
        resolve snapshot.matcher).outcome = .ok rules ∧
      snapshot.checkAllowing (front ++ rules ++ back) alsoAllowed = .ok report ∧
      snapshot.checkAllowing (front ++ [⟨⟨substitute ['*'] pattern, false⟩, location⟩] ++ back)
        alsoAllowed = .ok other ∧
      report.violations = other.violations := by
  obtain ⟨first, last, hread⟩ :=
    Template.exists_isRead_of_isPlain htemplate hplain hliteral hstart hfinish hstars
  have hvalues : ∀ value ∈
      template.values (template.question first last ['*']) snapshot.entries,
      Template.IsName (template.name value) :=
    fun value hvalue => Template.isName_of_mem_values hread hformed hverbatim hvalue
  have hwildcard : ∀ value ∈ [['*']], Template.IsName (template.name value) := by
    simpa using Template.isName_wildcard hread.toIsCut hread.plain hread.single
  have hmatched : ∀ file ∈ snapshot.files,
      ((∃ rule ∈ rulesWith pattern location
          (template.values (template.question first last ['*']) snapshot.entries),
        file ∈ snapshot.matchedBy rule) ↔
      ∃ rule ∈ rulesWith pattern location [['*']], file ∈ snapshot.matchedBy rule) := by
    intro file hfile
    have hentry := Snapshot.mem_files.mp hfile
    simp only [Snapshot.mem_matchedBy_of_file hentry (hformed _ hentry).endsInSlash]
    rw [exists_selects_rulesWith hread htemplate hone hvalues,
      exists_selects_rulesWith hread htemplate hone hwildcard,
      Template.exists_selects_iff hread hformed hentry]
    simp
  have hglobs {rules : List Rule} (h : Snapshot.AllGlobs rules) :
      Snapshot.AllGlobs (front ++ rules ++ back) :=
    Snapshot.allGlobs_append.mpr ⟨Snapshot.allGlobs_append.mpr ⟨hfront, h⟩, hback⟩
  obtain ⟨report, other, hreport, hother, hviolations⟩ := Snapshot.violations_exchange
    (hglobs (allGlobs_rulesWith hread htemplate hone hvalues location))
    (hglobs (allGlobs_rulesWith hread htemplate hone hwildcard location))
    (fun _ => negated_of_mem_rulesWith) (fun _ => negated_of_mem_rulesWith) hmatched alsoAllowed
  exact ⟨_, report, other, outcome_expand_resolve_of_unconditional hread htemplate hone snapshot,
    hreport, hother, hviolations⟩

/-- A tree with files of one kind at two depths, and another file. -/
def sampleSnapshot : Snapshot :=
  ⟨[⟨"a.md", .file⟩, ⟨"src", .directory⟩, ⟨"src/a", .directory⟩, ⟨"src/a/x.rs", .file⟩,
    ⟨"src/b.rs", .file⟩]⟩

/-- A placeholder below a recursive wildcard, between a rule that forbids and one that allows. -/
theorem violations_eq_wildcard_below_stars :
    ∃ rules report,
      (expand sampleSnapshot.matcher [⟨⟨"./src/**/%.rs", false⟩, none, ⟨"rules", 2⟩⟩] >>=
        resolve sampleSnapshot.matcher).outcome = .ok rules ∧
      sampleSnapshot.checkAllowing
        ([⟨⟨"**/x.*", true⟩, ⟨"rules", 1⟩⟩] ++ rules ++ [⟨⟨"docs/**", false⟩, ⟨"rules", 3⟩⟩])
        (fun _ => false) = .ok report ∧
      report.violations =
        [⟨"a.md", .notAllowed⟩, ⟨"src/a/x.rs", .forbidden "**/x.*" ⟨"rules", 1⟩⟩] := by
  have hfront : Snapshot.AllGlobs [⟨⟨"**/x.*", true⟩, ⟨"rules", 1⟩⟩] := by
    intro rule hrule
    obtain rfl := List.mem_singleton.mp hrule
    exact ⟨_, rfl⟩
  have hback : Snapshot.AllGlobs [⟨⟨"docs/**", false⟩, ⟨"rules", 3⟩⟩] := by
    intro rule hrule
    obtain rfl := List.mem_singleton.mp hrule
    exact ⟨_, rfl⟩
  obtain ⟨rules, report, other, hrules, hreport, hother, hviolations⟩ :=
    @violations_eq_wildcard sampleSnapshot "./src/**/%.rs" ⟨"rules", 2⟩
      ⟨[['s', 'r', 'c'], ['*', '*']], [], ['.', 'r', 's'], []⟩ _ _ (by decide +kernel)
      (by decide +kernel) (by decide) (by decide) (by decide +kernel) (by simp)
      (by decide +kernel) (by decide +kernel) (by decide) hfront hback fun _ => false
  have hchecked : sampleSnapshot.checkAllowing
      ([⟨⟨"**/x.*", true⟩, ⟨"rules", 1⟩⟩] ++
        [⟨⟨substitute ['*'] "./src/**/%.rs", false⟩, ⟨"rules", 2⟩⟩] ++
        [⟨⟨"docs/**", false⟩, ⟨"rules", 3⟩⟩]) (fun _ => false) =
      .ok ⟨[⟨"a.md", .notAllowed⟩, ⟨"src/a/x.rs", .forbidden "**/x.*" ⟨"rules", 1⟩⟩], 3, 3⟩ := by
    decide +kernel
  rw [hchecked] at hother
  cases hother
  exact ⟨rules, report, hrules, hreport, hviolations⟩

end TreeLayout.Rules
