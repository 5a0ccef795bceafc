import Mathlib.Data.List.Forall2
import TreeLayout.Proofs.Inquiry
import TreeLayout.Proofs.Rules.Binding
import TreeLayout.Proofs.Rules.Stages
import TreeLayout.Proofs.Snapshot.Entries

/-!
# Rules of plain placeholders

A pattern of plain characters is a glob whatever stars it holds, and its placeholder's segment has a
known place unless a recursive wildcard stands on both sides of it. Where that segment has no other
wildcard, every matched path yields a value, every value is a binding, and so every matched path
yields one rule.
-/

namespace TreeLayout.Rules

open Text Glob

namespace Template

variable {template : Template}

/-- The segments of the text before the placeholder's segment. -/
theorem IsCut.segments_lead (h : template.IsCut) :
    segments template.lead = template.before ++ [[]] :=
  split_flatMap_append_separator h.before

/-- The segments of the text after the placeholder's segment. -/
theorem IsCut.segments_trail (h : template.IsCut) :
    segments template.trail = [] :: template.after := by
  have hjoin : template.trail = join '/' ([] ++ [] :: template.after) := by
    rw [join_append_cons]
    rfl
  rw [hjoin, segments, split_join (by simp)]
  · rfl
  · intro piece hpiece
    rcases List.mem_cons.mp hpiece with rfl | hafter
    · exact List.not_mem_nil
    · exact h.after piece hafter

/-- Dropping the slash at the end drops the empty segment after it. -/
theorem IsTidy.segments_dropSlashes_trail (h : template.IsTidy) {segment : List Char}
    (hmem : segment ∈ segments (dropSlashes template.trail)) :
    segment ∈ [] :: template.after := by
  rw [← h.segments_trail, eq_dropSlashes_append h.finish]
  split
  · rw [segments, split_append_cons]
    exact List.mem_append_left _ hmem
  · rwa [List.append_nil]

/-- The text after the placeholder's segment of a plain pattern is plain. -/
theorem isPlain_trail (hplain : IsPlain (template.fill ['%'])) :
    IsPlain (dropSlashes template.trail) := by
  rw [fill_eq] at hplain
  intro c hc
  exact hplain c (List.mem_append_right _ ((dropSlashes_isPrefix template.trail).subset hc))

/-- The placeholder's segment of a plain pattern has a known place, unless recursive wildcards stand on
both sides of it. -/
theorem isPinned_of_isPlain (htidy : template.IsTidy) (hplain : IsPlain (template.fill ['%']))
    (hliteral : ∀ c ∈ template.head ++ template.tail, c ≠ '?' ∧ c ≠ '*')
    (hstars : ['*', '*'] ∈ template.before → ['*', '*'] ∉ template.after) :
    template.IsPinned := by
  have htrail := isPlain_trail hplain
  rw [fill_eq] at hplain
  have hlead : IsPlain template.lead := fun c hc =>
    hplain c (List.mem_append_left _ (List.mem_append_left _ hc))
  refine ⟨fun c hc => hplain c ?_, fun hsingle => ?_, exists_parse_of_isPlain hlead, ?_⟩
  · rcases List.mem_append.mp hc with hhead | htail
    · simp [name, hhead]
    · simp [name, htail]
  · exact (hliteral '*' (by simp [hsingle])).2 rfl
  · split
    · rename_i hbefore
      refine crossesAsWritten_of_isPlain htrail fun hmem => ?_
      have hafter := htidy.segments_dropSlashes_trail hmem
      exact hstars hbefore (by simpa using hafter)
    · rename_i hbefore
      refine crossesAsWritten_of_isPlain hlead fun hmem => ?_
      rw [htidy.segments_lead] at hmem
      exact hbefore (by simpa using hmem)

/-- Where the placeholder's segment has no other wildcard, its words are its ends around a value. -/
theorem exists_value_of_matches (hliteral : ∀ c ∈ template.head ++ template.tail, c ≠ '?' ∧ c ≠ '*')
    {name : List Char}
    (h : (concat ((template.name ['*']).map Token.ofChar)).Matches (bytes name)) :
    ∃ value, name = template.name value := by
  rw [Template.name, List.map_append, List.map_append] at h
  obtain ⟨_, w, hfront, htail, hname⟩ := matches_concat_append.mp h
  obtain ⟨u, v, hhead, -, rfl⟩ := matches_concat_append.mp hfront
  rw [matches_literals fun c hc => hliteral c (List.mem_append_left _ hc)] at hhead
  rw [matches_literals fun c hc => hliteral c (List.mem_append_right _ hc)] at htail
  subst hhead htail
  rw [List.append_assoc] at hname
  obtain ⟨rest, rfl, hrest⟩ := exists_of_bytes_append_eq hname.symm
  obtain ⟨value, rfl, -⟩ := exists_of_append_bytes_eq hrest
  exact ⟨value, (List.append_assoc _ _ _).symm⟩

/-- Filled with a value that means nothing in a glob, a segment without other wildcards is not two
stars. -/
theorem name_ne_stars (hliteral : ∀ c ∈ template.head ++ template.tail, c ≠ '?' ∧ c ≠ '*')
    {value : List Char} (hvalue : IsVerbatim value) : template.name value ≠ ['*', '*'] := by
  have hstarless : '*' ∉ template.name value := by
    intro hstar
    simp only [name, List.mem_append] at hstar
    rcases hstar with (hhead | hstar) | htail
    · exact (hliteral '*' (List.mem_append_left _ hhead)).2 rfl
    · exact hvalue '*' hstar (by decide)
    · exact (hliteral '*' (List.mem_append_right _ htail)).2 rfl
  intro heq
  simp [heq] at hstarless

/-- Every path that the wildcard matches yields a value. -/
theorem exists_capture_of_selects (htidy : template.IsTidy) (hpinned : template.IsPinned)
    (hliteral : ∀ c ∈ template.head ++ template.tail, c ≠ '?' ∧ c ≠ '*')
    {front back : List Token} (hfront : Glob.parse false template.lead = .ok front)
    (hback : Glob.parse false (dropSlashes template.trail) = .ok back) {entry : Entry}
    (h : (template.question front back ['*']).selects entry = true) :
    ∃ value,
      template.capture? ((template.question front back ['*']).report entry).toList = some value := by
  obtain ⟨first, name, last, hpath, -, hname, hlocates⟩ :=
    exists_name_of_selects hfront hback htidy hpinned h
  have hslash : '/' ∉ name := notMem_of_mem_split (hpath ▸ List.mem_append_right _ List.mem_cons_self)
  rw [matchesName_iff _ (slashByte_notMem_bytes hslash)] at hname
  obtain ⟨value, rfl⟩ := exists_value_of_matches hliteral hname
  exact ⟨value, capture?_eq_some_iff_locates.mpr hlocates⟩

end Template

section Directive

variable {matcher : Matcher} {template : Template} (directive : Directive)

/-- A placeholder directive stands for one directive per captured value. -/
theorem outcome_expand (htemplate :
      Template.ofPattern? directive.antecedent.pattern.toList = some template)
    (hone : directive.antecedent.pattern.toList.count '%' = 1)
    (hpositive : directive.antecedent.negated = false) {paths : List String}
    (hpaths : matcher.paths (.ofList template.wildcard) = .ok paths) :
    (expand matcher [directive]).outcome =
      .ok ((paths.filterMap fun path => template.capture? path.toList).map directive.fill) := by
  have hdirective : (expandDirective matcher directive).outcome =
      .ok ((paths.filterMap fun path => template.capture? path.toList).map directive.fill) := by
    rw [wildcard_eq hone htemplate] at hpaths
    rw [expandDirective_of_single hone hpositive, hpaths, ← fillFrom_eq htemplate]
  rw [expand, Inquiry.outcome_bind, Inquiry.outcome_mapM, List.mapM_cons, hdirective]
  simp [bind, Except.bind, pure, Except.pure, Inquiry.pure]

/-- Conditionals that hold are resolved to their consequences, in their order. -/
theorem outcome_resolve {consequence : Expression} {values : List (List Char)}
    (hconsequence : directive.consequence = some consequence)
    (hpositive : directive.antecedent.negated = false)
    (hholds : ∀ value ∈ values,
      matcher.existence (substitute value directive.antecedent.pattern) = .ok true) :
    (resolve matcher (values.map directive.fill)).outcome =
      .ok (values.map fun value => ⟨consequence.fill value, directive.location⟩) := by
  have hdirective (value : List Char) (hvalue : value ∈ values) :
      (resolveDirective matcher (directive.fill value)).outcome =
        .ok (some ⟨consequence.fill value, directive.location⟩) := by
    have hconditional : (directive.fill value).consequence = some (consequence.fill value) := by
      rw [Directive.fill, hconsequence]
      rfl
    have hexistence : matcher.existence (directive.fill value).antecedent.pattern = .ok true :=
      hholds value hvalue
    have hplain : (directive.fill value).antecedent.negated = false := hpositive
    rw [resolveDirective_of_conditional hconditional, hexistence, hplain]
    rfl
  rw [resolve, Inquiry.outcome_bind, Inquiry.outcome_mapM, List.mapM_map,
    mapM_eq_ok (g := fun value => some ⟨consequence.fill value, directive.location⟩) hdirective]
  simp [Except.bind, List.filterMap_map]

end Directive

/-- An entry that the wildcard selects yields a value, and with that value the pattern matches it
again. -/
theorem exists_binding_of_selects {pattern : String} {template : Template}
    (htemplate : Template.ofPattern? pattern.toList = some template)
    (hone : pattern.toList.count '%' = 1) (htidy : template.IsTidy) (hpinned : template.IsPinned)
    (hliteral : ∀ c ∈ template.head ++ template.tail, c ≠ '?' ∧ c ≠ '*')
    {front back : List Token} (hfront : Glob.parse false template.lead = .ok front)
    (hback : Glob.parse false (dropSlashes template.trail) = .ok back)
    {snapshot : Snapshot} {entry : Entry} (hmem : entry ∈ snapshot.entries)
    (hformed : IsWellFormed entry.path.toList)
    (hselects : (template.question front back ['*']).selects entry = true)
    (hvalues : ∀ value,
      template.capture? ((template.question front back ['*']).report entry).toList = some value →
        IsVerbatim value) :
    ∃ value,
      template.capture? ((template.question front back ['*']).report entry).toList = some value ∧
      ∃ again, snapshot.pathsMatching (substitute value pattern) = .ok again ∧
        (template.question front back ['*']).report entry ∈ again := by
  obtain ⟨value, hcapture⟩ :=
    Template.exists_capture_of_selects htidy hpinned hliteral hfront hback hselects
  obtain ⟨hagain, hsegment⟩ :=
    Template.selects_of_capture? hfront hback htidy hpinned hselects hcapture
  have hname := Template.isName_of_mem_segments hpinned.plain (hvalues value hcapture)
    (Template.name_ne_stars hliteral (hvalues value hcapture)) hformed hsegment
  have hanswers := Snapshot.pathsMatching_of_ofPattern
    (ofPattern_substitute htemplate hone htidy hname hfront hback) snapshot
  refine ⟨value, hcapture, _, hanswers, ?_⟩
  exact List.mem_map.mpr ⟨entry, List.mem_filter.mpr ⟨hmem, hagain⟩, rfl⟩

/-- Where every item yields a value, the values stand beside the items. -/
theorem forall₂_filterMap {α β : Type} {f : α → Option β} {R : α → β → Prop} {items : List α}
    (h : ∀ item ∈ items, ∃ b, f item = some b ∧ R item b) :
    List.Forall₂ R items (items.filterMap f) := by
  induction items with
  | nil => exact .nil
  | cons item items ih =>
    obtain ⟨b, hb, hR⟩ := h item List.mem_cons_self
    rw [List.filterMap_cons_some hb]
    exact .cons hR (ih fun other hother => h other (List.mem_cons_of_mem item hother))

/-- A conditional with a plain placeholder yields exactly one rule per matched path, in the order of the
paths: its consequence with the value that the placeholder stands for in the path. With that value, the
antecedent matches the path again. -/
theorem outcome_expand_resolve_of_isPlain {paths : List String}
    {antecedent consequence : Expression} {location : Location} {template : Template}
    (hpaths : ∀ path ∈ paths, IsWellFormed (dropLastOf '/' path.toList))
    (hpositive : antecedent.negated = false) (hplain : IsPlain antecedent.pattern.toList)
    (hone : antecedent.pattern.toList.count '%' = 1)
    (htemplate : Template.ofPattern? antecedent.pattern.toList = some template)
    (hliteral : ∀ c ∈ template.head ++ template.tail, c ≠ '?' ∧ c ≠ '*')
    (hstart : ¬ ['.', '/'] <+: dropDotSlash antecedent.pattern.toList)
    (hfinish : ¬ ['/', '/'] <:+ antecedent.pattern.toList)
    (hstars : ['*', '*'] ∈ template.before → ['*', '*'] ∉ template.after)
    (hvalues : ∀ matched, (Snapshot.ofPaths paths).pathsMatching
      (substitute ['*'] antecedent.pattern) = .ok matched → ∀ path ∈ matched,
        ∀ value, template.capture? path.toList = some value → IsVerbatim value) :
    ∃ matched values,
      (Snapshot.ofPaths paths).pathsMatching (substitute ['*'] antecedent.pattern) = .ok matched ∧
      (expand (Snapshot.ofPaths paths).matcher [⟨antecedent, some consequence, location⟩] >>=
          resolve (Snapshot.ofPaths paths).matcher).outcome =
        .ok (values.map fun value => ⟨consequence.fill value, location⟩) ∧
      List.Forall₂ (fun path value =>
        template.anchor.segment? (segments path.toList) =
          some (template.head ++ value ++ template.tail) ∧
        ∃ again, (Snapshot.ofPaths paths).pathsMatching
          (substitute value antecedent.pattern) = .ok again ∧ path ∈ again) matched values := by
  obtain ⟨htext, -⟩ := Template.exists_of_ofPattern? htemplate
  have hfill : IsPlain (template.fill ['%']) := by
    rw [← htext]
    exact fun c hc => hplain c ((dropDotSlash_isSuffix _).subset hc)
  have htidy := Template.isTidy_of_ofPattern? htemplate hstart hfinish
  have hpinned := Template.isPinned_of_isPlain htidy hfill hliteral hstars
  have hwildcard := Template.isName_wildcard htidy.toIsCut hpinned.plain hpinned.single
  obtain ⟨front, hfront⟩ := hpinned.lead
  obtain ⟨back, hback⟩ := exists_parse_of_isPlain (Template.isPlain_trail hfill)
  generalize hsnapshot : Snapshot.ofPaths paths = snapshot at hvalues ⊢
  let matched := (snapshot.entries.filter (template.question front back ['*']).selects).map
    (template.question front back ['*']).report
  have hmatched : snapshot.pathsMatching (substitute ['*'] antecedent.pattern) = .ok matched :=
    Snapshot.pathsMatching_of_ofPattern
      (ofPattern_substitute htemplate hone htidy hwildcard hfront hback) snapshot
  have hquery : snapshot.matcher.paths (.ofList template.wildcard) = .ok matched :=
    Snapshot.pathsMatching_of_ofPattern
      (Template.ofPattern_fill htidy hwildcard (.inl rfl) hfront hback) snapshot
  have hbinding (path : String) (hpath : path ∈ matched) :
      ∃ value, template.capture? path.toList = some value ∧
        ∃ again, snapshot.pathsMatching (substitute value antecedent.pattern) = .ok again ∧
          path ∈ again := by
    obtain ⟨entry, hentry, rfl⟩ := List.mem_map.mp hpath
    obtain ⟨hmem, hselects⟩ := List.mem_filter.mp hentry
    have hformed : IsWellFormed entry.path.toList :=
      Snapshot.isWellFormed_of_mem_ofPaths hpaths (hsnapshot ▸ hmem)
    exact exists_binding_of_selects htemplate hone htidy hpinned hliteral hfront hback hmem hformed
      hselects (hvalues matched hmatched _ hpath)
  have hholds (value : List Char)
      (hvalue : value ∈ matched.filterMap fun path => template.capture? path.toList) :
      snapshot.matcher.existence (substitute value antecedent.pattern) = .ok true := by
    obtain ⟨path, hpath, hcapture⟩ := List.mem_filterMap.mp hvalue
    obtain ⟨_, hcapture', again, hagain, hmem⟩ := hbinding path hpath
    obtain rfl := Option.some.inj (hcapture.symm.trans hcapture')
    refine (Snapshot.anyMatching_of_pathsMatching hagain).trans ?_
    cases again with
    | nil => cases hmem
    | cons => rfl
  refine ⟨matched, matched.filterMap fun path => template.capture? path.toList, hmatched, ?_, ?_⟩
  · rw [Inquiry.outcome_bind, outcome_expand ⟨antecedent, some consequence, location⟩ htemplate
      hone hpositive hquery]
    exact outcome_resolve ⟨antecedent, some consequence, location⟩ rfl hpositive hholds
  · refine forall₂_filterMap fun path hpath => ?_
    obtain ⟨value, hcapture, hagain⟩ := hbinding path hpath
    exact ⟨value, hcapture, Template.capture?_eq_some.mp hcapture, hagain⟩

/-- Two directories with names of one kind, and a forbidding consequence. -/
theorem outcome_expand_resolve_directories :
    ∃ matched values,
      (Snapshot.ofPaths ["lib/", "lib/a.d/", "lib/b.d/", "lib/b.d/x"]).pathsMatching
        (substitute ['*'] "./lib/%.d/") = .ok matched ∧
      (expand (Snapshot.ofPaths ["lib/", "lib/a.d/", "lib/b.d/", "lib/b.d/x"]).matcher
          [⟨⟨"./lib/%.d/", false⟩, some ⟨"%/%.md", true⟩, ⟨"rules", 1⟩⟩] >>=
        resolve (Snapshot.ofPaths ["lib/", "lib/a.d/", "lib/b.d/", "lib/b.d/x"]).matcher).outcome =
        .ok (values.map fun value => ⟨Expression.fill ⟨"%/%.md", true⟩ value, ⟨"rules", 1⟩⟩) ∧
      List.Forall₂ (fun path value =>
        Anchor.segment? (segments path.toList) (.fromStart 1) = some ([] ++ value ++ ['.', 'd']) ∧
        ∃ again, (Snapshot.ofPaths ["lib/", "lib/a.d/", "lib/b.d/", "lib/b.d/x"]).pathsMatching
          (substitute value "./lib/%.d/") = .ok again ∧ path ∈ again) matched values := by
  refine @outcome_expand_resolve_of_isPlain ["lib/", "lib/a.d/", "lib/b.d/", "lib/b.d/x"]
    ⟨"./lib/%.d/", false⟩ ⟨"%/%.md", true⟩ ⟨"rules", 1⟩ ⟨[['l', 'i', 'b']], [], ['.', 'd'], [[]]⟩
    (by decide) rfl (by decide) (by decide) (by decide +kernel) (by simp) (by decide) (by decide)
    (by decide) ?_
  have hentries : Snapshot.ofPaths ["lib/", "lib/a.d/", "lib/b.d/", "lib/b.d/x"] =
      ⟨[⟨"lib", .directory⟩, ⟨"lib/a.d", .directory⟩, ⟨"lib/b.d", .directory⟩,
        ⟨"lib/b.d/x", .file⟩]⟩ := by
    rw [Snapshot.ofPaths, Snapshot.ofEntries_of_pairwise (by decide +kernel)]
    decide +kernel
  have hpaths : Snapshot.pathsMatching ⟨[⟨"lib", .directory⟩, ⟨"lib/a.d", .directory⟩,
      ⟨"lib/b.d", .directory⟩, ⟨"lib/b.d/x", .file⟩]⟩ (substitute ['*'] "./lib/%.d/") =
      .ok ["lib/a.d/", "lib/b.d/"] := by decide +kernel
  intro matched hmatched path hpath value hcapture
  rw [hentries, hpaths] at hmatched
  cases hmatched
  rw [List.mem_cons, List.mem_singleton] at hpath
  rcases hpath with rfl | rfl
  · obtain rfl : ['a'] = value := Option.some.inj (Eq.trans (by decide +kernel) hcapture)
    decide
  · obtain rfl : ['b'] = value := Option.some.inj (Eq.trans (by decide +kernel) hcapture)
    decide

end TreeLayout.Rules
