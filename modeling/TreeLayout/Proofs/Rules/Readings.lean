import TreeLayout.Proofs.Glob.Between
import TreeLayout.Proofs.Glob.Outline
import TreeLayout.Proofs.Rules.Binding

/-!
# When a captured value is a binding

A value is captured from the segment in the placeholder's place, which is found by counting. With the value
filled in, a pattern matches the path again exactly if it can be read along the path with a name that the
filled segment matches (`mem_pathsMatching_substitute_iff`). Counting finds such a name where what it counts
over crosses segments only at slashes (`IsPinned`), and where the placeholder can stand at any depth
(`Floats`); elsewhere it can find a segment that no reading gives to the placeholder.
-/

namespace TreeLayout.Rules

open Text Glob

namespace Template

section Floating

variable {template : Template}

/-- Whether the placeholder's segment can stand at any depth of a path: only recursive wildcards stand before
it, and only stars between it and a part that crosses segments only at its slashes. -/
structure Floats (template : Template) : Prop where
  single : template.head ++ template.tail ≠ ['*']
  before : template.before ≠ [] ∧ ∀ piece ∈ template.before, piece = ['*', '*']
  after : ∃ (pieces : List (List Char)) (rest : List Char),
    dropSlashes template.trail = pieces.flatMap ('/' :: ·) ++ rest ∧
    (∀ piece ∈ pieces, IsStars piece) ∧ (rest = [] ∨ rest.head? = some '/') ∧ CrossesAsWritten rest

/-- Recursive wildcards in a row are read as one. -/
theorem parse_flatMap_twoStars {pieces : List (List Char)} (hne : pieces ≠ [])
    (h : ∀ piece ∈ pieces, piece = twoStars) :
    Glob.parse false (pieces.flatMap (· ++ ['/'])) = .ok [.leadingStars] := by
  obtain ⟨piece, more, rfl⟩ := List.exists_cons_of_ne_nil hne
  obtain ⟨rfl, hmore⟩ := List.forall_mem_cons.mp h
  clear h hne
  induction more with
  | nil => rfl
  | cons piece more ih =>
    obtain ⟨rfl, hrest⟩ := List.forall_mem_cons.mp hmore
    exact (Opening.leadingStars.parse_withStars (more.flatMap (· ++ ['/']))).trans (ih hrest)

/-- Recursive wildcards match all names before a place. -/
theorem Floats.describes_lead (h : template.Floats) (first : List (List Char)) :
    describes template.lead (first.flatMap (· ++ ['/'])) = true := by
  obtain ⟨hne, hstars⟩ := h.before
  rw [lead, describes_iff (parse_flatMap_twoStars hne hstars), bytes_flatMap_append_slash]
  have hends : (first.map bytes).flatMap (· ++ [slashByte]) = [] ∨
      ((first.map bytes).flatMap (· ++ [slashByte])).getLast? = some slashByte :=
    getLast?_flatMap_separator _
  rcases hends with hnil | hlast
  · rw [hnil]
    exact .left (.left .empty)
  · obtain ⟨skipped, hskipped⟩ := List.getLast?_eq_some_iff.mp hlast
    rw [hskipped]
    exact matches_concat_singleton.mpr (.right (Regular.matches_seq.mpr
      ⟨skipped, [slashByte], Regular.matches_anything _, matches_slash.mpr rfl, rfl⟩))

/-- The end of the path that the part behind the stars matches is in its place, so the stars match the names
between it and any segment that is as far from the end as the placeholder's. -/
theorem Floats.describes_trail (h : template.Floats) {path : List Char} {name other : List Char}
    {first last front back : List (List Char)} (hpath : segments path = first ++ name :: last)
    (hplace : segments path = front ++ other :: back)
    (hcount : back.length = (dropSlashes template.trail).count '/')
    (hlast : describes (dropSlashes template.trail) (last.flatMap ('/' :: ·)) = true) :
    describes (dropSlashes template.trail) (back.flatMap ('/' :: ·)) = true := by
  obtain ⟨pieces, rest, htrail, hpieces, hrest, tokens, hparse, hcrosses⟩ := h.after
  obtain ⟨whole, hwhole, hnames, hends⟩ := exists_parse_stars hpieces hrest hparse
  rw [htrail, describes_iff hwhole] at hlast ⊢
  have hslash (piece : List Char) (hpiece : piece ∈ segments path) : '/' ∉ piece :=
    notMem_of_mem_split hpiece
  have hnone : ∀ piece ∈ pieces, '/' ∉ piece := by
    intro piece hpiece
    rcases hpieces piece hpiece with rfl | rfl <;> decide
  -- Of the names behind the segment, the stars take the first ones and the part behind them the others.
  obtain ⟨names, later, rfl, hlength⟩ : ∃ names later, back = names ++ later ∧
      names.length = pieces.length := by
    refine ⟨back.take pieces.length, back.drop pieces.length, (List.take_append_drop _ _).symm, ?_⟩
    rw [htrail, List.count_append, count_flatMap_separator hnone] at hcount
    exact List.length_take_of_le (by omega)
  rw [htrail, List.count_append, count_flatMap_separator hnone, List.length_append, hlength] at hcount
  obtain ⟨start, after, hcut, hafter⟩ := hends _ hlast
  have hlater : ∀ piece ∈ later, '/' ∉ piece := fun piece hpiece => hslash piece (by simp [hplace, hpiece])
  have hsame : bytes (later.flatMap ('/' :: ·)) = after := by
    have hwords : bytes (front.flatMap (· ++ ['/']) ++ other) ++ bytes (names.flatMap ('/' :: ·)) ++
        bytes (later.flatMap ('/' :: ·)) = bytes (first.flatMap (· ++ ['/']) ++ name) ++ start ++ after := by
      rw [List.append_assoc, List.append_assoc, ← bytes_append, ← List.flatMap_append, ← hcut,
        ← bytes_append, ← bytes_append]
      exact congrArg bytes ((eq_of_segments_eq hplace).symm.trans (eq_of_segments_eq hpath))
    refine eq_of_append_eq_of_count ?_ (head?_of_matches hrest hparse hafter) hwords ?_
    · rw [bytes_flatMap_slash]
      exact head?_flatMap_separator _
    · rw [count_bytes utf8EncodeChar_slash, count_flatMap_separator hlater, hcrosses after hafter]
      omega
  rw [List.flatMap_append, bytes_append, hsame, bytes_flatMap_slash]
  refine hnames _ after (by simpa using hlength) ?_ hafter
  intro piece hpiece
  obtain ⟨piece, hmem, rfl⟩ := List.mem_map.mp hpiece
  exact slashByte_notMem_bytes (hslash piece (by simp [hplace, hmem]))

end Floating

section Place

variable {template : Template} {front back : List Token}
  (hfront : Glob.parse false template.lead = .ok front)
  (hback : Glob.parse false (dropSlashes template.trail) = .ok back) {entry : Entry}
  {value : List Char}

/-- A segment of a reported directory that has another one behind it is a segment of its path. -/
theorem exists_of_segments_report {query : EntryQuery} {name : List Char}
    {first last : List (List Char)} (h : segments (query.report entry).toList = first ++ name :: last)
    (hlast : (if query.directoriesOnly then 1 else 0) ≤ last.length) :
    ∃ later, segments entry.path.toList = first ++ name :: later ∧
      later.length + (if query.directoriesOnly then 1 else 0) = last.length := by
  rw [segments_report] at h
  split at h
  · rename_i hdirectory
    rw [if_pos hdirectory] at hlast ⊢
    obtain ⟨later, other, rfl⟩ := (List.eq_nil_or_concat last).resolve_left (by
      rintro rfl
      exact absurd hlast (by decide))
    rw [List.concat_eq_append, ← List.cons_append, ← List.append_assoc] at h
    exact ⟨later, (List.append_inj' h rfl).1, by simp⟩
  · rename_i hfile
    rw [if_neg hfile, List.append_nil] at *
    exact ⟨last, h, rfl⟩

/-- The segment that a value is captured from stays a segment with the value filled in, unless it is the
empty one behind the slash of a directory. -/
theorem isSegment_of_capture? {query : EntryQuery} (hformed : IsWellFormed entry.path.toList)
    (hcapture : template.capture? (query.report entry).toList = some value)
    (hne : template.name value ≠ []) : IsSegment (template.name value) := by
  obtain ⟨first, last, hreport, -⟩ := capture?_eq_some_iff_locates.mp hcapture
  rw [segments_report] at hreport
  have hname : template.name value ∈ segments entry.path.toList := by
    have hmem : template.name value ∈ first ++ template.name value :: last := by simp
    rw [← hreport, List.mem_append] at hmem
    refine hmem.resolve_right fun hmem => hne ?_
    split at hmem <;> simp_all
  exact ⟨notMem_of_mem_split hname, hne, (hformed _ hname).2.1⟩

include hfront hback

/-- Where the placeholder's segment can stand at any depth, a captured value comes from a name that the other
parts of the pattern surround. -/
theorem Floats.exists_surrounds_of_capture? (htidy : template.IsTidy) (hfloats : template.Floats)
    (h : (template.question front back ['*']).selects entry = true)
    (hcapture : template.capture? ((template.question front back ['*']).report entry).toList =
      some value) :
    ∃ first last, segments entry.path.toList = first ++ template.name value :: last ∧
      template.surrounds first last = true := by
  obtain ⟨first, name, last, hpath, hsurrounds, -⟩ := reads_wildcard hfront hback htidy.toIsCut h
  obtain ⟨before, after, hreport, -, hafter⟩ := capture?_eq_some_iff_locates.mp hcapture
  have hstars : ['*', '*'] ∈ template.before := by
    obtain ⟨piece, hpiece⟩ := List.exists_mem_of_ne_nil _ hfloats.before.1
    exact hfloats.before.2 piece hpiece ▸ hpiece
  have hcount := count_dropSlashes_trail htidy
  have hkind : (template.question front back ['*']).directoriesOnly = endsInSlash template.trail := rfl
  obtain ⟨later, hlater, hlength⟩ := exists_of_segments_report hreport (by
    rw [hafter hstars, hkind]
    omega)
  rw [hafter hstars, hkind] at hlength
  refine ⟨before, later, hlater, Bool.and_eq_true_iff.mpr ⟨hfloats.describes_lead before, ?_⟩⟩
  exact hfloats.describes_trail hpath hlater (by omega) (Bool.and_eq_true_iff.mp hsurrounds).2

end Place

section Question

variable {template : Template} {front back : List Token} {value path : List Char}

/-- Where a pattern with a wildcard for its placeholder is a question, the text behind its segment is a glob,
and its last slash tells whether it asks for directories. -/
theorem exists_parse_of_ofPattern_wildcard (htidy : template.IsTidy)
    (hplain : IsPlain (template.head ++ template.tail)) (hlead : IsGlobText template.lead)
    {query : EntryQuery} (h : EntryQuery.ofPattern (.ofList template.wildcard) = .ok query) :
    query.directoriesOnly = endsInSlash template.trail ∧ IsGlobText (dropSlashes template.trail) := by
  obtain ⟨tokens, hparse, rfl⟩ := EntryQuery.exists_parse_of_ofPattern h
  have hsegment := isSegment_wildcard htidy.toIsCut
  have hname : IsPlain (template.name ['*']) := isPlain_name hplain (by decide)
  have htext := globText_fill htidy hsegment (.inl rfl)
  rw [List.nil_append] at htext
  rw [wildcard, htext] at hparse
  have hglob := (isGlobText_append_iff hlead).mp ⟨tokens, hparse⟩
  refine ⟨?_, (isGlobText_append_iff (exists_parse_of_isPlain hname)).mp hglob⟩
  have hends := endsInSlash_fill htidy hsegment (.inl rfl)
  rw [List.nil_append] at hends
  rwa [String.toList_ofList]

/-- Two stars match every name. -/
theorem Reads.of_name_eq_twoStars {other : List Char} (hname : template.name other = twoStars)
    (h : template.Reads value path) : template.Reads other path := by
  obtain ⟨first, name, last, hpath, hsurrounds, -⟩ := h
  have hmem : name ∈ segments path := by simp [hpath]
  have hslash : slashByte ∉ bytes name := slashByte_notMem_bytes (notMem_of_mem_split hmem)
  refine ⟨first, name, last, hpath, hsurrounds, ?_⟩
  rw [hname, matchesName_iff _ hslash]
  exact Regular.matches_concat_cons.mpr ⟨bytes name, [], matches_star_withinSegment.mpr hslash,
    matches_star_withinSegment.mpr List.not_mem_nil, (List.append_nil _).symm⟩

/-- A value without stars makes two stars only of a segment that has both of them itself. -/
theorem single_of_name_eq_twoStars (hvalue : IsVerbatim value) (h : template.name value = twoStars) :
    template.head ++ template.tail ≠ ['*'] := by
  intro hsingle
  have hnone : value.count '*' = 0 :=
    List.count_eq_zero_of_not_mem fun hstar => hvalue '*' hstar (by decide)
  have hone := congrArg (List.count '*') hsingle
  have htwo := congrArg (List.count '*') h
  simp only [name, twoStars, List.count_append] at hone htwo
  simp at hone htwo
  omega

variable (hfront : Glob.parse false template.lead = .ok front)
  (hback : Glob.parse false (dropSlashes template.trail) = .ok back)

include hfront hback

/-- With a value in the place of its placeholder, a pattern asks for the paths along which it can be read;
where the filled segment is a recursive wildcard, it asks for these among others. -/
theorem exists_ofPattern_substitute {pattern : String}
    (htemplate : ofPattern? pattern.toList = some template) (hone : pattern.toList.count '%' = 1)
    (htidy : template.IsTidy) (hsegment : IsSegment (template.name value))
    (hplain : IsPlain (template.name value)) :
    ∃ query, EntryQuery.ofPattern (substitute value pattern) = .ok query ∧
      query.directoriesOnly = endsInSlash template.trail ∧
      (∀ path, template.Reads value path → query.glob.isMatch path = true) ∧
      (template.name value ≠ twoStars →
        ∀ path, query.glob.isMatch path = true → template.Reads value path) := by
  by_cases hstars : template.name value = twoStars
  · obtain ⟨start, hstart, hsubstitute⟩ := exists_substitute htemplate hone value
    have htrail := head?_dropSlashes template.trail_boundary
    obtain ⟨tokens, hparse, hwords, -⟩ :=
      exists_parse_twoStars template.lead_boundary hfront htrail hback
    have htext := globText_fill htidy hsegment hstart
    rw [hstars] at htext
    rw [← htext] at hparse
    refine ⟨_, hsubstitute ▸ EntryQuery.ofPattern_of_parse hparse, ?_, fun path hreads => ?_,
      fun hne => absurd hstars hne⟩
    · rw [hsubstitute, String.toList_ofList]
      exact endsInSlash_fill htidy hsegment hstart
    · obtain ⟨first, name, last, hpath, hsurrounds, -⟩ := hreads
      obtain ⟨hbefore, hafter⟩ := (surrounds_iff hfront hback).mp hsurrounds
      rcases hwords with hleading | hwords
      · rw [isMatch, Regular.accepts_iff, toRegular, if_pos hleading]
        exact Regular.matches_anything _
      · refine isMatch_of_concat ?_
        rw [eq_of_segments_eq hpath, bytes_append, bytes_append]
        exact hwords _ _ _ hbefore hafter
  · have hquestion := ofPattern_substitute htemplate hone htidy ⟨hsegment, hplain, hstars⟩ hfront hback
    have hreads (path : List Char) : template.Reads value path ↔
        (concat (template.question front back value).glob.tokens).Matches (bytes path) :=
      reads_iff hfront hback hsegment.slash
    refine ⟨_, hquestion, rfl, fun path h => isMatch_of_concat ((hreads path).mp h), fun _ path h => ?_⟩
    exact (hreads path).mpr (concat_of_isMatch (tokens_question_ne hsegment.ne_nil) h)

end Question

end Template

/-- A question for the same kinds of entries reports an entry again exactly if it matches its path. -/
theorem report_mem_iff {snapshot : Snapshot} {query other : EntryQuery}
    (hkind : other.directoriesOnly = query.directoriesOnly) {entry : Entry}
    (hentry : entry ∈ snapshot.entries) (hselects : query.selects entry = true) :
    query.report entry ∈ (snapshot.entries.filter other.selects).map other.report ↔
      other.glob.isMatch entry.path.toList = true := by
  have hreport (entry : Entry) : other.report entry = query.report entry := by
    rw [EntryQuery.report, EntryQuery.report, hkind]
  constructor
  · intro h
    obtain ⟨again, hagain, hsame⟩ := List.mem_map.mp h
    have hpath : again.path = entry.path := by
      rw [hreport, EntryQuery.report, EntryQuery.report] at hsame
      split at hsame
      · exact String.append_left_inj "/" |>.mp hsame
      · exact hsame
    exact hpath ▸ (Bool.and_eq_true_iff.mp (List.mem_filter.mp hagain).2).2
  · intro h
    have hagain : other.selects entry = true :=
      Bool.and_eq_true_iff.mpr ⟨hkind ▸ (Bool.and_eq_true_iff.mp hselects).1, h⟩
    exact List.mem_map.mpr ⟨entry, List.mem_filter.mpr ⟨hentry, hagain⟩, hreport entry⟩

/-- The path of a reported entry is what is left without its last slash. -/
theorem dropSlashes_report {query : EntryQuery} {entry : Entry} (h : IsWellFormed entry.path.toList) :
    dropSlashes (query.report entry).toList = entry.path.toList := by
  rw [EntryQuery.report]
  split
  · rw [String.toList_append]
    exact (dropSlashes_append_slash _).trans (dropSlashes_eq_self h.endsInSlash)
  · exact dropSlashes_eq_self h.endsInSlash

/-- When a captured value is a binding. A pattern with the value in the place of its placeholder matches the
path that the value was captured from exactly if it can be read along the path with a name that the filled
segment matches. That is so for every path where the place of the placeholder's segment follows from its
place in the pattern, and where that segment can stand at any depth. -/
theorem mem_pathsMatching_substitute_iff {pattern : String} {template : Template} {snapshot : Snapshot}
    {paths : List String} {path : String} {value : List Char}
    (htemplate : Template.ofPattern? pattern.toList = some template)
    (hone : pattern.toList.count '%' = 1)
    (hstart : ¬ ['.', '/'] <+: dropDotSlash pattern.toList)
    (hfinish : ¬ ['/', '/'] <:+ pattern.toList)
    (hplain : IsPlain (template.head ++ template.tail)) (hlead : IsGlobText template.lead)
    (hsnapshot : ∀ entry ∈ snapshot.entries, IsWellFormed entry.path.toList)
    (hpaths : snapshot.pathsMatching (.ofList template.wildcard) = .ok paths)
    (hpath : path ∈ paths) (hcapture : template.capture? path.toList = some value)
    (hvalue : IsVerbatim value) :
    (template.name value ≠ [] →
      ∃ again, snapshot.pathsMatching (substitute value pattern) = .ok again ∧
        (path ∈ again ↔ template.Reads value (dropSlashes path.toList))) ∧
    (template.IsPinned ∨ template.Floats →
      ∃ again, snapshot.pathsMatching (substitute value pattern) = .ok again ∧ path ∈ again) := by
  have htidy := Template.isTidy_of_ofPattern? htemplate hstart hfinish
  obtain ⟨query, hquery, rfl⟩ := Snapshot.exists_query_of_pathsMatching hpaths
  obtain ⟨hkind, back, hback⟩ :=
    Template.exists_parse_of_ofPattern_wildcard htidy hplain hlead hquery
  obtain ⟨front, hfront⟩ := hlead
  obtain ⟨entry, hentry, rfl⟩ := List.mem_map.mp hpath
  obtain ⟨hmem, hselects⟩ := List.mem_filter.mp hentry
  have hformed := hsnapshot entry hmem
  -- Without a star beside the placeholder, the question is put together from the parts.
  have hwildcard (hsingle : template.head ++ template.tail ≠ ['*']) :
      template.question front back ['*'] = query := by
    have hname := Template.isName_wildcard htidy.toIsCut hplain hsingle
    exact Except.ok.inj
      ((Template.ofPattern_fill htidy hname (.inl rfl) hfront hback).symm.trans hquery)
  have hagain (hne : template.name value ≠ []) :
      ∃ again, snapshot.pathsMatching (substitute value pattern) = .ok again ∧
        (query.report entry ∈ again ↔ template.Reads value entry.path.toList) := by
    have hsegment := Template.isSegment_of_capture? hformed hcapture hne
    obtain ⟨other, hother, hsame, hmatch, hreads⟩ := Template.exists_ofPattern_substitute hfront hback
      htemplate hone htidy hsegment (Template.isPlain_name hplain hvalue.isPlain)
    refine ⟨_, Snapshot.pathsMatching_of_ofPattern hother snapshot, ?_⟩
    rw [report_mem_iff (hsame.trans hkind.symm) hmem hselects]
    refine ⟨fun h => ?_, hmatch _⟩
    by_cases hstars : template.name value = twoStars
    · rw [← hwildcard (Template.single_of_name_eq_twoStars hvalue hstars)] at hselects
      exact (Template.reads_wildcard hfront hback htidy.toIsCut hselects).of_name_eq_twoStars hstars
    · exact hreads hstars _ h
  refine ⟨fun hne => by rw [dropSlashes_report hformed]; exact hagain hne, fun hplace => ?_⟩
  obtain rfl := hwildcard (hplace.elim (·.single) (·.single))
  obtain ⟨first, last, hsegments, hsurrounds⟩ := hplace.elim
    (Template.exists_surrounds_of_capture? hfront hback htidy · hselects hcapture)
    (Template.Floats.exists_surrounds_of_capture? hfront hback htidy · hselects hcapture)
  have hname : template.name value ∈ segments entry.path.toList := by simp [hsegments]
  obtain ⟨again, hpaths, hiff⟩ := hagain (hformed _ hname).1
  refine ⟨again, hpaths, hiff.mpr ⟨first, _, last, hsegments, hsurrounds, ?_⟩⟩
  exact matchesName_self (notMem_of_mem_split hname)

/-- A file below a directory between two recursive wildcards, where counting finds the directory that the
reading has, and a directory at any depth. -/
theorem mem_pathsMatching_substitute_iff_sources :
    (∃ again, Snapshot.pathsMatching ⟨[⟨"a/x/src/w/y.rs", .file⟩]⟩
        (substitute ['x'] "**/%/src/**/*.rs") = .ok again ∧ "a/x/src/w/y.rs" ∈ again) ∧
    ∃ again, Snapshot.pathsMatching ⟨[⟨"p/q/core.d/r/xy", .directory⟩]⟩
        (substitute ['c', 'o', 'r', 'e'] "./**/%.d/**/x*/") = .ok again ∧ "p/q/core.d/r/xy/" ∈ again := by
  constructor
  · obtain ⟨hexact, -⟩ := @mem_pathsMatching_substitute_iff "**/%/src/**/*.rs"
      ⟨[['*', '*']], [], [], [['s', 'r', 'c'], ['*', '*'], ['*', '.', 'r', 's']]⟩
      ⟨[⟨"a/x/src/w/y.rs", .file⟩]⟩ ["a/x/src/w/y.rs"] "a/x/src/w/y.rs" ['x']
      (by decide +kernel) (by decide +kernel) (by decide +kernel) (by decide +kernel) (by decide)
      ⟨_, rfl⟩ (by decide +kernel) (by decide +kernel) (by decide) (by decide +kernel) (by decide)
    obtain ⟨again, hpaths, hiff⟩ := hexact (by decide)
    refine ⟨again, hpaths, hiff.mpr ?_⟩
    exact ⟨[['a']], ['x'], [['s', 'r', 'c'], ['w'], ['y', '.', 'r', 's']], by decide +kernel⟩
  · obtain ⟨-, hplace⟩ := @mem_pathsMatching_substitute_iff "./**/%.d/**/x*/"
      ⟨[['*', '*']], [], ['.', 'd'], [['*', '*'], ['x', '*'], []]⟩
      ⟨[⟨"p/q/core.d/r/xy", .directory⟩]⟩ ["p/q/core.d/r/xy/"] "p/q/core.d/r/xy/" ['c', 'o', 'r', 'e']
      (by decide +kernel) (by decide +kernel) (by decide +kernel) (by decide +kernel) (by decide)
      ⟨_, rfl⟩ (by decide +kernel) (by decide +kernel) (by decide) (by decide +kernel) (by decide)
    refine hplace (.inr ⟨by decide, ⟨by decide, by decide⟩, [['*', '*']], ['/', 'x', '*'],
      by decide +kernel, by decide, .inr rfl, ?_⟩)
    exact crossesAsWritten_of_isPlain (by decide) (by decide)

/-- Whether a value that means nothing in a glob is captured from a well-formed path that a pattern
matches, and the pattern does not match the path again once the value is filled in. -/
def CapturesWithoutMatch (pattern path : String) (value : List Char) : Prop :=
  ∃ template : Template,
    Template.ofPattern? pattern.toList = some template ∧ pattern.toList.count '%' = 1 ∧
    ¬ ['.', '/'] <+: dropDotSlash pattern.toList ∧ ¬ ['/', '/'] <:+ pattern.toList ∧
    IsWellFormed path.toList ∧
    Snapshot.pathsMatching ⟨[⟨path, .file⟩]⟩ (.ofList template.wildcard) = .ok [path] ∧
    template.capture? path.toList = some value ∧ IsVerbatim value ∧
    Snapshot.pathsMatching ⟨[⟨path, .file⟩]⟩ (substitute value pattern) = .ok []

/-- Counting finds a segment that no reading gives to the placeholder where a recursive wildcard stands on
both sides, and where a group or a class before the segment holds slashes. The ends of the segment are taken
as they are written, so a value need not be a binding either where they hold a class or a lone star, or where
the placeholder is within a class or a group. -/
theorem exists_capture_without_match :
    CapturesWithoutMatch "**/%/src/**/*.rs" "x/src/y/z/w.rs" ['s', 'r', 'c'] ∧
    CapturesWithoutMatch "{a,a/b}/%/**" "a/b/c" ['c'] ∧
    CapturesWithoutMatch "a[!b]c/%/**" "a/c/x/y" ['c'] ∧
    CapturesWithoutMatch "[[]%" "[[]b" ['b'] ∧
    CapturesWithoutMatch "a/*%" "a/*b/c" ['b'] ∧
    CapturesWithoutMatch "[b/%]/b]" "*/b]" ['b'] ∧
    CapturesWithoutMatch "{a/%,c/*}/e" "a/x,c/e" ['x'] := by
  refine ⟨?_, ?_, ?_, ?_, ?_, ?_, ?_⟩
  all_goals exact ⟨_, rfl, by decide +kernel⟩

end TreeLayout.Rules
