import TreeLayout.Proofs.Rules.Capture
import TreeLayout.Proofs.Snapshot.Query

/-!
# Filling in captured values

With a value in the place of its placeholder, a pattern asks for the paths along which it can be read
(`Template.Reads`): one name matches the filled segment, and the parts of the pattern around it match the
names before and after that one. Where the place of the placeholder's segment in a path follows from its place
in the pattern (`Template.IsPinned`), a captured value is such a name, so the path is selected again
(`Template.selects_of_capture?`).
-/

namespace TreeLayout.Rules

open Text Glob

/-- Whether a text has none of the characters that mean something in a glob. -/
def IsVerbatim (text : List Char) : Prop :=
  ∀ c ∈ text, c ∉ ['*', '?', '[', ']', '\x7b', '\x7d', '\\']

instance (text : List Char) : Decidable (IsVerbatim text) :=
  List.decidableBAll _ text

theorem IsVerbatim.isPlain {text : List Char} (h : IsVerbatim text) : IsPlain text := by
  intro c hc
  have hnone := h c hc
  simp only [List.mem_cons, not_or] at hnone
  exact ⟨hnone.2.2.1, hnone.2.2.2.2.1, hnone.2.2.2.2.2.1, hnone.2.2.2.2.2.2.1⟩

namespace Template

/-- Whether the place of the placeholder's segment in a matched path follows from its place in the
pattern: the segment stands for itself, outside of groups and classes, and the part of the pattern
that it is counted over crosses segments only where it has slashes. -/
structure IsPinned (template : Template) : Prop where
  plain : IsPlain (template.head ++ template.tail)
  single : template.head ++ template.tail ≠ ['*']
  lead : ∃ tokens, Glob.parse false template.lead = .ok tokens
  counted : CrossesAsWritten
    (if ['*', '*'] ∈ template.before then dropSlashes template.trail else template.lead)

/-- A template of a pattern with at most one `./` at its start and at most one slash at its end. -/
structure IsTidy (template : Template) : Prop extends template.IsCut where
  start : template.before.head? ≠ some ['.']
  finish : ¬ ['/', '/'] <:+ template.trail

/-- Tidy patterns have tidy templates. -/
theorem isTidy_of_ofPattern? {pattern : List Char} {template : Template}
    (h : ofPattern? pattern = some template) (hstart : ¬ ['.', '/'] <+: dropDotSlash pattern)
    (hfinish : ¬ ['/', '/'] <:+ pattern) : template.IsTidy := by
  obtain ⟨htext, hcut⟩ := exists_of_ofPattern? h
  refine ⟨hcut, fun hdot => ?_, fun hslashes => ?_⟩
  · obtain ⟨rest, hrest⟩ := List.head?_eq_some_iff.mp hdot
    rw [htext, fill_eq, lead, hrest] at hstart
    exact hstart ⟨_, List.append_assoc ['.', '/'] _ _⟩
  · have hsuffix := dropDotSlash_isSuffix pattern
    rw [htext, fill_eq] at hsuffix
    exact hfinish (hslashes.trans ((List.suffix_append _ _).trans hsuffix))

/-- A text that stays a segment wherever it stands in a pattern. -/
structure IsSegment (text : List Char) : Prop where
  slash : '/' ∉ text
  ne_nil : text ≠ []
  ne_dot : text ≠ ['.']

/-- A segment that a glob reads character by character. -/
structure IsName (text : List Char) : Prop extends IsSegment text where
  plain : IsPlain text
  ne_stars : text ≠ ['*', '*']

section Fill

variable {template : Template} {value start : List Char}

/-- A leading `./` of the pattern means nothing. -/
theorem dropDotSlash_fill (htidy : template.IsTidy) (hname : IsSegment (template.name value))
    (hstart : start = [] ∨ start = ['.', '/']) :
    dropDotSlash (start ++ template.fill value) = template.fill value := by
  rcases hstart with rfl | rfl
  · refine dropDotSlash_eq_self (not_dotSlash_join (by simp) ?_ ?_)
    · intro piece hpiece
      rcases List.mem_append.mp hpiece with hbefore | hrest
      · exact htidy.before piece hbefore
      · rcases List.mem_cons.mp hrest with rfl | hafter
        · exact hname.slash
        · exact htidy.after piece hafter
    · cases hbefore : template.before with
      | nil => exact fun h => hname.ne_dot (Option.some.inj h)
      | cons first rest => simpa [hbefore] using htidy.start
  · rfl

/-- The glob of a filled pattern. -/
theorem globText_fill (htidy : template.IsTidy) (hname : IsSegment (template.name value))
    (hstart : start = [] ∨ start = ['.', '/']) :
    EntryQuery.globText (.ofList (start ++ template.fill value)) =
      template.lead ++ (template.name value ++ dropSlashes template.trail) := by
  obtain ⟨front, c, hlast⟩ := List.eq_nil_or_concat (template.name value) |>.resolve_left hname.ne_nil
  have hc : c ≠ '/' := fun h => hname.slash (by simp [hlast, h])
  rw [EntryQuery.globText, String.toList_ofList, dropDotSlash_fill htidy hname hstart, fill_eq, hlast]
  have hdrop := dropSlashes_append (template.lead ++ front) hc template.trail
  simpa using hdrop

/-- A filled pattern asks for directories exactly if the pattern does. -/
theorem endsInSlash_fill (htidy : template.IsTidy) (hname : IsSegment (template.name value))
    (hstart : start = [] ∨ start = ['.', '/']) :
    endsInSlash (dropDotSlash (start ++ template.fill value)) = endsInSlash template.trail := by
  rw [dropDotSlash_fill htidy hname hstart, fill_eq]
  cases htrail : template.trail with
  | nil =>
    rw [List.append_nil, endsInSlash_append hname.ne_nil, endsInSlash, endsInSlash,
      List.getLast?_nil, decide_eq_decide]
    simp only [reduceCtorEq, iff_false]
    exact fun h => hname.slash (List.mem_of_getLast? h)
  | cons => exact endsInSlash_append (List.cons_ne_nil _ _)

/-- The question that a filled pattern asks. -/
def question (template : Template) (front back : List Token) (value : List Char) : EntryQuery :=
  ⟨⟨.ofList (template.lead ++ (template.name value ++ dropSlashes template.trail)),
    front ++ (template.name value).map Token.ofChar ++ back⟩, endsInSlash template.trail⟩

/-- With a segment for its placeholder, a question is not read as leading stars alone. -/
theorem tokens_question_ne {front back : List Token} (hne : template.name value ≠ []) :
    (template.question front back value).glob.tokens ≠ [.leadingStars] := by
  obtain ⟨c, hc⟩ := List.exists_mem_of_ne_nil _ hne
  intro htokens
  have hmem : Token.ofChar c ∈ (template.question front back value).glob.tokens :=
    List.mem_append_left _ (List.mem_append_right _ (List.mem_map_of_mem hc))
  rw [htokens, List.mem_singleton] at hmem
  unfold Token.ofChar at hmem
  split at hmem <;> cases hmem

/-- The tokens of a filled pattern are those of its parts. -/
theorem parse_fill (hname : IsName (template.name value)) {front : List Token}
    (hfront : Glob.parse false template.lead = .ok front) :
    Glob.parse false (template.lead ++ (template.name value ++ dropSlashes template.trail)) =
      (Glob.parse false (dropSlashes template.trail)).map
        (front ++ (template.name value).map Token.ofChar ++ ·) := by
  have htrail := head?_dropSlashes template.trail_boundary
  exact parse_append_segment template.lead_boundary hfront hname.plain hname.slash hname.ne_stars
    htrail

/-- A filled pattern asks a question whose glob is put together from the parts. -/
theorem ofPattern_fill (htidy : template.IsTidy) (hname : IsName (template.name value))
    (hstart : start = [] ∨ start = ['.', '/']) {front back : List Token}
    (hfront : Glob.parse false template.lead = .ok front)
    (hback : Glob.parse false (dropSlashes template.trail) = .ok back) :
    EntryQuery.ofPattern (.ofList (start ++ template.fill value)) =
      .ok (template.question front back value) := by
  have hparse : Glob.parse false (EntryQuery.globText (.ofList (start ++ template.fill value))) =
      .ok (front ++ (template.name value).map Token.ofChar ++ back) := by
    rw [globText_fill htidy hname.toIsSegment hstart, parse_fill hname hfront, hback]
    rfl
  rw [EntryQuery.ofPattern_of_parse hparse, globText_fill htidy hname.toIsSegment hstart,
    String.toList_ofList, endsInSlash_fill htidy hname.toIsSegment hstart]
  rfl

/-- Read as a wildcard, the placeholder's segment stays a segment. -/
theorem isSegment_wildcard (hcut : template.IsCut) : IsSegment (template.name ['*']) := by
  refine ⟨by simp [name, hcut.head, hcut.tail], by simp [name], fun h => ?_⟩
  have hmem : '*' ∈ template.name ['*'] := by simp [name]
  rw [h] at hmem
  exact absurd hmem (by decide)

end Fill

section Reading

variable {template : Template} {value path : List Char}

/-- Whether the parts of a pattern around its placeholder's segment match the names before and after a place
of a path. -/
def surrounds (template : Template) (first last : List (List Char)) : Bool :=
  describes template.lead (first.flatMap (· ++ ['/'])) &&
    describes (dropSlashes template.trail) (last.flatMap ('/' :: ·))

/-- Whether a pattern with a value in the place of its placeholder can be read along a path: the filled
segment matches one of its names, and the parts around the segment match the names around that one. -/
def Reads (template : Template) (value path : List Char) : Prop :=
  ∃ first name last, segments path = first ++ name :: last ∧ template.surrounds first last = true ∧
    matchesName (template.name value) (bytes name) = true

variable {front back : List Token} (hfront : Glob.parse false template.lead = .ok front)
  (hback : Glob.parse false (dropSlashes template.trail) = .ok back)

include hfront hback

theorem surrounds_iff {first last : List (List Char)} :
    template.surrounds first last = true ↔
      (concat front).Matches (bytes (first.flatMap (· ++ ['/']))) ∧
        (concat back).Matches (bytes (last.flatMap ('/' :: ·))) := by
  rw [surrounds, Bool.and_eq_true, describes_iff hfront, describes_iff hback]

/-- A pattern is read along a path in one way or another exactly if its tokens describe the path. -/
theorem reads_iff (hslash : '/' ∉ template.name value) : template.Reads value path ↔
    (concat (front ++ (template.name value).map Token.ofChar ++ back)).Matches (bytes path) := by
  have htrail := head?_dropSlashes template.trail_boundary
  rw [matches_between_iff template.lead_boundary hfront hslash htrail hback]
  refine exists_congr fun first => exists_congr fun name => exists_congr fun last => ?_
  refine and_congr_right fun hpath => ?_
  have hmem : name ∈ segments path := by simp [hpath]
  have hnone : slashByte ∉ bytes name := slashByte_notMem_bytes (notMem_of_mem_split hmem)
  rw [surrounds_iff hfront hback, matchesName_iff _ hnone, and_assoc]
  exact and_congr_right fun _ => and_comm

/-- A filled pattern selects the entries along which it can be read. -/
theorem selects_question_iff (hslash : '/' ∉ template.name value) (hne : template.name value ≠ [])
    {entry : Entry} : (template.question front back value).selects entry = true ↔
      (endsInSlash template.trail = true → entry.isDirectory = true) ∧
        template.Reads value entry.path.toList := by
  have hkind : (!endsInSlash template.trail || entry.isDirectory) = true ↔
      (endsInSlash template.trail = true → entry.isDirectory = true) := by
    cases endsInSlash template.trail <;> simp
  have hmatch : (template.question front back value).glob.isMatch entry.path.toList = true ↔
      (concat (template.question front back value).glob.tokens).Matches (bytes entry.path.toList) :=
    ⟨concat_of_isMatch (tokens_question_ne hne), isMatch_of_concat⟩
  rw [reads_iff hfront hback hslash, EntryQuery.selects, Bool.and_eq_true, hmatch]
  exact and_congr_left fun _ => hkind

/-- The entries that the wildcard selects are those along which it can be read. -/
theorem reads_wildcard (hcut : template.IsCut) {entry : Entry}
    (h : (template.question front back ['*']).selects entry = true) :
    template.Reads ['*'] entry.path.toList := by
  have hsegment := isSegment_wildcard hcut
  exact ((selects_question_iff hfront hback hsegment.slash hsegment.ne_nil).mp h).2

end Reading

section Place

variable {template : Template}

/-- The slashes of the text after the placeholder's segment, without the one that asks for
directories. -/
theorem count_dropSlashes_trail (htidy : template.IsTidy) :
    (dropSlashes template.trail).count '/' + (if endsInSlash template.trail then 1 else 0) =
      template.after.length := by
  rw [← htidy.count_trail]
  conv_rhs => rw [eq_dropSlashes_append htidy.finish, List.count_append]
  split <;> rfl

/-- A directory is reported with an empty segment at its end. -/
theorem segments_report (query : EntryQuery) (entry : Entry) :
    segments (query.report entry).toList =
      segments entry.path.toList ++ if query.directoriesOnly then [[]] else [] := by
  unfold EntryQuery.report
  split
  · rw [String.toList_append, segments, show "/".toList = '/' :: [] from rfl, split_append_cons]
    rfl
  · rw [List.append_nil]

/-- Where a pattern can be read, the segment in the placeholder's place is the one that is counted. -/
theorem locates_of_surrounds (htidy : template.IsTidy) (hpinned : template.IsPinned)
    {path name : List Char} {first last : List (List Char)}
    (hpath : segments path = first ++ name :: last) (h : template.surrounds first last = true) :
    template.Locates (segments path ++ if endsInSlash template.trail then [[]] else []) name := by
  obtain ⟨hbefore, hafter⟩ := Bool.and_eq_true_iff.mp h
  have hslash (other : List Char) (hother : other ∈ first ++ name :: last) : '/' ∉ other :=
    notMem_of_mem_split (hpath ▸ hother)
  refine ⟨first, last ++ if endsInSlash template.trail then [[]] else [], by simp [hpath], ?_, ?_⟩
  · intro hstars
    have hcounted := hpinned.counted
    rw [if_neg hstars] at hcounted
    rw [← htidy.count_lead, ← hcounted.count_eq hbefore, count_flatMap_append_separator]
    exact fun other hother => hslash other (List.mem_append_left _ hother)
  · intro hstars
    have hcounted := hpinned.counted
    rw [if_pos hstars] at hcounted
    rw [← count_dropSlashes_trail htidy, ← hcounted.count_eq hafter, count_flatMap_separator]
    · rw [List.length_append]
      split <;> rfl
    · exact fun other hother => hslash other (by simp [hother])

variable {front back : List Token} (hfront : Glob.parse false template.lead = .ok front)
  (hback : Glob.parse false (dropSlashes template.trail) = .ok back)

include hfront hback

/-- An entry that the wildcard selects has a segment in the placeholder's place that the placeholder's
segment matches, between names that the other parts match. -/
theorem exists_name_of_selects (htidy : template.IsTidy) (hpinned : template.IsPinned) {entry : Entry}
    (h : (template.question front back ['*']).selects entry = true) :
    ∃ first name last, segments entry.path.toList = first ++ name :: last ∧
      template.surrounds first last = true ∧ matchesName (template.name ['*']) (bytes name) = true ∧
      template.Locates (segments ((template.question front back ['*']).report entry).toList) name := by
  obtain ⟨first, name, last, hpath, hsurrounds, hname⟩ := reads_wildcard hfront hback htidy.toIsCut h
  refine ⟨first, name, last, hpath, hsurrounds, hname, ?_⟩
  rw [segments_report]
  exact locates_of_surrounds htidy hpinned hpath hsurrounds

/-- A captured value comes from a name that the other parts of the pattern surround. -/
theorem exists_surrounds_of_capture? (htidy : template.IsTidy) (hpinned : template.IsPinned)
    {entry : Entry} (h : (template.question front back ['*']).selects entry = true)
    {value : List Char}
    (hcapture : template.capture? ((template.question front back ['*']).report entry).toList =
      some value) :
    ∃ first last, segments entry.path.toList = first ++ template.name value :: last ∧
      template.surrounds first last = true := by
  obtain ⟨first, name, last, hpath, hsurrounds, -, hlocates⟩ :=
    exists_name_of_selects hfront hback htidy hpinned h
  rw [capture?_eq_some, segment?_anchor_eq_some_iff.mpr hlocates, Option.some.injEq] at hcapture
  exact ⟨first, last, hcapture ▸ hpath, hsurrounds⟩

/-- An entry from which a value is captured is selected again once the value is filled in. -/
theorem selects_of_capture? (htidy : template.IsTidy) (hpinned : template.IsPinned) {entry : Entry}
    (h : (template.question front back ['*']).selects entry = true) {value : List Char}
    (hcapture : template.capture? ((template.question front back ['*']).report entry).toList =
      some value) :
    (template.question front back value).selects entry = true ∧
      template.name value ∈ segments entry.path.toList := by
  obtain ⟨first, last, hpath, hsurrounds⟩ :=
    exists_surrounds_of_capture? hfront hback htidy hpinned h hcapture
  have hmem : template.name value ∈ segments entry.path.toList := by simp [hpath]
  have hslash : '/' ∉ template.name value := notMem_of_mem_split hmem
  refine ⟨Bool.and_eq_true_iff.mpr ⟨(Bool.and_eq_true_iff.mp h).1, isMatch_of_concat ?_⟩, hmem⟩
  exact (reads_iff hfront hback hslash).mp ⟨first, _, last, hpath, hsurrounds, matchesName_self hslash⟩

end Place

section Names

variable {template : Template} {value : List Char}

/-- A plain segment with a plain value is plain. -/
theorem isPlain_name (hplain : IsPlain (template.head ++ template.tail)) (hvalue : IsPlain value) :
    IsPlain (template.name value) := by
  intro c hc
  simp only [name, List.mem_append] at hc
  rcases hc with (hhead | hc) | htail
  · exact hplain c (List.mem_append_left _ hhead)
  · exact hvalue c hc
  · exact hplain c (List.mem_append_right _ htail)

/-- Only a star beside the placeholder makes two stars of its segment, read as a wildcard. -/
theorem name_wildcard_ne (hsingle : template.head ++ template.tail ≠ ['*']) :
    template.name ['*'] ≠ ['*', '*'] := by
  intro h
  have hperm : (template.name ['*']).Perm ('*' :: (template.head ++ template.tail)) := by
    rw [name, List.append_assoc]
    exact List.perm_middle
  rw [h] at hperm
  exact hsingle (List.perm_singleton.mp (List.Perm.cons_inv hperm).symm)

/-- Read as a wildcard, the placeholder's segment can be read character by character. -/
theorem isName_wildcard (hcut : template.IsCut) (hplain : IsPlain (template.head ++ template.tail))
    (hsingle : template.head ++ template.tail ≠ ['*']) : IsName (template.name ['*']) :=
  ⟨isSegment_wildcard hcut, isPlain_name hplain (by decide), name_wildcard_ne hsingle⟩

/-- Filled with a value that means nothing in a glob, the placeholder's segment can be read
character by character where it is a segment of a well-formed path. -/
theorem isName_of_mem_segments (hplain : IsPlain (template.head ++ template.tail)) {path : List Char}
    (hvalue : IsVerbatim value) (hstars : template.name value ≠ ['*', '*'])
    (hpath : IsWellFormed path) (hmem : template.name value ∈ segments path) :
    IsName (template.name value) := by
  obtain ⟨hne, hdot, -⟩ := hpath _ hmem
  exact ⟨⟨notMem_of_mem_split hmem, hne, hdot⟩, isPlain_name hplain hvalue.isPlain, hstars⟩

end Names

end Template

/-- The question that a pattern asks once a value is filled in, as it is written. -/
theorem ofPattern_substitute {pattern : String} {template : Template}
    (htemplate : Template.ofPattern? pattern.toList = some template)
    (hone : pattern.toList.count '%' = 1) (htidy : template.IsTidy) {value : List Char}
    (hname : Template.IsName (template.name value)) {front back : List Token}
    (hfront : Glob.parse false template.lead = .ok front)
    (hback : Glob.parse false (dropSlashes template.trail) = .ok back) :
    EntryQuery.ofPattern (substitute value pattern) = .ok (template.question front back value) := by
  obtain ⟨start, hdot, hsubstitute⟩ := exists_substitute htemplate hone value
  rw [hsubstitute]
  exact Template.ofPattern_fill htidy hname hdot hfront hback

end TreeLayout.Rules
