import TreeLayout.Proofs.Rules.Stages
import TreeLayout.Proofs.Snapshot.Entries
import TreeLayout.Proofs.Snapshot.Spelling

/-!
# Slashes behind a placeholder

A question about directories is the same however many slashes end it, but a template counts every slash
of its pattern. Where the placeholder's segment is counted from the start of a path, this makes no
difference. Behind a recursive wildcard the segment is counted from the end, and each slash too many moves
it one directory up (`binds_withSlashes`).
-/

namespace TreeLayout

open Text

/-- The directory some levels above another one, both with a slash at their ends; none above the top. -/
def Text.above? (levels : Nat) (path : List Char) : Option (List Char) :=
  let names := (segments path).dropLast
  if levels < names.length then some (join '/' (names.take (names.length - levels) ++ [[]])) else none

/-- The names of a directory above another one are the first of its names. -/
theorem Text.segments_above? {levels : Nat} {path directory : List Char}
    (h : above? levels path = some directory) :
    levels < (segments path).dropLast.length ∧ segments directory =
      (segments path).dropLast.take ((segments path).dropLast.length - levels) ++ [[]] := by
  simp only [above?, Option.ite_none_right_eq_some, Option.some.injEq] at h
  obtain ⟨hlevels, rfl⟩ := h
  refine ⟨hlevels, split_join (List.append_ne_nil_of_right_ne_nil _ (List.cons_ne_nil _ _)) ?_⟩
  intro piece hpiece
  rcases List.mem_append.mp hpiece with hname | hlast
  · exact notMem_of_mem_split (List.dropLast_subset _ (List.mem_of_mem_take hname))
  · rw [List.mem_singleton.mp hlast]
    exact List.not_mem_nil

/-- A directive with some slashes more behind its antecedent. -/
def Directive.withSlashes (directive : Directive) (count : Nat) : Directive :=
  { directive with antecedent :=
      { directive.antecedent with pattern := directive.antecedent.pattern ++ slashes count } }

namespace Rules

/-- Whether a directive is expanded to its instances with some values, in their order. -/
def Binds (matcher : Matcher) (directive : Directive) (values : List (List Char)) : Prop :=
  (expand matcher [directive]).outcome = .ok (values.map directive.fill)

namespace Template

/-- A template with some empty segments more at its end. -/
def withSlashes (template : Template) (count : Nat) : Template :=
  { template with after := template.after ++ List.replicate count [] }

/-- Slashes behind a pattern are empty segments at the end of its template. -/
theorem ofPattern?_append_replicate {pattern : List Char} {template : Template}
    (h : ofPattern? pattern = some template) (count : Nat) :
    ofPattern? (pattern ++ List.replicate count '/') = some (template.withSlashes count) := by
  have hdot : pattern ≠ ['.'] := by
    rintro rfl
    cases h
  unfold ofPattern? at h ⊢
  simp only at h ⊢
  rw [dropDotSlash_append_replicate hdot, segments, split_append_replicate]
  split at h
  · cases h
  · rename_i segment after hdrop
    cases h
    have hfound : (split '/' (dropDotSlash pattern)).dropWhile (fun other => !other.contains '%') =
        segment :: after := hdrop
    have hshort : ((split '/' (dropDotSlash pattern)).takeWhile
        (fun other => !other.contains '%')).length ≠ (split '/' (dropDotSlash pattern)).length := by
      intro hlength
      have hall := List.takeWhile_append_dropWhile (p := fun other : List Char => !other.contains '%')
        (l := split '/' (dropDotSlash pattern))
      have hcount := congrArg List.length hall
      rw [List.length_append, hfound, List.length_cons] at hcount
      omega
    rw [List.dropWhile_append, hfound, List.takeWhile_append, if_neg hshort]
    rfl

/-- A pattern that ends in a slash has a segment after its placeholder's. -/
theorem after_ne_nil {pattern : List Char} {template : Template}
    (h : ofPattern? pattern = some template) (hends : endsInSlash pattern = true) :
    template.after ≠ [] := by
  intro hnil
  obtain ⟨htext, hcut⟩ := exists_of_ofPattern? h
  have hne : pattern ≠ ['.', '/'] := by
    rintro rfl
    cases h
  have hslash := endsInSlash_dropDotSlash hends hne
  rw [htext, fill_eq, trail, hnil, List.flatMap_nil, List.append_nil, endsInSlash_append,
    endsInSlash, decide_eq_true_iff] at hslash
  · have hmem := List.mem_of_getLast? hslash
    simp [name, hcut.head, hcut.tail] at hmem
  · simp [name]

/-- Counted from the start, a segment stays where it is. -/
theorem capture?_withSlashes_of_notMem {template : Template} (h : ['*', '*'] ∉ template.before)
    (count : Nat) (path : List Char) :
    (template.withSlashes count).capture? path = template.capture? path := by
  have hanchor : (template.withSlashes count).anchor = template.anchor := by
    rw [anchor, anchor, if_neg h]
    exact if_neg h
  rw [capture?, capture?, hanchor]
  rfl

/-- The anchor of a template behind a recursive wildcard, in a path with a slash at its end. -/
theorem segment?_anchor_of_mem {template : Template} (h : ['*', '*'] ∈ template.before)
    (hafter : template.after ≠ []) (names : List (List Char)) :
    template.anchor.segment? (names ++ [[]]) =
      if names.length < template.after.length then none
      else names[names.length - template.after.length]? := by
  have hpos : 0 < template.after.length := List.length_pos_iff.mpr hafter
  rw [anchor, if_pos h, Anchor.segment?, List.length_append, List.length_singleton,
    Nat.add_sub_add_right]
  by_cases hshort : names.length < template.after.length
  · rw [if_pos hshort, if_pos (by omega)]
  · rw [if_neg hshort, if_neg (by omega)]
    by_cases hnames : names.length - template.after.length < names.length
    · exact List.getElem?_append_left hnames
    · omega

/-- Counted from the end, a segment moves one directory up with every slash. -/
theorem capture?_withSlashes_of_mem {template : Template} (h : ['*', '*'] ∈ template.before)
    (hafter : template.after ≠ []) (count : Nat) {path : List Char}
    (hpath : endsInSlash path = true) : (template.withSlashes count).capture? path =
      (above? count path).bind template.capture? := by
  have hpos : 0 < template.after.length := List.length_pos_iff.mpr hafter
  obtain ⟨names, hnames⟩ : ∃ names, segments path = names ++ [[]] := by
    obtain ⟨front, rfl⟩ := List.getLast?_eq_some_iff.mp (of_decide_eq_true hpath)
    exact ⟨segments front, split_append_cons front []⟩
  have hmore : (template.withSlashes count).after.length = template.after.length + count := by
    rw [withSlashes, List.length_append, List.length_replicate]
  have hanchor := @segment?_anchor_of_mem (template.withSlashes count) h
    (List.append_ne_nil_of_left_ne_nil hafter _) names
  rw [hmore] at hanchor
  cases habove : above? count path with
  | none =>
    have hlevels : names.length ≤ count := by
      simpa [above?, hnames] using habove
    rw [Option.bind_none, capture?, hnames, hanchor, if_pos (by omega)]
    rfl
  | some directory =>
    obtain ⟨hlevels, hkept⟩ := segments_above? habove
    rw [hnames, List.dropLast_concat] at hlevels hkept
    have hlength : (names.take (names.length - count)).length = names.length - count :=
      List.length_take_of_le (Nat.sub_le ..)
    rw [Option.bind_some, capture?, capture?, hnames, hanchor, hkept, segment?_anchor_of_mem h hafter,
      hlength]
    by_cases hshort : names.length < template.after.length + count
    · rw [if_pos hshort, if_pos (by omega)]
      rfl
    · rw [if_neg hshort, if_neg (by omega), List.getElem?_take_of_lt (by omega), Nat.sub_sub,
        Nat.add_comm count]
      rfl

end Template

section Binding

variable {matcher : Matcher} {directive : Directive} {values : List (List Char)}

/-- A directive with a single placeholder is expanded as its wildcard is answered. -/
theorem outcome_expand_of_single (hone : directive.placeholders = 1)
    (hpositive : directive.antecedent.negated = false) : (expand matcher [directive]).outcome =
      match matcher.paths directive.wildcard with
        | .ok paths => .ok (directive.fillFrom paths)
        | .error error => .error (.query directive.location error) := by
  rw [expand, Inquiry.outcome_bind, Inquiry.outcome_mapM, List.mapM_cons,
    expandDirective_of_single hone hpositive]
  cases matcher.paths directive.wildcard with
  | error error => rfl
  | ok paths => exact congrArg Except.ok (List.append_nil _)

/-- Different values make different instances. -/
theorem fill_injective (hone : directive.placeholders = 1) : Function.Injective directive.fill := by
  intro value other heq
  obtain ⟨front, back, hpattern, hfront, hback⟩ := exists_split_of_count hone
  have htexts := congrArg (fun rule : Directive => rule.antecedent.pattern.toList) heq
  simp only [Directive.fill, Expression.fill, toList_substitute hpattern hfront hback] at htexts
  exact List.append_cancel_left (List.append_cancel_right htexts)

/-- The values of an expansion are what the placeholder stands for in the answers to its wildcard. -/
theorem binds_iff (hone : directive.placeholders = 1)
    (hpositive : directive.antecedent.negated = false) : Binds matcher directive values ↔
      ∃ paths, matcher.paths directive.wildcard = .ok paths ∧
        values = paths.filterMap directive.capture? := by
  rw [Binds, outcome_expand_of_single hone hpositive]
  cases matcher.paths directive.wildcard with
  | error error => simp
  | ok paths =>
    simp only [Except.ok.injEq, Directive.fillFrom, exists_eq_left']
    exact ⟨fun h => (List.map_injective_iff.mpr (fill_injective hone) h).symm, fun h => by rw [h]⟩

theorem placeholders_withSlashes (directive : Directive) (count : Nat) :
    (directive.withSlashes count).placeholders = directive.placeholders := by
  have hnone : (List.replicate count '/').count '%' = 0 :=
    List.count_eq_zero.mpr fun hmem => absurd (List.eq_of_mem_replicate hmem) (by decide)
  rw [Directive.placeholders, Directive.withSlashes, toList_append_slashes, List.count_append, hnone,
    Nat.add_zero, Directive.placeholders]

theorem wildcard_withSlashes (hone : directive.placeholders = 1) (count : Nat) :
    (directive.withSlashes count).wildcard = directive.wildcard ++ slashes count := by
  have hdot : directive.antecedent.pattern.toList ≠ ['.'] := by
    intro heq
    rw [Directive.placeholders, heq] at hone
    cases hone
  have hnone : '%' ∉ List.replicate count '/' :=
    fun hmem => absurd (List.eq_of_mem_replicate hmem) (by decide)
  rw [← String.toList_inj, toList_append_slashes]
  simp only [Directive.wildcard, Directive.withSlashes, substitute, toList_append_slashes,
    String.toList_ofList, dropDotSlash_append_replicate hdot, List.flatMap_append,
    flatMap_of_notMem hnone]

/-- The wildcard of a pattern that ends in a slash asks for directories. -/
theorem endsInSlash_wildcard (hone : directive.placeholders = 1)
    (hends : endsInSlash directive.antecedent.pattern.toList = true) :
    endsInSlash (dropDotSlash directive.wildcard.toList) = true := by
  have hmem : '%' ∈ dropDotSlash directive.antecedent.pattern.toList := by
    rw [Directive.placeholders, ← count_dropDotSlash] at hone
    exact List.count_pos_iff.mp (hone ▸ Nat.one_pos)
  have hne : directive.antecedent.pattern.toList ≠ ['.', '/'] := by
    intro heq
    rw [heq] at hmem
    cases hmem
  obtain ⟨front, hfront⟩ := List.getLast?_eq_some_iff.mp
    (of_decide_eq_true (endsInSlash_dropDotSlash hends hne))
  have hwildcard : directive.wildcard.toList =
      front.flatMap (fun c => if c = '%' then ['*'] else [c]) ++ ['/'] := by
    rw [Directive.wildcard, substitute, String.toList_ofList, String.toList_ofList, hfront,
      List.flatMap_append]
    rfl
  rw [hfront] at hmem
  have hstar : '*' ∈ directive.wildcard.toList := by
    rw [hwildcard]
    refine List.mem_append_left _ (List.mem_flatMap.mpr ⟨'%', ?_, by simp⟩)
    simpa using hmem
  refine endsInSlash_dropDotSlash ?_ fun heq => ?_
  · rw [hwildcard, endsInSlash_append (List.cons_ne_nil _ _)]
    rfl
  · rw [heq] at hstar
    exact absurd hstar (by decide)

end Binding

/-- With more slashes behind it, an antecedent that ends in a slash fails as it does without. If no
recursive wildcard stands before its placeholder, the same values are bound; otherwise each answer binds
what the placeholder stands for as many levels up as there are slashes too many. -/
theorem binds_withSlashes (snapshot : Snapshot) {directive : Directive} {template : Template}
    (hone : directive.placeholders = 1) (hpositive : directive.antecedent.negated = false)
    (htemplate : Template.ofPattern? directive.antecedent.pattern.toList = some template)
    (hends : endsInSlash directive.antecedent.pattern.toList = true) (count : Nat) :
    (∀ error, (expand snapshot.matcher [directive.withSlashes count]).outcome = .error error ↔
      (expand snapshot.matcher [directive]).outcome = .error error) ∧
    (['*', '*'] ∉ template.before → ∀ values,
      Binds snapshot.matcher (directive.withSlashes count) values ↔
        Binds snapshot.matcher directive values) ∧
    (['*', '*'] ∈ template.before → ∀ values,
      Binds snapshot.matcher (directive.withSlashes count) values ↔
        ∃ paths, snapshot.pathsMatching directive.wildcard = .ok paths ∧
          values = paths.filterMap fun path => (above? count path.toList).bind template.capture?) := by
  have hquestion := endsInSlash_wildcard hone hends
  have hanswers : snapshot.matcher.paths (directive.withSlashes count).wildcard =
      snapshot.matcher.paths directive.wildcard := by
    change snapshot.pathsMatching _ = snapshot.pathsMatching _
    rw [Snapshot.pathsMatching_eq_map, Snapshot.pathsMatching_eq_map, wildcard_withSlashes hone,
      EntryQuery.ofPattern_append_slashes_of_endsInSlash hquestion]
  have hmore : (directive.withSlashes count).placeholders = 1 :=
    (placeholders_withSlashes directive count).trans hone
  have hmoreTemplate : Template.ofPattern? (directive.withSlashes count).antecedent.pattern.toList =
      some (template.withSlashes count) := by
    rw [Directive.withSlashes, toList_append_slashes]
    exact Template.ofPattern?_append_replicate htemplate count
  have hcapture : directive.capture? = fun path => template.capture? path.toList := by
    funext path
    rw [Directive.capture?, htemplate, Option.bind_some]
  have hmoreCapture : (directive.withSlashes count).capture? =
      fun path => (template.withSlashes count).capture? path.toList := by
    funext path
    rw [Directive.capture?, hmoreTemplate, Option.bind_some]
  refine ⟨fun error => ?_, fun hstars values => ?_, fun hstars values => ?_⟩
  · rw [outcome_expand_of_single hmore hpositive, outcome_expand_of_single hone hpositive, hanswers]
    cases snapshot.matcher.paths directive.wildcard <;> simp [Directive.withSlashes]
  · simp only [binds_iff hmore hpositive, binds_iff hone hpositive, hanswers, hcapture, hmoreCapture,
      Template.capture?_withSlashes_of_notMem hstars]
  · rw [binds_iff hmore hpositive, hanswers, hmoreCapture]
    refine exists_congr fun paths => and_congr_right fun hpaths => ?_
    have hpath : ∀ path ∈ paths, (template.withSlashes count).capture? path.toList =
        (above? count path.toList).bind template.capture? := fun path hmem =>
      Template.capture?_withSlashes_of_mem hstars (Template.after_ne_nil htemplate hends) count
        (snapshot.endsInSlash_of_mem_pathsMatching hquestion hpaths path hmem)
    rw [List.filterMap_congr hpath]

/-- A slash too many behind a recursive wildcard: the two deeper directories yield the names above theirs,
and the top one yields nothing. -/
theorem binds_withSlashes_parents :
    Binds (Snapshot.matcher ⟨[⟨"a", .directory⟩, ⟨"a/b", .directory⟩, ⟨"a/b/c", .directory⟩,
      ⟨"a/b/x", .file⟩]⟩) (Directive.withSlashes ⟨⟨"./**/%/", false⟩, none, ⟨"rules", 1⟩⟩ 1)
      [['a'], ['b']] := by
  have hbinds := @binds_withSlashes ⟨[⟨"a", .directory⟩, ⟨"a/b", .directory⟩,
    ⟨"a/b/c", .directory⟩, ⟨"a/b/x", .file⟩]⟩ ⟨⟨"./**/%/", false⟩, none, ⟨"rules", 1⟩⟩
    ⟨[['*', '*']], [], [], [[]]⟩ (by decide) rfl (by decide +kernel) (by decide) 1
  refine (hbinds.2.2 (by decide) _).mpr ⟨["a/", "a/b/", "a/b/c/"], ?_, ?_⟩
  · decide +kernel
  · decide +kernel

/-- One slash more changes the values of a placeholder behind a recursive wildcard: the directory `a/b/`
no longer yields its own name. -/
theorem exists_binds_withSlashes_ne : ∃ paths directive values,
    (∀ path ∈ paths, IsWellFormed (dropLastOf '/' path.toList)) ∧
    directive.placeholders = 1 ∧ directive.antecedent.negated = false ∧
    endsInSlash directive.antecedent.pattern.toList = true ∧
    Binds (Snapshot.ofPaths paths).matcher directive values ∧
    ¬ Binds (Snapshot.ofPaths paths).matcher (directive.withSlashes 1) values := by
  refine ⟨["a/", "a/b/"], ⟨⟨"**/%/", false⟩, some ⟨"docs/%.md", false⟩, ⟨".treeguard", 1⟩⟩,
    [['a'], ['b']], by decide, by decide, rfl, by decide, ?_⟩
  have hentries : Snapshot.ofPaths ["a/", "a/b/"] =
      ⟨[⟨"a", .directory⟩, ⟨"a/b", .directory⟩]⟩ := by
    rw [Snapshot.ofPaths, Snapshot.ofEntries_of_pairwise (by decide +kernel)]
    decide +kernel
  rw [hentries, Binds, Binds]
  decide +kernel

end Rules

end TreeLayout
