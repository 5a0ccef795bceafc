import TreeLayout.Proofs.Glob.Outline
import TreeLayout.Proofs.Rules.Instances
import TreeLayout.Proofs.Rules.Locality
import TreeLayout.Proofs.Snapshot.Entries
import TreeLayout.Proofs.Snapshot.Query

/-!
# Compiling against a snapshot

A snapshot tells whether there is an answer as it lists the answers, so a text is compiled in the same
way where existence is looked up in the lists (`compile_matcher_eq_ofPaths`).

Whether a snapshot has an answer at all depends on the pattern alone. What a text needs of a tree is
therefore that the values of its placeholders, which are filled in as they are, leave globs behind
(`compile_ofPaths_iff_admits`).
-/

namespace TreeLayout

open Text

namespace EntryQuery

/-- A pattern is a question if its glob can be read. -/
theorem forall_ne_error_iff {pattern : String} :
    (∀ error, ofPattern pattern ≠ .error error) ↔ Glob.IsGlobText (globText pattern) := by
  cases hquery : ofPattern pattern with
  | ok query =>
    obtain ⟨tokens, hparse, -⟩ := exists_parse_of_ofPattern hquery
    exact ⟨fun _ => ⟨tokens, hparse⟩, fun _ _ h => by cases h⟩
  | error error =>
    refine ⟨fun h => absurd rfl (h error), fun h => ?_⟩
    obtain ⟨tokens, hparse⟩ := h
    cases (ofPattern_of_parse hparse).symm.trans hquery

end EntryQuery

namespace Rules

/-- A text is compiled against a snapshot in the same way where a matcher has only the lists of the
snapshot, and looks up in them whether there is an answer. -/
theorem compile_matcher_eq_ofPaths (file text : String) (snapshot : Snapshot) :
    (∀ pattern, snapshot.matcher.existence pattern =
      (Matcher.ofPaths snapshot.pathsMatching).existence pattern) ∧
    compile file text snapshot.matcher = compile file text (.ofPaths snapshot.pathsMatching) := by
  have hmatcher : snapshot.matcher = .ofPaths snapshot.pathsMatching :=
    congrArg (Matcher.mk snapshot.pathsMatching) (funext snapshot.anyMatching_eq_existence)
  exact ⟨snapshot.anyMatching_eq_existence, congrArg (compile file text) hmatcher⟩

open Glob EntryQuery

section Filling

variable {pattern : String} {front back value : List Char}

/-- The values with which a plain pattern stays a glob: the globs, and where something other than slashes
follows the placeholder, also a glob with a backslash behind it. -/
def Admits (pattern : String) (value : List Char) : Prop :=
  IsGlobText value ∨ (dropSlashes pattern.toList).getLast? ≠ some '%' ∧
    ∃ lead, value = lead ++ ['\\'] ∧ IsGlobText lead

/-- A value that is not plain keeps its place between the two ends of a pattern. -/
theorem globText_substitute (hpattern : pattern.toList = front ++ '%' :: back) (hfront : '%' ∉ front)
    (hback : '%' ∉ back) (hslash : '/' ∉ value) (hvalue : ¬ IsPlain value) :
    globText (substitute value pattern) = dropDotSlash front ++ value ++ dropSlashes back := by
  have hne : value ≠ [] := by
    rintro rfl
    exact hvalue (by decide)
  have hdot : value ≠ ['.'] := by
    rintro rfl
    exact hvalue (by decide)
  rw [globText, toList_substitute hpattern hfront hback, dropDotSlash_append front hslash hne hdot]
  obtain ⟨first, last, rfl⟩ := List.eq_nil_or_concat value |>.resolve_left hne
  have hlast : last ≠ '/' := fun h => hslash (by simp [h])
  have hcut := dropSlashes_append (dropDotSlash front ++ first) hlast back
  simpa using hcut

/-- Whether something other than slashes follows the placeholder is told by the end of the pattern. -/
theorem getLast?_dropSlashes_ne_iff (hback : '%' ∉ back) :
    (dropSlashes (front ++ '%' :: back)).getLast? ≠ some '%' ↔ dropSlashes back ≠ [] := by
  rw [dropSlashes_append front (by decide) back]
  cases hcut : dropSlashes back with
  | nil => simp
  | cons c rest =>
    refine iff_of_true (fun hlast => hback ?_) (List.cons_ne_nil c rest)
    rw [List.getLast?_append, List.getLast?_cons_cons] at hlast
    have hmem : '%' ∈ dropSlashes back := by
      rw [hcut]
      exact List.mem_of_getLast? (by simpa using hlast)
    exact (dropSlashes_isPrefix back).subset hmem

/-- A plain pattern with a placeholder is filled in to a glob by the values that it admits. -/
theorem isGlobText_substitute_iff (hplain : IsPlain pattern.toList) (hclose : ']' ∉ pattern.toList)
    (hone : pattern.toList.count '%' = 1) (hslash : '/' ∉ value) :
    IsGlobText (globText (substitute value pattern)) ↔ Admits pattern value := by
  obtain ⟨front, back, hpattern, hfront, hback⟩ := exists_split_of_count hone
  have hends (c : Char) (hc : c ∈ front ∨ c ∈ back) : c ∈ pattern.toList := by
    rw [hpattern, List.mem_append, List.mem_cons]
    exact hc.imp_right .inr
  by_cases hvalue : IsPlain value
  · refine iff_of_true (exists_parse_of_isPlain fun c hc => ?_) (.inl (exists_parse_of_isPlain hvalue))
    have hfilled : c ∈ (substitute value pattern).toList :=
      (dropDotSlash_isSuffix _).subset ((dropSlashes_isPrefix _).subset hc)
    rw [toList_substitute hpattern hfront hback, List.mem_append, List.mem_append] at hfilled
    obtain (hc | hc) | hc := hfilled
    · exact hplain c (hends c (.inl hc))
    · exact hvalue c hc
    · exact hplain c (hends c (.inr hc))
  · have hlead : IsPlain (dropDotSlash front) := fun c hc =>
      hplain c (hends c (.inl ((dropDotSlash_isSuffix front).subset hc)))
    have hcut : dropSlashes back ⊆ back := (dropSlashes_isPrefix back).subset
    rw [globText_substitute hpattern hfront hback hslash hvalue, Admits, hpattern,
      getLast?_dropSlashes_ne_iff hback]
    exact isGlobText_between_iff hlead (fun c hc => hplain c (hends c (.inr (hcut hc))))
      fun hmem => hclose (hends _ (.inr (hcut hmem)))

end Filling

section Independence

variable {snapshot other : Snapshot} {directive : Directive}

/-- Whether a directive is expanded does not depend on the snapshot. -/
theorem expansionFails_matcher {error : Error} (h : ExpansionFails other.matcher directive error) :
    ExpansionFails snapshot.matcher directive error := by
  cases h with
  | negated hplaceholder hnegated => exact .negated hplaceholder hnegated
  | several hplaceholder hplain => exact .several hplaceholder hplain
  | query hplaceholder hplain hquery =>
    have herror := other.pathsMatching_eq_error_iff.mp hquery
    exact .query hplaceholder hplain (snapshot.pathsMatching_eq_error_iff.mpr herror)

/-- A directive is resolved if it is unconditional, or its antecedent is a glob. -/
theorem resolves_matcher_iff : (∀ error, ¬ ResolutionFails snapshot.matcher directive error) ↔
    (directive.consequence ≠ none → IsGlobText (globText directive.antecedent.pattern)) := by
  rw [← forall_ne_error_iff]
  constructor
  · intro h hconditional error hquery
    obtain ⟨consequence, hconsequence⟩ := Option.ne_none_iff_exists'.mp hconditional
    exact h _ (.query hconsequence (snapshot.anyMatching_eq_error_iff.mpr hquery))
  · intro h error hfails
    obtain ⟨hconsequence, hquery⟩ := hfails
    exact h (by simp [hconsequence]) _ (snapshot.anyMatching_eq_error_iff.mp hquery)

theorem consequence_fill_ne_none_iff {value : List Char} :
    (directive.fill value).consequence ≠ none ↔ directive.consequence ≠ none :=
  Option.map_eq_none_iff.not

/-- The values in a path with which a directive has a glob as its antecedent. -/
theorem isGlobText_fill_iff {path : String} {value : List Char}
    (hplain : IsPlain directive.antecedent.pattern.toList ∧ ']' ∉ directive.antecedent.pattern.toList)
    (hone : directive.placeholders = 1) (hcapture : directive.capture? path = some value) :
    IsGlobText (globText (directive.fill value).antecedent.pattern) ↔
      Admits directive.antecedent.pattern value := by
  obtain ⟨segment, hsegment, hsubset⟩ := exists_segment_of_capture? hcapture
  have hslash : '/' ∉ value := fun hmem => notMem_of_mem_split hsegment (hsubset hmem)
  exact isGlobText_substitute_iff hplain.1 hplain.2 hone hslash

/-- A directive that succeeds for one snapshot succeeds for another if it admits the values in it. -/
theorem succeeds_matcher_iff (hother : Succeeds other.matcher directive)
    (hplain : '%' ∈ directive.antecedent.pattern.toList →
      IsPlain directive.antecedent.pattern.toList ∧ ']' ∉ directive.antecedent.pattern.toList) :
    Succeeds snapshot.matcher directive ↔
      ('%' ∈ directive.antecedent.pattern.toList → directive.consequence ≠ none →
        ∀ matched, snapshot.pathsMatching directive.wildcard = .ok matched → ∀ path ∈ matched,
          ∀ value, directive.capture? path = some value →
            Admits directive.antecedent.pattern value) := by
  obtain ⟨hexpanded, hresolved⟩ := hother
  have hexpands (error : Error) : ¬ ExpansionFails snapshot.matcher directive error := fun hfails =>
    hexpanded error (expansionFails_matcher hfails)
  by_cases hplaceholder : '%' ∈ directive.antecedent.pattern.toList
  · obtain ⟨hone, -⟩ := single_of_expanded hexpanded fun hzero =>
      placeholders_eq_zero_iff.mp hzero hplaceholder
    have hpattern := hplain hplaceholder
    constructor
    · intro h _ hconsequence matched hmatched path hpath value hcapture
      have hmem : directive.fill value ∈ instances snapshot.matcher directive :=
        (mem_instances_iff hplaceholder).mpr ⟨matched, hmatched, path, hpath, value, hcapture, rfl⟩
      have hglob := resolves_matcher_iff.mp (h.resolved _ hmem)
        (consequence_fill_ne_none_iff.mpr hconsequence)
      exact (isGlobText_fill_iff hpattern hone hcapture).mp hglob
    · intro h
      refine ⟨hexpands, fun single hsingle => resolves_matcher_iff.mpr fun hconsequence => ?_⟩
      obtain ⟨matched, hmatched, path, hpath, value, hcapture, rfl⟩ :=
        (mem_instances_iff hplaceholder).mp hsingle
      have hvalue := h hplaceholder (consequence_fill_ne_none_iff.mp hconsequence) matched hmatched path
        hpath value hcapture
      exact (isGlobText_fill_iff hpattern hone hcapture).mpr hvalue
  · -- Without a placeholder the directive is its only instance for every snapshot.
    refine iff_of_true ⟨hexpands, fun single hsingle => ?_⟩ fun h => absurd h hplaceholder
    rw [instances_of_plain hplaceholder] at hresolved hsingle
    exact resolves_matcher_iff.mpr (resolves_matcher_iff.mp (hresolved single hsingle))

end Independence

/-- Whether a text compiles is known from whether its directives succeed. -/
theorem compiles_iff {file text : String} {matcher : Matcher} {directives : List Directive}
    (hparse : parse file (sourceLines text) = .ok directives) :
    (∃ rules, (compile file text matcher).outcome = .ok rules) ↔
      ∀ directive ∈ directives, Succeeds matcher directive := by
  constructor
  · intro h
    obtain ⟨rules, hrules⟩ := h
    obtain ⟨_, hparse', hsucceeds, -⟩ := outcome_compile_eq_ok_iff.mp hrules
    cases hparse.symm.trans hparse'
    exact hsucceeds
  · intro h
    exact ⟨_, outcome_compile_eq_ok_iff.mpr ⟨directives, hparse, h, rfl⟩⟩

/-- Where directives have placeholders, their antecedents hold no brackets, braces and backslashes. -/
def HavePlainPlaceholders (directives : List Directive) : Prop :=
  ∀ directive ∈ directives, '%' ∈ directive.antecedent.pattern.toList →
    IsPlain directive.antecedent.pattern.toList ∧ ']' ∉ directive.antecedent.pattern.toList

instance (directives : List Directive) : Decidable (HavePlainPlaceholders directives) :=
  List.decidableBAll _ directives

/-- A text with plain placeholders that compiles for the empty tree compiles for a tree if and only if its
conditional placeholders admit all values that they stand for there. -/
theorem compile_ofPaths_iff_admits {file text : String} {directives : List Directive}
    (hparse : parse file (sourceLines text) = .ok directives)
    (hplain : HavePlainPlaceholders directives)
    (hempty : ∃ rules, (compile file text (Snapshot.ofPaths []).matcher).outcome = .ok rules)
    (paths : List String) :
    (∃ rules, (compile file text (Snapshot.ofPaths paths).matcher).outcome = .ok rules) ↔
      ∀ directive ∈ directives, '%' ∈ directive.antecedent.pattern.toList →
        directive.consequence ≠ none →
        ∀ matched, (Snapshot.ofPaths paths).pathsMatching directive.wildcard = .ok matched →
        ∀ path ∈ matched, ∀ value, directive.capture? path = some value →
          Admits directive.antecedent.pattern value := by
  rw [compiles_iff hparse] at hempty ⊢
  exact forall₂_congr fun directive hdirective =>
    succeeds_matcher_iff (hempty directive hdirective) (hplain directive hdirective)

/-- Three scripts, one with a class in its name and one with a backslash before the dot. -/
theorem compile_ofPaths_iff_admits_scripts :
    ∃ rules, (compile "rules" "./lib/%.js => test/%.js" (Snapshot.ofPaths
      ["lib/", "lib/[b].js", "lib/a.js", "lib/c\\.js"]).matcher).outcome = .ok rules := by
  have hparse : parse "rules" (sourceLines "./lib/%.js => test/%.js") =
      .ok [⟨⟨"./lib/%.js", false⟩, some ⟨"test/%.js", false⟩, ⟨"rules", 1⟩⟩] := by decide +kernel
  have hplain : HavePlainPlaceholders
      [⟨⟨"./lib/%.js", false⟩, some ⟨"test/%.js", false⟩, ⟨"rules", 1⟩⟩] := by decide +kernel
  have hempty : (compile "rules" "./lib/%.js => test/%.js" (Snapshot.ofPaths []).matcher).outcome =
      .ok [] := by
    rw [Snapshot.ofPaths_nil]
    decide +kernel
  have hentries : Snapshot.ofPaths ["lib/", "lib/[b].js", "lib/a.js", "lib/c\\.js"] =
      ⟨[⟨"lib", .directory⟩, ⟨"lib/[b].js", .file⟩, ⟨"lib/a.js", .file⟩, ⟨"lib/c\\.js", .file⟩]⟩ :=
    Snapshot.ofPaths_of_pairwise (by decide +kernel) (by decide +kernel)
  have hpaths : Snapshot.pathsMatching ⟨[⟨"lib", .directory⟩, ⟨"lib/[b].js", .file⟩,
      ⟨"lib/a.js", .file⟩, ⟨"lib/c\\.js", .file⟩]⟩ "lib/*.js" =
      .ok ["lib/[b].js", "lib/a.js", "lib/c\\.js"] := by decide +kernel
  refine (compile_ofPaths_iff_admits hparse hplain ⟨_, hempty⟩ _).mpr ?_
  intro directive hdirective _ _ matched hmatched path hpath value hcapture
  obtain rfl := List.mem_singleton.mp hdirective
  rw [hentries, show Directive.wildcard _ = "lib/*.js" by decide +kernel, hpaths] at hmatched
  cases hmatched
  simp only [List.mem_cons, List.not_mem_nil, or_false] at hpath
  rcases hpath with rfl | rfl | rfl
  · obtain rfl : ['[', 'b', ']'] = value := Option.some.inj (Eq.trans (by decide +kernel) hcapture)
    exact .inl ⟨_, rfl⟩
  · obtain rfl : ['a'] = value := Option.some.inj (Eq.trans (by decide +kernel) hcapture)
    exact .inl ⟨_, rfl⟩
  · obtain rfl : ['c', '\\'] = value := Option.some.inj (Eq.trans (by decide +kernel) hcapture)
    exact .inr ⟨by decide, ['c'], rfl, _, rfl⟩

/-- A name can break a text that compiles for the empty tree and whose placeholders are plain: a bracket
that opens a class in the name is not closed. -/
theorem not_forall_compile_ofPaths :
    ¬ ∀ (file text : String) (directives : List Directive) (paths : List String),
      parse file (sourceLines text) = .ok directives → HavePlainPlaceholders directives →
      (∃ rules, (compile file text (Snapshot.ofPaths []).matcher).outcome = .ok rules) →
      ∃ rules, (compile file text (Snapshot.ofPaths paths).matcher).outcome = .ok rules := by
  have hparse : parse "rules" (sourceLines "% => x") =
      .ok [⟨⟨"%", false⟩, some ⟨"x", false⟩, ⟨"rules", 1⟩⟩] := by decide +kernel
  have hempty : (compile "rules" "% => x" (Snapshot.ofPaths []).matcher).outcome = .ok [] := by
    rw [Snapshot.ofPaths_nil]
    decide +kernel
  have hentries : Snapshot.ofPaths ["["] = ⟨[⟨"[", .file⟩]⟩ :=
    Snapshot.ofPaths_of_pairwise (by decide +kernel) (by decide +kernel)
  have hbroken : (compile "rules" "% => x" (Snapshot.ofPaths ["["]).matcher).outcome =
      .error (.query ⟨"rules", 1⟩ ⟨"[", .unclosedClass⟩) := by
    rw [hentries]
    decide +kernel
  intro h
  obtain ⟨rules, hrules⟩ := h "rules" "% => x" _ ["["] hparse (by decide +kernel) ⟨_, hempty⟩
  cases hbroken.symm.trans hrules

end Rules

end TreeLayout
