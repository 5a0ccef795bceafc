import TreeLayout.Proofs.Rules.Lines
import TreeLayout.Proofs.Rules.Stages
import TreeLayout.Proofs.Rules.Statement

/-!
# Every line is compiled on its own

A text compiles if each of its directives can be expanded and resolved, and its rules are those of
its directives in order. Further down in a longer text, a line yields the same rules, further down.
So two texts with a line feed between them compile together exactly if each compiles alone
(`outcome_compile_append_line`).
-/

namespace TreeLayout

/-- The same place, further down in a longer text. -/
def Location.movedDown (count : Nat) (location : Location) : Location :=
  { location with line := .ofNat (location.line.toNat + count) }

/-- The same directive, further down in a longer text. -/
def Directive.movedDown (count : Nat) (directive : Directive) : Directive :=
  { directive with location := directive.location.movedDown count }

/-- The same rule, further down in a longer text. -/
def Rule.movedDown (count : Nat) (rule : Rule) : Rule :=
  { rule with location := rule.location.movedDown count }

namespace Rules

open Text

variable {matcher : Matcher} {file : String}

section Directives

/-- A directive that is expanded, and whose instances are all resolved. -/
structure Succeeds (matcher : Matcher) (directive : Directive) : Prop where
  expanded : ∀ error, ¬ ExpansionFails matcher directive error
  resolved : ∀ single ∈ instances matcher directive, ∀ error,
    ¬ ResolutionFails matcher single error

/-- The rules that a directive yields. -/
def rulesOf (matcher : Matcher) (directive : Directive) : List Rule :=
  (instances matcher directive).filterMap (ruleOf? matcher)

/-- A compilation yields the rules of each directive, if each of them succeeds. -/
theorem outcome_compile_eq_ok_iff {text : String} {rules : List Rule} :
    (compile file text matcher).outcome = .ok rules ↔
      ∃ directives, parse file (sourceLines text) = .ok directives ∧
        (∀ directive ∈ directives, Succeeds matcher directive) ∧
        rules = directives.flatMap (rulesOf matcher) := by
  constructor
  · intro h
    cases hparse : parse file (sourceLines text) with
    | error error =>
      rw [compile_of_parse_eq_error hparse] at h
      cases h
    | ok directives =>
      rw [compile_of_parse_eq_ok hparse, Inquiry.outcome_bind] at h
      obtain ⟨expanded, hexpanded, hresolved⟩ := bind_eq_ok_iff.mp h
      obtain ⟨hexpand, rfl⟩ := outcome_expand_eq_ok_iff.mp hexpanded
      obtain ⟨hresolve, rfl⟩ := outcome_resolve_eq_ok_iff.mp hresolved
      refine ⟨directives, rfl, fun directive hdirective => ⟨hexpand directive hdirective, ?_⟩,
        List.filterMap_flatMap⟩
      intro single hsingle
      exact hresolve single (List.mem_flatMap.mpr ⟨directive, hdirective, hsingle⟩)
  · intro h
    obtain ⟨directives, hparse, hsucceeds, rfl⟩ := h
    have hexpanded : (expand matcher directives).outcome =
        .ok (directives.flatMap (instances matcher)) :=
      outcome_expand_eq_ok_iff.mpr ⟨fun directive hdirective => (hsucceeds directive hdirective).expanded,
        rfl⟩
    rw [compile_of_parse_eq_ok hparse, Inquiry.outcome_bind, hexpanded]
    refine outcome_resolve_eq_ok_iff.mpr ⟨fun single hsingle => ?_, List.filterMap_flatMap.symm⟩
    obtain ⟨directive, hdirective, hsingle⟩ := List.mem_flatMap.mp hsingle
    exact (hsucceeds directive hdirective).resolved single hsingle

/-- The rules of a directive stand where it stands. -/
theorem location_of_mem_rulesOf {directive : Directive} {rule : Rule}
    (h : rule ∈ rulesOf matcher directive) : rule.location = directive.location := by
  obtain ⟨single, hsingle, hrule⟩ := List.mem_filterMap.mp h
  have hplace : single.location = directive.location := by
    unfold instances at hsingle
    split at hsingle
    · rw [List.mem_singleton.mp hsingle]
    · split at hsingle
      · obtain ⟨value, -, rfl⟩ := List.mem_map.mp hsingle
        rfl
      · cases hsingle
  rw [← hplace]
  unfold ruleOf? at hrule
  split at hrule
  · cases hrule
    rfl
  · split at hrule
    · split at hrule
      · cases hrule
      · cases hrule
        rfl
    · cases hrule

end Directives

section Moved

variable (count : Nat) (directive : Directive)

theorem instances_movedDown : instances matcher (directive.movedDown count) =
    (instances matcher directive).map (Directive.movedDown count) := by
  have hfill (paths : List String) : (directive.movedDown count).fillFrom paths =
      (directive.fillFrom paths).map (Directive.movedDown count) := by
    rw [Directive.fillFrom, Directive.fillFrom, List.map_map]
    rfl
  have hplaceholders : (directive.movedDown count).placeholders = directive.placeholders := rfl
  have hwildcard : (directive.movedDown count).wildcard = directive.wildcard := rfl
  rw [instances, instances, hplaceholders, hwildcard]
  split
  · rfl
  · cases matcher.paths directive.wildcard with
    | ok paths => exact hfill paths
    | error error => rfl

theorem ruleOf?_movedDown : ruleOf? matcher (directive.movedDown count) =
    (ruleOf? matcher directive).map (Rule.movedDown count) := by
  have hantecedent : (directive.movedDown count).antecedent = directive.antecedent := rfl
  have hconsequence : (directive.movedDown count).consequence = directive.consequence := rfl
  rw [ruleOf?, ruleOf?, hantecedent, hconsequence]
  cases directive.consequence with
  | none => rfl
  | some consequence =>
    cases matcher.existence directive.antecedent.pattern with
    | error error => rfl
    | ok found =>
      simp only
      split <;> rfl

/-- Only the antecedent decides whether a directive fails to be expanded. -/
theorem exists_expansionFails {first second : Directive}
    (hantecedent : first.antecedent = second.antecedent)
    (h : ∃ error, ExpansionFails matcher first error) :
    ∃ error, ExpansionFails matcher second error := by
  have hplaceholders : first.placeholders = second.placeholders := by
    rw [Directive.placeholders, hantecedent, Directive.placeholders]
  have hwildcard : first.wildcard = second.wildcard := by
    rw [Directive.wildcard, hantecedent, Directive.wildcard]
  obtain ⟨error, h⟩ := h
  cases h with
  | negated hplaceholder hnegated =>
    rw [hplaceholders] at hplaceholder
    exact ⟨_, .negated hplaceholder (hantecedent ▸ hnegated)⟩
  | several hplaceholder hplain =>
    rw [hplaceholders] at hplaceholder
    exact ⟨_, .several hplaceholder (hantecedent ▸ hplain)⟩
  | query hplaceholder hplain hquery =>
    rw [hplaceholders] at hplaceholder
    rw [hwildcard] at hquery
    exact ⟨_, .query hplaceholder (hantecedent ▸ hplain) hquery⟩

/-- Only the two sides decide whether a directive fails to be resolved. -/
theorem exists_resolutionFails {first second : Directive}
    (hantecedent : first.antecedent = second.antecedent)
    (hconsequence : first.consequence = second.consequence)
    (h : ∃ error, ResolutionFails matcher first error) :
    ∃ error, ResolutionFails matcher second error := by
  obtain ⟨error, ⟨hconditional, hquery⟩⟩ := h
  rw [hconsequence] at hconditional
  rw [hantecedent] at hquery
  exact ⟨_, .query hconditional hquery⟩

/-- Where a directive stands does not matter for whether it succeeds. -/
theorem succeeds_movedDown :
    Succeeds matcher (directive.movedDown count) ↔ Succeeds matcher directive := by
  have hexpand : (∀ error, ¬ ExpansionFails matcher (directive.movedDown count) error) ↔
      ∀ error, ¬ ExpansionFails matcher directive error := by
    simp only [← not_exists]
    exact not_congr ⟨exists_expansionFails rfl, exists_expansionFails rfl⟩
  have hresolve (single : Directive) :
      (∀ error, ¬ ResolutionFails matcher (single.movedDown count) error) ↔
        ∀ error, ¬ ResolutionFails matcher single error := by
    simp only [← not_exists]
    exact not_congr ⟨exists_resolutionFails rfl rfl, exists_resolutionFails rfl rfl⟩
  constructor
  · intro h
    refine ⟨hexpand.mp h.expanded, fun single hsingle => (hresolve single).mp (h.resolved _ ?_)⟩
    rw [instances_movedDown]
    exact List.mem_map_of_mem hsingle
  · intro h
    refine ⟨hexpand.mpr h.expanded, fun single hsingle => ?_⟩
    rw [instances_movedDown] at hsingle
    obtain ⟨other, hother, rfl⟩ := List.mem_map.mp hsingle
    exact (hresolve other).mpr (h.resolved other hother)

/-- Further down, a directive yields its rules further down. -/
theorem rulesOf_movedDown : rulesOf matcher (directive.movedDown count) =
    (rulesOf matcher directive).map (Rule.movedDown count) := by
  rw [rulesOf, rulesOf, instances_movedDown, List.filterMap_map, List.map_filterMap]
  congr 1
  funext single
  exact ruleOf?_movedDown count single

theorem flatMap_rulesOf_movedDown (directives : List Directive) :
    (directives.map (Directive.movedDown count)).flatMap (rulesOf matcher) =
      (directives.flatMap (rulesOf matcher)).map (Rule.movedDown count) := by
  simp only [List.flatMap_map, List.map_flatMap, rulesOf_movedDown]

end Moved

section Lines

/-- Further down, a line spells its directive further down. -/
theorem parseLine_movedDown {count : Nat} (line : SourceLine) (directive : Directive) :
    parseLine file (line.movedDown count) = .ok directive ↔
      ∃ other, parseLine file line = .ok other ∧ directive = other.movedDown count := by
  rw [parseLine_eq, parseLine_eq]
  cases hread : readStatement line.text.toList with
  | error fault => simp [SourceLine.movedDown, hread]
  | ok sides =>
    simp only [SourceLine.movedDown, hread, Except.ok.injEq]
    constructor
    · intro h
      subst h
      exact ⟨_, rfl, rfl⟩
    · intro h
      obtain ⟨other, rfl, rfl⟩ := h
      rfl

/-- Two texts with a line feed between them spell the directives of both. -/
theorem parse_append_line {first second : String} {directives : List Directive} :
    parse file (sourceLines (first ++ "\n" ++ second)) = .ok directives ↔
      ∃ front back, parse file (sourceLines first) = .ok front ∧
        parse file (sourceLines second) = .ok back ∧
        directives = front ++ back.map (Directive.movedDown (first.toList.count '\n' + 1)) := by
  rw [parse, sourceLines_append_line, mapM_append_eq_ok_iff]
  simp only [mapM_map_eq_ok_iff parseLine_movedDown]
  constructor
  · intro h
    obtain ⟨front, _, hfront, ⟨back, hback, rfl⟩, rfl⟩ := h
    exact ⟨front, back, hfront, hback, rfl⟩
  · intro h
    obtain ⟨front, back, hfront, hback, rfl⟩ := h
    exact ⟨front, _, hfront, ⟨back, hback, rfl⟩, rfl⟩

/-- Every directive of a text is spelt by one line of it, which spells the same directive alone. -/
theorem exists_line_of_mem_parse {text : String} (h : (lines text.toList).length < UInt32.size)
    {directives : List Directive} (hparse : parse file (sourceLines text) = .ok directives)
    {directive : Directive} (hmem : directive ∈ directives) :
    ∃ place line alone, (lines text.toList)[place]? = some line ∧
      directive.location.line.toNat = place + 1 ∧
      parse file (sourceLines (.ofList line)) = .ok [alone] ∧
      directive = alone.movedDown place := by
  obtain ⟨source, hsource, hdirective⟩ := exists_of_mem_results hparse directive hmem
  obtain ⟨place, line, hline, hsaid, rfl⟩ := exists_line_of_mem_sourceLines hsource
  have hfeed : '\n' ∉ line := notMem_of_mem_linesBy (List.mem_of_getElem? hline)
  have hmoved : (⟨.ofList (statement line), .ofNat (place + 1)⟩ : SourceLine) =
      SourceLine.movedDown place ⟨.ofList (statement line), 1⟩ := by
    rw [SourceLine.movedDown, Nat.add_comm]
    rfl
  have hlast : place < (lines text.toList).length := (List.getElem?_eq_some_iff.mp hline).1
  have hnumber : (UInt32.ofNat (place + 1)).toNat = place + 1 :=
    UInt32.toNat_ofNat_of_lt' (show place + 1 < UInt32.size by omega)
  have hlocation : directive.location.line.toNat = place + 1 := by
    rw [← hnumber]
    rw [parseLine_eq] at hdirective
    split at hdirective <;> cases hdirective
    rfl
  rw [hmoved, parseLine_movedDown] at hdirective
  obtain ⟨alone, halone, rfl⟩ := hdirective
  refine ⟨place, line, alone, hline, hlocation, ?_, rfl⟩
  rw [sourceLines_ofList hfeed hsaid, parse, List.mapM_cons, halone]
  rfl

theorem length_lines_append_line (first second : String) :
    (lines (first ++ "\n" ++ second).toList).length =
      first.toList.count '\n' + 1 + (lines second.toList).length := by
  have htext : (first ++ "\n" ++ second).toList = first.toList ++ '\n' :: second.toList := by
    simp [String.toList_append]
  rw [htext, lines, linesBy_append_cons, List.length_append, List.length_map, length_split, ← lines]

end Lines

/-- Two texts with a line feed between them compile exactly if both compile, and then to the rules of
the first followed by those of the second, whose numbers grow by the lines of the first. Every rule is
numbered by a line of the text, and this line alone yields the same rule. -/
theorem outcome_compile_append_line {first second : String}
    (h : (lines (first ++ "\n" ++ second).toList).length < UInt32.size) :
    (∀ rules, (compile file (first ++ "\n" ++ second) matcher).outcome = .ok rules ↔
      ∃ front back, (compile file first matcher).outcome = .ok front ∧
        (compile file second matcher).outcome = .ok back ∧
        rules = front ++ back.map (Rule.movedDown (first.toList.count '\n' + 1))) ∧
    (∀ back, (compile file second matcher).outcome = .ok back → ∀ rule ∈ back,
      (rule.movedDown (first.toList.count '\n' + 1)).location.line.toNat =
        rule.location.line.toNat + (first.toList.count '\n' + 1)) ∧
    ∀ rules, (compile file (first ++ "\n" ++ second) matcher).outcome = .ok rules →
      ∀ rule ∈ rules, ∃ place line alone,
        (lines (first ++ "\n" ++ second).toList)[place]? = some line ∧
        rule.location.line.toNat = place + 1 ∧
        (compile file (.ofList line) matcher).outcome = .ok alone ∧
        rule ∈ alone.map (Rule.movedDown place) := by
  refine ⟨fun rules => ⟨fun hrules => ?_, fun hrules => ?_⟩, fun back hback rule hrule => ?_,
    fun rules hrules rule hrule => ?_⟩
  · obtain ⟨directives, hparse, hsucceeds, rfl⟩ := outcome_compile_eq_ok_iff.mp hrules
    obtain ⟨front, back, hfront, hback, rfl⟩ := parse_append_line.mp hparse
    obtain ⟨hfirst, hsecond⟩ := List.forall_mem_append.mp hsucceeds
    refine ⟨_, _, outcome_compile_eq_ok_iff.mpr ⟨front, hfront, hfirst, rfl⟩,
      outcome_compile_eq_ok_iff.mpr ⟨back, hback, fun directive hdirective => ?_, rfl⟩, ?_⟩
    · exact (succeeds_movedDown _ directive).mp (hsecond _ (List.mem_map_of_mem hdirective))
    · rw [List.flatMap_append, flatMap_rulesOf_movedDown]
  · obtain ⟨_, _, hfirst, hsecond, rfl⟩ := hrules
    obtain ⟨front, hfront, hsucceeds, rfl⟩ := outcome_compile_eq_ok_iff.mp hfirst
    obtain ⟨back, hback, hsucceeds', rfl⟩ := outcome_compile_eq_ok_iff.mp hsecond
    refine outcome_compile_eq_ok_iff.mpr ⟨_, parse_append_line.mpr ⟨front, back, hfront, hback, rfl⟩,
      List.forall_mem_append.mpr ⟨hsucceeds, fun directive hdirective => ?_⟩, ?_⟩
    · obtain ⟨other, hother, rfl⟩ := List.mem_map.mp hdirective
      exact (succeeds_movedDown _ other).mpr (hsucceeds' other hother)
    · rw [List.flatMap_append, flatMap_rulesOf_movedDown]
  · obtain ⟨directives, hparse, -, rfl⟩ := outcome_compile_eq_ok_iff.mp hback
    obtain ⟨directive, hdirective, hrule⟩ := List.mem_flatMap.mp hrule
    rw [length_lines_append_line] at h
    obtain ⟨place, line, alone, hline, hnumber, -, -⟩ :=
      exists_line_of_mem_parse (by omega) hparse hdirective
    have hplace : place < (lines second.toList).length := (List.getElem?_eq_some_iff.mp hline).1
    rw [Rule.movedDown, location_of_mem_rulesOf hrule]
    exact UInt32.toNat_ofNat_of_lt' (show _ < UInt32.size by omega)
  · obtain ⟨directives, hparse, hsucceeds, rfl⟩ := outcome_compile_eq_ok_iff.mp hrules
    obtain ⟨directive, hdirective, hrule⟩ := List.mem_flatMap.mp hrule
    obtain ⟨place, line, alone, hline, hnumber, halone, rfl⟩ :=
      exists_line_of_mem_parse h hparse hdirective
    have hsingle := (succeeds_movedDown place alone).mp (hsucceeds _ hdirective)
    refine ⟨place, line, rulesOf matcher alone, hline, ?_, ?_, ?_⟩
    · rw [location_of_mem_rulesOf hrule, hnumber]
    · exact outcome_compile_eq_ok_iff.mpr ⟨[alone], halone, by simpa using hsingle, by simp⟩
    · rwa [← rulesOf_movedDown]

/-- A text that ends in a comment, before one whose lines end in carriage returns. -/
theorem outcome_compile_append_line_comment :
    (lines ("a\n# b\r" ++ "\n" ++ "% => !%/c\r\n\r\nd => e\r").toList).length < UInt32.size ∧
    (compile "rules" ("a\n# b\r" ++ "\n" ++ "% => !%/c\r\n\r\nd => e\r")
      ⟨fun _ => .ok ["x", "y"], fun _ => .ok true⟩).outcome =
      .ok [⟨⟨"a", false⟩, ⟨"rules", 1⟩⟩, ⟨⟨"x/c", true⟩, ⟨"rules", 3⟩⟩,
        ⟨⟨"y/c", true⟩, ⟨"rules", 3⟩⟩, ⟨⟨"e", false⟩, ⟨"rules", 5⟩⟩] := by
  have hlines : (lines ("a\n# b\r" ++ "\n" ++ "% => !%/c\r\n\r\nd => e\r").toList).length <
      UInt32.size := by decide +kernel
  have hfirst : (compile "rules" "a\n# b\r" ⟨fun _ => .ok ["x", "y"], fun _ => .ok true⟩).outcome =
      .ok [⟨⟨"a", false⟩, ⟨"rules", 1⟩⟩] := by decide +kernel
  have hsecond : (compile "rules" "% => !%/c\r\n\r\nd => e\r"
      ⟨fun _ => .ok ["x", "y"], fun _ => .ok true⟩).outcome =
      .ok [⟨⟨"x/c", true⟩, ⟨"rules", 1⟩⟩, ⟨⟨"y/c", true⟩, ⟨"rules", 1⟩⟩,
        ⟨⟨"e", false⟩, ⟨"rules", 3⟩⟩] := by decide +kernel
  exact ⟨hlines, ((outcome_compile_append_line hlines).1 _).mpr ⟨_, _, hfirst, hsecond, by decide⟩⟩

end Rules

end TreeLayout
