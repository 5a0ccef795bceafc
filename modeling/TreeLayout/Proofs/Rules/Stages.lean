import TreeLayout.Proofs.Inquiry
import TreeLayout.Proofs.Rules.Template
import TreeLayout.Rules.Compilation

/-!
# One directive in each stage

Expanding a directive asks for paths exactly if its antecedent is plain and has a single placeholder.
Resolving it asks for the existence of a path exactly if it is conditional. Both are described here
by what they ask, how they fail, and what they yield.
-/

namespace TreeLayout

open Text

namespace Directive

/-- How many placeholders the antecedent holds. -/
def placeholders (directive : Directive) : Nat := directive.antecedent.pattern.toList.count '%'

/-- The pattern of the antecedent with its placeholder read as `*`, without a leading `./`. -/
def wildcard (directive : Directive) : String :=
  Rules.substitute ['*'] (.ofList (dropDotSlash directive.antecedent.pattern.toList))

/-- What the placeholder of the antecedent stands for in a path. -/
def capture? (directive : Directive) (path : String) : Option (List Char) :=
  (Rules.Template.ofPattern? directive.antecedent.pattern.toList).bind (·.capture? path.toList)

/-- The directives with what the placeholder stands for in some paths. -/
def fillFrom (directive : Directive) (paths : List String) : List Directive :=
  (paths.filterMap directive.capture?).map directive.fill

end Directive

namespace Rules

/-- A pattern has a template exactly if it has a placeholder. -/
theorem Template.ofPattern?_eq_none_iff {pattern : List Char} :
    Template.ofPattern? pattern = none ↔ '%' ∉ pattern := by
  constructor
  · intro h hmem
    obtain ⟨template, htemplate⟩ := Template.exists_template hmem
    cases h.symm.trans htemplate
  · intro h
    cases htemplate : Template.ofPattern? pattern with
    | none => rfl
    | some template =>
      obtain ⟨htext, -⟩ := Template.exists_of_ofPattern? htemplate
      have hcount : pattern.count '%' ≠ 0 := by
        rw [← count_dropDotSlash, htext, Template.fill_eq, Template.name]
        simp
      exact absurd (List.count_eq_zero.mpr h) hcount

section Expansion

variable {matcher : Matcher} {directive : Directive}

/-- The query that expanding a directive issues. -/
def expansionQuery? (directive : Directive) : Option Query :=
  if directive.placeholders = 1 ∧ directive.antecedent.negated = false then
    some (.paths directive.wildcard)
  else none

/-- How expanding a directive fails. -/
inductive ExpansionFails (matcher : Matcher) (directive : Directive) : Error → Prop
  | negated (hplaceholder : 0 < directive.placeholders)
      (hnegated : directive.antecedent.negated = true) :
      ExpansionFails matcher directive (.line directive.location .negatedPlaceholder)
  | several (hplaceholder : 1 < directive.placeholders)
      (hplain : directive.antecedent.negated = false) :
      ExpansionFails matcher directive (.line directive.location .severalPlaceholders)
  | query (hplaceholder : directive.placeholders = 1)
      (hplain : directive.antecedent.negated = false) {error : Glob.Error}
      (hquery : matcher.paths directive.wildcard = .error error) :
      ExpansionFails matcher directive (.query directive.location error)

/-- Where expanding does not fail, a directive with placeholders is plain and has a single one. -/
theorem single_of_expanded (h : ∀ error, ¬ ExpansionFails matcher directive error)
    (hsome : directive.placeholders ≠ 0) :
    directive.placeholders = 1 ∧ directive.antecedent.negated = false := by
  have hplain : directive.antecedent.negated = false :=
    Bool.not_eq_true _ ▸ fun hnegated => h _ (.negated (Nat.pos_of_ne_zero hsome) hnegated)
  have hseveral : ¬ 1 < directive.placeholders := fun hlt => h _ (.several hlt hplain)
  exact ⟨by omega, hplain⟩

/-- The directives that a directive stands for: itself if it has no placeholder, and otherwise one for
each matched path in which the placeholder stands for something. -/
def instances (matcher : Matcher) (directive : Directive) : List Directive :=
  if directive.placeholders = 0 then [directive]
  else match matcher.paths directive.wildcard with
    | .ok paths => directive.fillFrom paths
    | .error _ => []

theorem expandDirective_of_plain (h : directive.placeholders = 0) :
    expandDirective matcher directive = ⟨[], .ok [directive]⟩ := by
  rw [expandDirective, Template.ofPattern?_eq_none_iff.mpr (List.count_eq_zero.mp h)]
  rfl

theorem expandDirective_of_negated (h : 0 < directive.placeholders)
    (hnegated : directive.antecedent.negated = true) : expandDirective matcher directive =
      ⟨[], .error (.line directive.location .negatedPlaceholder)⟩ := by
  obtain ⟨template, htemplate⟩ := Template.exists_template (List.count_pos_iff.mp h)
  rw [expandDirective, htemplate]
  simp only [hnegated, if_true]
  rfl

theorem expandDirective_of_several (h : 1 < directive.placeholders)
    (hplain : directive.antecedent.negated = false) : expandDirective matcher directive =
      ⟨[], .error (.line directive.location .severalPlaceholders)⟩ := by
  obtain ⟨template, htemplate⟩ :=
    Template.exists_template (List.count_pos_iff.mp (Nat.zero_lt_of_lt h))
  have hseveral : directive.antecedent.pattern.toList.count '%' > 1 := h
  rw [expandDirective, htemplate]
  simp only [hplain, hseveral, Bool.false_eq_true, if_false, if_true]
  rfl

/-- The wildcard of a template is that of its pattern. -/
theorem wildcard_eq {template : Template} (h : directive.placeholders = 1)
    (htemplate : Template.ofPattern? directive.antecedent.pattern.toList = some template) :
    String.ofList template.wildcard = directive.wildcard := by
  rw [Directive.wildcard, substitute_dropDotSlash htemplate h, Template.wildcard]

/-- What the placeholder stands for is told by the template. -/
theorem fillFrom_eq {template : Template}
    (htemplate : Template.ofPattern? directive.antecedent.pattern.toList = some template)
    (paths : List String) : directive.fillFrom paths =
      (paths.filterMap fun path => template.capture? path.toList).map directive.fill := by
  have hcapture : directive.capture? = fun path => template.capture? path.toList := by
    funext path
    rw [Directive.capture?, htemplate, Option.bind_some]
  rw [Directive.fillFrom, hcapture]

theorem expandDirective_of_single (h : directive.placeholders = 1)
    (hplain : directive.antecedent.negated = false) : expandDirective matcher directive =
      ⟨[.paths directive.wildcard], match matcher.paths directive.wildcard with
        | .ok paths => .ok (directive.fillFrom paths)
        | .error error => .error (.query directive.location error)⟩ := by
  obtain ⟨template, htemplate⟩ :=
    Template.exists_template (List.count_pos_iff.mp (h ▸ Nat.one_pos))
  have hsingle : ¬ directive.antecedent.pattern.toList.count '%' > 1 := Nat.not_lt.mpr h.le
  rw [expandDirective, htemplate]
  simp only [hplain, hsingle, Bool.false_eq_true, if_false, wildcard_eq h htemplate]
  cases hpaths : matcher.paths directive.wildcard with
  | error error => rfl
  | ok paths =>
    have hfill : directive.fillFrom paths =
        paths.filterMap fun path => (template.capture? path.toList).map directive.fill := by
      rw [fillFrom_eq htemplate, List.map_filterMap]
    simp only [hfill]
    rfl

/-- How many placeholders a directive has decides how it is expanded. -/
theorem isDescribed_expandDirective (matcher : Matcher) :
    Inquiry.IsDescribed (expandDirective matcher) expansionQuery? (ExpansionFails matcher)
      (instances matcher) where
  queries directive := by
    rw [expansionQuery?]
    rcases Nat.lt_trichotomy directive.placeholders 1 with hnone | hone | hseveral
    · rw [expandDirective_of_plain (Nat.lt_one_iff.mp hnone), if_neg (fun h => hnone.ne h.1)]
      rfl
    · cases hnegated : directive.antecedent.negated with
      | true =>
        rw [expandDirective_of_negated (hone ▸ Nat.one_pos) hnegated, if_neg (by simp)]
        rfl
      | false =>
        rw [expandDirective_of_single hone hnegated, if_pos ⟨hone, rfl⟩]
        rfl
    · -- With several placeholders no query is issued, whichever error comes first.
      rw [if_neg (fun h => hseveral.ne' h.1)]
      cases hnegated : directive.antecedent.negated with
      | true => rw [expandDirective_of_negated (Nat.zero_lt_of_lt hseveral) hnegated]; rfl
      | false => rw [expandDirective_of_several hseveral hnegated]; rfl
  error {directive error} h := by
    cases h with
    | negated h hnegated => rw [expandDirective_of_negated h hnegated]
    | several h hplain => rw [expandDirective_of_several h hplain]
    | query h hplain hquery => rw [expandDirective_of_single h hplain, hquery]
  ok {directive} h := by
    rw [instances]
    split
    · rename_i hnone
      rw [expandDirective_of_plain hnone]
    · rename_i hsome
      obtain ⟨hone, hplain⟩ := single_of_expanded h hsome
      rw [expandDirective_of_single hone hplain]
      cases hpaths : matcher.paths directive.wildcard with
      | ok paths => rfl
      | error error => exact absurd (.query hone hplain hpaths) (h _)

end Expansion

section Resolution

variable {matcher : Matcher} {directive : Directive}

/-- The query that resolving a directive issues. -/
def existenceQuery? (directive : Directive) : Option Query :=
  directive.consequence.map fun _ => .existence directive.antecedent.pattern

/-- How resolving a directive fails. -/
inductive ResolutionFails (matcher : Matcher) (directive : Directive) : Error → Prop
  | query {consequence : Expression} (hconditional : directive.consequence = some consequence)
      {error : Glob.Error}
      (hquery : matcher.existence directive.antecedent.pattern = .error error) :
      ResolutionFails matcher directive (.query directive.location error)

/-- The rule of a directive: the directive itself if it is unconditional, and its consequence if its
antecedent holds. -/
def ruleOf? (matcher : Matcher) (directive : Directive) : Option Rule :=
  match directive.consequence with
  | none => some ⟨directive.antecedent, directive.location⟩
  | some consequence =>
    match matcher.existence directive.antecedent.pattern with
    | .ok found =>
      if found = directive.antecedent.negated then none
      else some ⟨consequence, directive.location⟩
    | .error _ => none

theorem resolveDirective_of_unconditional (h : directive.consequence = none) :
    resolveDirective matcher directive =
      ⟨[], .ok (some ⟨directive.antecedent, directive.location⟩)⟩ := by
  rw [resolveDirective, h]
  rfl

theorem resolveDirective_of_conditional {consequence : Expression}
    (h : directive.consequence = some consequence) : resolveDirective matcher directive =
      ⟨[.existence directive.antecedent.pattern],
        match matcher.existence directive.antecedent.pattern with
        | .ok found => .ok (if found = directive.antecedent.negated then none
          else some ⟨consequence, directive.location⟩)
        | .error error => .error (.query directive.location error)⟩ := by
  rw [resolveDirective, h]
  cases hfound : matcher.existence directive.antecedent.pattern with
  | error error => simp only [hfound]; rfl
  | ok found =>
    cases found <;> cases directive.antecedent.negated <;> simp only [hfound] <;> rfl

/-- Whether a directive is conditional decides how it is resolved. -/
theorem isDescribed_resolveDirective (matcher : Matcher) :
    Inquiry.IsDescribed (resolveDirective matcher) existenceQuery? (ResolutionFails matcher)
      (ruleOf? matcher) where
  queries directive := by
    rw [existenceQuery?]
    cases h : directive.consequence with
    | none => rw [resolveDirective_of_unconditional h]; rfl
    | some consequence => rw [resolveDirective_of_conditional h]; rfl
  error {directive error} h := by
    cases h with
    | query hconditional hquery => rw [resolveDirective_of_conditional hconditional, hquery]
  ok {directive} h := by
    rw [ruleOf?]
    cases hconsequence : directive.consequence with
    | none => rw [resolveDirective_of_unconditional hconsequence]
    | some consequence =>
      rw [resolveDirective_of_conditional hconsequence]
      cases hfound : matcher.existence directive.antecedent.pattern with
      | ok found => rfl
      | error error => exact absurd (.query hconsequence hfound) (h _)

end Resolution

section Rows

variable {matcher : Matcher} {directives front : List Directive} {directive : Directive}
  {error : Error}

/-- Directives are expanded up to the first one that fails. -/
theorem expand_of_isFirst
    (h : IsFirst (ExpansionFails matcher) directives front directive error) :
    expand matcher directives =
      ⟨(front ++ [directive]).filterMap expansionQuery?, .error error⟩ := by
  rw [expand, (isDescribed_expandDirective matcher).mapM_of_isFirst h]
  rfl

/-- Directives none of which fails are all expanded. -/
theorem expand_of_forall
    (h : ∀ directive ∈ directives, ∀ error, ¬ ExpansionFails matcher directive error) :
    expand matcher directives =
      ⟨directives.filterMap expansionQuery?, .ok (directives.flatMap (instances matcher))⟩ := by
  rw [expand, (isDescribed_expandDirective matcher).mapM_of_forall h,
    Inquiry.bind_ok]
  simp [pure, Inquiry.pure, List.flatMap]

/-- Expanding succeeds if no directive fails, and yields the instances of the directives. -/
theorem outcome_expand_eq_ok_iff {expanded : List Directive} :
    (expand matcher directives).outcome = .ok expanded ↔
      (∀ directive ∈ directives, ∀ error, ¬ ExpansionFails matcher directive error) ∧
        expanded = directives.flatMap (instances matcher) :=
  Inquiry.outcome_eq_ok_iff (fun _ _ _ hfirst => by rw [expand_of_isFirst hfirst])
    fun hnone => by rw [expand_of_forall hnone]

/-- Directives are resolved up to the first one that fails. -/
theorem resolve_of_isFirst
    (h : IsFirst (ResolutionFails matcher) directives front directive error) :
    resolve matcher directives =
      ⟨(front ++ [directive]).filterMap existenceQuery?, .error error⟩ := by
  rw [resolve, (isDescribed_resolveDirective matcher).mapM_of_isFirst h]
  rfl

/-- Directives none of which fails are all resolved. -/
theorem resolve_of_forall
    (h : ∀ directive ∈ directives, ∀ error, ¬ ResolutionFails matcher directive error) :
    resolve matcher directives =
      ⟨directives.filterMap existenceQuery?, .ok (directives.filterMap (ruleOf? matcher))⟩ := by
  rw [resolve, (isDescribed_resolveDirective matcher).mapM_of_forall h,
    Inquiry.bind_ok]
  simp [pure, Inquiry.pure]

/-- Resolving succeeds if no directive fails, and yields the rules of the directives that apply. -/
theorem outcome_resolve_eq_ok_iff {rules : List Rule} :
    (resolve matcher directives).outcome = .ok rules ↔
      (∀ directive ∈ directives, ∀ error, ¬ ResolutionFails matcher directive error) ∧
        rules = directives.filterMap (ruleOf? matcher) :=
  Inquiry.outcome_eq_ok_iff (fun _ _ _ hfirst => by rw [resolve_of_isFirst hfirst])
    fun hnone => by rw [resolve_of_forall hnone]

variable {file text : String}

/-- A text whose lines do not parse is compiled without a query. -/
theorem compile_of_parse_eq_error {error : Error} (h : parse file (sourceLines text) = .error error) :
    compile file text matcher = ⟨[], .error error⟩ := by
  rw [compile, h]
  rfl

/-- A text whose lines parse is compiled as its directives are expanded and resolved. -/
theorem compile_of_parse_eq_ok {directives : List Directive}
    (h : parse file (sourceLines text) = .ok directives) :
    compile file text matcher = expand matcher directives >>= resolve matcher := by
  rw [compile, h]
  rfl

end Rows

end Rules

end TreeLayout
