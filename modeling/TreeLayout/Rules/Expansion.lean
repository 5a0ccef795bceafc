import TreeLayout.Rules.Template
import TreeLayout.Rules.Error
import TreeLayout.Query

/-!
# Expanding placeholders

A directive with a placeholder stands for one directive per path that its antecedent matches with
the placeholder read as `*`: the part that the placeholder stands for replaces it on both sides.
Every such directive issues exactly one query.
-/

namespace TreeLayout

/-- A pattern with a value in the place of every placeholder. -/
def Rules.substitute (value : List Char) (pattern : String) : String :=
  .ofList (pattern.toList.flatMap fun c => if c = '%' then value else [c])

/-- An expression with a value in the place of every placeholder. -/
def Expression.fill (expression : Expression) (value : List Char) : Expression :=
  { expression with pattern := Rules.substitute value expression.pattern }

/-- A directive with a value in the place of every placeholder on both sides. -/
def Directive.fill (directive : Directive) (value : List Char) : Directive :=
  { directive with
    antecedent := directive.antecedent.fill value
    consequence := directive.consequence.map (·.fill value) }

namespace Rules

/-- The directives that one directive stands for. -/
def expandDirective (matcher : Matcher) (directive : Directive) :
    Inquiry Error (List Directive) := do
  let pattern := directive.antecedent.pattern.toList
  match Template.ofPattern? pattern with
  | none => return [directive]
  | some template =>
    if directive.antecedent.negated then
      .ofExcept (.error (.line directive.location .negatedPlaceholder))
    else if pattern.count '%' > 1 then
      .ofExcept (.error (.line directive.location .severalPlaceholders))
    else
      let wildcard := String.ofList template.wildcard
      let paths ← .ask (.paths wildcard) (matcher.paths wildcard) (.query directive.location)
      return paths.filterMap fun path => (template.capture? path.toList).map directive.fill

/-- The directives that some directives stand for, in their order. -/
def expand (matcher : Matcher) (directives : List Directive) : Inquiry Error (List Directive) :=
  return (← directives.mapM (expandDirective matcher)).flatten

end Rules

end TreeLayout
