import TreeLayout.Rules.Parser
import TreeLayout.Rules.Expansion

/-!
# Compiling a rules text

A directive without a consequence is a rule. A conditional one is its consequence as a rule if its
antecedent holds, and nothing otherwise: a plain antecedent holds if some path matches it, a negated
one if none does. Every conditional issues exactly one query.

All lines are read before the tree is asked anything, all placeholders are expanded before any
conditional is resolved, and the first failure ends the compilation.
-/

namespace TreeLayout.Rules

/-- The rule of one directive, if it applies. -/
def resolveDirective (matcher : Matcher) (directive : Directive) : Inquiry Error (Option Rule) :=
  match directive.consequence with
  | none => return some ⟨directive.antecedent, directive.location⟩
  | some consequence => do
    let pattern := directive.antecedent.pattern
    let found ← .ask (.existence pattern) (matcher.existence pattern) (.query directive.location)
    let holds := found != directive.antecedent.negated
    return if holds then some ⟨consequence, directive.location⟩ else none

/-- The rules of the directives that apply, in their order. -/
def resolve (matcher : Matcher) (directives : List Directive) : Inquiry Error (List Rule) :=
  return (← directives.mapM (resolveDirective matcher)).filterMap id

/-- The rules in force for a tree. -/
def compile (file text : String) (matcher : Matcher) : Inquiry Error (List Rule) := do
  let directives ← .ofExcept (parse file (sourceLines text))
  resolve matcher (← expand matcher directives)

end TreeLayout.Rules
