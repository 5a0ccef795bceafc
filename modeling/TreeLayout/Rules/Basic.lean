/-!
# Rules and where they come from

The values that pass through the compilation of a rules text: a line of the text becomes a
directive, and the directives that apply to a tree become rules, each of which allows or forbids the
paths that its pattern matches. The written forms of these values stand here as well.
-/

namespace TreeLayout

/-- A line of a rules file, for diagnostics; lines count from one. -/
structure Location where
  file : String
  line : UInt32
deriving DecidableEq, Repr

/-- The written form `FILE:LINE`. -/
def Location.text (location : Location) : String :=
  location.file ++ ":" ++ toString location.line.toNat

/-- A glob pattern, plain or negated. -/
structure Expression where
  pattern : String
  negated : Bool
deriving DecidableEq, Repr

/-- The written form of an expression: a negated pattern follows an exclamation mark. -/
def Expression.text (expression : Expression) : String :=
  if expression.negated then "!" ++ expression.pattern else expression.pattern

/--
A line of a rules file: an antecedent and perhaps a consequence. Without a consequence the
antecedent itself is the rule; with one, the consequence is the rule if the antecedent holds.
-/
structure Directive where
  antecedent : Expression
  consequence : Option Expression
  location : Location
deriving DecidableEq, Repr

/-- The written form of a directive. -/
def Directive.text (directive : Directive) : String :=
  match directive.consequence with
  | none => directive.antecedent.text
  | some consequence => directive.antecedent.text ++ " => " ++ consequence.text

/-- A rule in force: a plain expression allows the files that it matches, a negated one forbids the
paths that it matches. -/
structure Rule where
  expression : Expression
  location : Location
deriving DecidableEq, Repr

namespace Rule

/-- The glob pattern of a rule. -/
def pattern (rule : Rule) : String := rule.expression.pattern

/-- Whether a rule forbids. -/
def negated (rule : Rule) : Bool := rule.expression.negated

/-- The written form of a rule, without its location. -/
def text (rule : Rule) : String := rule.expression.text

end Rule

end TreeLayout
