import TreeLayout.Rules.Basic
import TreeLayout.Glob.Fault

/-!
# Rules that do not compile

A rules text fails on a malformed line, or on a pattern that turns out not to be a glob when the
tree is asked about it. Each failure carries the line at fault.
-/

namespace TreeLayout

/-- The wording of a pattern that is not a glob. -/
def Glob.Error.patternMessage (error : Glob.Error) : String :=
  "Invalid glob pattern '" ++ error.glob ++ "': " ++ error.message

namespace Rules

/-- What is wrong with a line of a rules text. -/
inductive Fault where
  | nestedConditional
  | missingAntecedent
  | missingConsequence
  | negatedPlaceholder
  | severalPlaceholders
deriving DecidableEq, Repr

/-- The wording of a fault. -/
def Fault.message : Fault → String
  | nestedConditional => "no nested conditionals"
  | missingAntecedent => "missing conditional antecedent"
  | missingConsequence => "missing conditional consequence"
  | negatedPlaceholder => "placeholder antecedents must not be negative patterns"
  | severalPlaceholders => "conditional antecedents must have a single placeholder symbol"

/-- Why a rules text does not compile. -/
inductive Error where
  /-- A line is malformed. -/
  | line (location : Location) (fault : Fault)
  /-- A query on behalf of a line has a pattern that is not a glob. -/
  | query (location : Location) (error : Glob.Error)
deriving DecidableEq, Repr

namespace Error

/-- The line at fault. -/
def location : Error → Location
  | line location _ => location
  | query location _ => location

/-- The wording of an error, after its location. -/
def message : Error → String
  | line location fault => location.text ++ ": " ++ fault.message
  | query location error => location.text ++ ": " ++ error.patternMessage

end Error

end Rules

end TreeLayout
