import TreeLayout.Rules.Basic

/-!
# Reports

The outcome of checking a tree: the paths that must not exist, and why.
-/

namespace TreeLayout

/-- Why a path must not exist. -/
inductive Reason where
  /-- No rule allows the file. -/
  | notAllowed
  /-- A rule forbids the path; its pattern and where it comes from. -/
  | forbidden (pattern : String) (location : Location)
deriving DecidableEq, Repr

/-- A path that must not exist. -/
structure Violation where
  path : String
  reason : Reason
deriving DecidableEq, Repr

/-- Whether a violation is that a rule forbids the path. -/
def Violation.isForbidden (violation : Violation) : Bool :=
  match violation.reason with
  | .notAllowed => false
  | .forbidden _ _ => true

/-- The outcome of checking a tree. -/
structure Report where
  /-- Files that no rule allows, in the order of the tree, then forbidden paths, in that of the
  rules. -/
  violations : List Violation
  filesChecked : Nat
  patternsApplied : Nat
deriving DecidableEq, Repr

namespace Report

/-- Whether every path may exist. -/
def passed (report : Report) : Bool := report.violations.isEmpty

/-- The paths of the files that no rule allows. -/
def notAllowed (report : Report) : List String :=
  (report.violations.filter fun violation => !violation.isForbidden).map Violation.path

/-- The paths that rules forbid. -/
def forbidden (report : Report) : List String :=
  (report.violations.filter Violation.isForbidden).map Violation.path

end Report

end TreeLayout
