/-!
# Malformed globs

The five ways in which a glob can be malformed, and the wording of each.
-/

namespace TreeLayout.Glob

/-- Why a glob is malformed. -/
inductive Fault where
  | unclosedClass
  | invalidRange (first last : Char)
  | unopenedGroup
  | unclosedGroup
  | danglingEscape
deriving DecidableEq, Repr

namespace Fault

/-- The wording of a fault. -/
def message : Fault → String
  | unclosedClass => "unclosed character class; missing ']'"
  | invalidRange first last =>
    "invalid range; '" ++ first.toString ++ "' > '" ++ last.toString ++ "'"
  | unopenedGroup =>
    "unopened alternate group; missing '\x7b' (maybe escape '\x7d' with '[\x7d]'?)"
  | unclosedGroup =>
    "unclosed alternate group; missing '\x7d' (maybe escape '\x7b' with '[\x7b]'?)"
  | danglingEscape => "dangling '\\'"

end Fault

/-- A malformed glob. -/
structure Error where
  glob : String
  fault : Fault
deriving DecidableEq, Repr

/-- The wording of a malformed glob. -/
def Error.message (error : Error) : String :=
  "error parsing glob '" ++ error.glob ++ "': " ++ error.fault.message

end TreeLayout.Glob
