import TreeLayout.Text.Basic
import TreeLayout.Rules.Error

/-!
# Reading a rules text

A comment runs from a `#` to the end of its line, wherever the `#` stands. Lines that are blank
without their comment are left out, and the others keep their number in the text.

A line is one expression, or two expressions joined by `=>`. An expression is a pattern, negated if
an exclamation mark stands before it; blanks around its parts mean nothing.
-/

namespace TreeLayout.Rules

/-- A line that says something: its text without comment and outer blanks, and its number. -/
structure SourceLine where
  text : String
  number : UInt32
deriving DecidableEq, Repr

/-- What a raw line says, as characters. -/
def statement (line : List Char) : List Char := Text.trim (Text.before '#' line)

/-- The lines that say something, numbered from `first + 1`. -/
def sourceLinesFrom (first : Nat) : List (List Char) → List SourceLine
  | [] => []
  | line :: rest =>
    let following := sourceLinesFrom (first + 1) rest
    let text := statement line
    if text = [] then following else ⟨String.ofList text, .ofNat (first + 1)⟩ :: following

/-- The lines of a rules text that say something. -/
def sourceLines (text : String) : List SourceLine := sourceLinesFrom 0 (Text.lines text.toList)

/-- The part of a line before its first `=>` and the parts after it, cut at every further `=>`. -/
def splitArrows : List Char → List Char × List (List Char)
  | [] => ([], [])
  | '=' :: '>' :: rest =>
    let (part, parts) := splitArrows rest
    ([], part :: parts)
  | c :: rest =>
    let (part, parts) := splitArrows rest
    (c :: part, parts)

/-- The expression that a text spells, if it holds a pattern. -/
def parseExpression (text : List Char) : Option Expression :=
  let (pattern, negated) := match Text.trim text with
    | '!' :: rest => (Text.trim rest, true)
    | pattern => (pattern, false)
  if pattern = [] then none else some ⟨String.ofList pattern, negated⟩

/-- The directive that a line spells. -/
def parseLine (file : String) (line : SourceLine) : Except Error Directive := do
  let location : Location := ⟨file, line.number⟩
  let expression (text : List Char) (fault : Fault) : Except Error Expression :=
    match parseExpression text with
    | some expression => .ok expression
    | none => .error (.line location fault)
  match splitArrows line.text.toList with
  | (antecedent, []) =>
    return ⟨← expression antecedent .missingAntecedent, none, location⟩
  | (antecedent, [consequence]) =>
    let antecedent ← expression antecedent .missingAntecedent
    return ⟨antecedent, some (← expression consequence .missingConsequence), location⟩
  | _ => throw (.line location .nestedConditional)

/-- The directives of some lines; the first malformed line is the error. -/
def parse (file : String) (lines : List SourceLine) : Except Error (List Directive) :=
  lines.mapM (parseLine file)

end TreeLayout.Rules
