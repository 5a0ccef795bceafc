import TreeLayout.Text.Path

/-!
# Placeholder templates

An antecedent with a `%` seen as the segments of a path. The segment that holds the placeholder is
found again in a matched path by its place, counted from the start, or from the end if a recursive
wildcard stands before it. What the placeholder stood for is the part of that segment between the
texts around the `%`.
-/

namespace TreeLayout.Rules

/-- A path pattern with a placeholder in one segment. -/
structure Template where
  /-- The segments before the placeholder's. -/
  before : List (List Char)
  /-- The placeholder's segment up to the placeholder. -/
  head : List Char
  /-- The placeholder's segment after the placeholder. -/
  tail : List Char
  /-- The segments after the placeholder's. -/
  after : List (List Char)
deriving DecidableEq, Repr

/-- Where a segment stands in a path. -/
inductive Anchor where
  /-- Counted from the first segment, which is 0. -/
  | fromStart (index : Nat)
  /-- Counted back from the end; 1 is the last segment. -/
  | fromEnd (distance : Nat)
deriving DecidableEq, Repr

/-- The segment of a path at an anchor. -/
def Anchor.segment? (segments : List (List Char)) : Anchor → Option (List Char)
  | fromStart index => segments[index]?
  | fromEnd distance =>
    if segments.length < distance then none else segments[segments.length - distance]?

/-- The rest of a text after a given start. -/
def afterHead? : List Char → List Char → Option (List Char)
  | [], text => some text
  | _ :: _, [] => none
  | c :: head, d :: text => if c = d then afterHead? head text else none

/-- The rest of a text before a given end. -/
def beforeTail? (tail text : List Char) : Option (List Char) :=
  (afterHead? tail.reverse text.reverse).map List.reverse

namespace Template

/-- The template of a pattern, whose leading `./` means nothing; none without a placeholder. -/
def ofPattern? (pattern : List Char) : Option Template :=
  let segments := Text.segments (Text.dropDotSlash pattern)
  let isPlain (segment : List Char) : Bool := !segment.contains '%'
  match segments.dropWhile isPlain with
  | [] => none
  | segment :: after =>
    some ⟨segments.takeWhile isPlain, Text.before '%' segment,
      (segment.dropWhile (· ≠ '%')).drop 1, after⟩

/-- The pattern with a text in the place of the placeholder. -/
def fill (template : Template) (value : List Char) : List Char :=
  Text.join '/' (template.before ++ (template.head ++ value ++ template.tail) :: template.after)

/-- The pattern with the placeholder read as a wildcard. -/
def wildcard (template : Template) : List Char := template.fill ['*']

/-- Where the placeholder's segment stands in a matched path; a recursive wildcard before it makes
its depth vary, so it is then counted from the end. -/
def anchor (template : Template) : Anchor :=
  if ['*', '*'] ∈ template.before then .fromEnd (template.after.length + 1)
  else .fromStart template.before.length

/-- What the placeholder stands for in a path. -/
def capture? (template : Template) (path : List Char) : Option (List Char) := do
  let segment ← template.anchor.segment? (Text.segments path)
  beforeTail? template.tail (← afterHead? template.head segment)

end Template

end TreeLayout.Rules
