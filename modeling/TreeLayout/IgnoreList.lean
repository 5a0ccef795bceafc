import TreeLayout.Glob.Basic
import TreeLayout.Text.Basic

/-!
# Ignore lists

The lines of a `.gitignore` file. A line is a glob that may be anchored at the root, limited to
directories, or turned into a re-inclusion. A path is ignored if the last line that matches it says
so; where no line matches, the directory above it decides, up to the root itself.

Only the ignore list at the root of a tree is modelled, so all paths are relative to it.
-/

namespace TreeLayout

/-- A line of an ignore list. -/
structure IgnoreLine where
  glob : Glob
  /-- Whether matched paths are re-included instead of ignored. -/
  reincludes : Bool
  directoriesOnly : Bool
deriving DecidableEq, Repr

namespace IgnoreLine

/-- The text of a line without the blanks at its end; after an escaped space they belong to it. -/
def trimmed (line : List Char) : List Char :=
  if [' ', '\\'].isPrefixOf line.reverse then line else Text.trimEnd line

/-- The glob for the paths that a line speaks of: a name without a slash is meant at every depth,
and a recursive wildcard at the end is meant for what lies below a directory, not for itself. -/
def globText (anchored : Bool) (text : List Char) : List Char :=
  let deep := text = ['*', '*'] || ['*', '*', '/'].isPrefixOf text
  let text := if anchored || text.contains '/' || deep then text else ['*', '*', '/'] ++ text
  if ['*', '*', '/'].isPrefixOf text.reverse then text ++ ['/', '*'] else text

/-- The line that a text without outer marks spells. -/
def ofBody (written body : List Char) (reincludes anchored : Bool) : Except Glob.Error IgnoreLine :=
  let directoriesOnly := Text.endsInSlash body
  let body := if directoriesOnly then Text.dropLastOf '\\' body.dropLast else body
  match Glob.compileWith true (.ofList (globText anchored body)) with
  | .ok glob => .ok ⟨glob, reincludes, directoriesOnly⟩
  | .error error => .error ⟨.ofList written, error.fault⟩

/-- Read a line; comments and blank lines say nothing. -/
def parse (line : List Char) : Except Glob.Error (Option IgnoreLine) :=
  if line.head? = some '#' then .ok none
  else
    let line := trimmed line
    match line with
    | [] => .ok none
    | '\\' :: '!' :: body => some <$> ofBody line ('!' :: body) false false
    | '\\' :: '#' :: body => some <$> ofBody line ('#' :: body) false false
    | '!' :: '/' :: body => some <$> ofBody line body true true
    | '!' :: body => some <$> ofBody line body true false
    | '/' :: body => some <$> ofBody line body false true
    | body => some <$> ofBody line body false false

/-- Whether a line speaks of a path. -/
def speaksOf (line : IgnoreLine) (path : List Char) (isDirectory : Bool) : Bool :=
  (isDirectory || !line.directoriesOnly) && line.glob.isMatchInSet path

end IgnoreLine

/-- The lines of an ignore list that say something, in order. -/
structure IgnoreList where
  lines : List IgnoreLine
deriving DecidableEq, Repr

/-- An absolute path where only relative ones have an answer. -/
structure RootedPath where
  path : String
deriving DecidableEq, Repr

namespace IgnoreList

/-- Read the lines of a list; the first malformed line is the error. -/
def ofLines (lines : List String) : Except Glob.Error IgnoreList :=
  return ⟨(← lines.mapM fun line => IgnoreLine.parse line.toList).filterMap id⟩

/-- Whether the last line that speaks of a path ignores it; none if no line speaks of it. -/
def verdict? (list : IgnoreList) (path : List Char) (isDirectory : Bool) : Option Bool :=
  (list.lines.reverse.find? (·.speaksOf path isDirectory)).map fun line => !line.reincludes

/-- Whether a segment adds nothing to the path of the segments before it, which are given from the
last one back. -/
def isVacant (segment : List Char) (earlier : List (List Char)) : Bool :=
  segment = [] || (segment = ['.'] && !earlier.isEmpty)

/-- Segments, given from the last one back, from the last one that adds something. -/
def dropVacant : List (List Char) → List (List Char)
  | [] => []
  | segment :: earlier =>
    if isVacant segment earlier then dropVacant earlier else segment :: earlier

/-- The directories above a path whose segments are given from the last one back, the nearest first.
The last one is the root, whose path is empty. -/
def ancestorsOf : List (List Char) → List (List Char)
  | [] => []
  | segment :: earlier =>
    if isVacant segment earlier then ancestorsOf earlier
    else Text.join '/' (dropVacant earlier).reverse :: ancestorsOf earlier

/-- The directories above a relative path, the nearest first. -/
def ancestors (path : List Char) : List (List Char) := ancestorsOf (Text.segments path).reverse

/-- Whether a relative path is ignored: as a file by the last line that speaks of it, or else as a
part of the nearest directory above it that a line speaks of. -/
def isIgnored (list : IgnoreList) (path : String) : Except RootedPath Bool :=
  let text := Text.dropDotSlash path.toList
  if list.lines = [] then .ok false
  else if text.head? = some '/' then .error ⟨path⟩
  else
    let verdict := list.verdict? text false <|> (ancestors text).findSome? (list.verdict? · true)
    .ok (verdict.getD false)

end IgnoreList

end TreeLayout
