import TreeLayout.Text.Basic

/-!
# Path texts

Slash-separated paths as texts: their segments and components, the order of their segments, a
leading `./`, and slashes at the end. Nothing here looks at a file system.
-/

namespace TreeLayout.Text

/-- The segments of a path, the empty ones included. -/
def segments (path : List Char) : List (List Char) := split '/' path

/-- A text without one leading `./`. -/
def dropDotSlash : List Char → List Char
  | '.' :: '/' :: rest => rest
  | text => text

/-- A text without any leading `./`. -/
def dropDotSlashes : List Char → List Char
  | '.' :: '/' :: rest => dropDotSlashes rest
  | text => text

/-- A text without the slashes at its end. -/
def dropSlashes (text : List Char) : List Char := (text.reverse.dropWhile (· = '/')).reverse

/-- Whether a text ends in a slash. -/
def endsInSlash (text : List Char) : Bool := text.getLast? = some '/'

/--
Lexicographic order on lists of segments, each segment being ordered by its characters. Since UTF-8
keeps the order of code points, this is also the order by encoded bytes. A directory comes right
before what lies below it.
-/
def segmentsLe : List (List Char) → List (List Char) → Bool
  | [], _ => true
  | _ :: _, [] => false
  | a :: as, b :: bs => if a = b then segmentsLe as bs else decide (¬ b < a)

/-- Depth-first order of paths, siblings by name. -/
def pathLe (p q : List Char) : Bool := segmentsLe (segments p) (segments q)

/-- The last segment of a path. -/
def lastSegment (path : List Char) : List Char := (segments path).getLastD []

/--
A path put below a directory: an absolute path replaces the directory; otherwise one slash stands
between them, unless the directory is empty or already ends in one.
-/
def joinPath (directory path : List Char) : List Char :=
  if path.head? = some '/' then path
  else if directory = [] || endsInSlash directory then directory ++ path
  else directory ++ '/' :: path

/-- The parts of a path that have a meaning: the top, `.` at the start, `..`, and names. -/
inductive Component where
  | top
  | here
  | up
  | name (segment : List Char)
deriving DecidableEq, Repr

namespace Component

/-- What a segment means, if it means something: empty segments and `.` do not. -/
def ofSegment? (segment : List Char) : Option Component :=
  if segment = [] || segment = ['.'] then none
  else if segment = ['.', '.'] then some up
  else some (name segment)

/-- The name that a component is, if it is one. -/
def name? : Component → Option (List Char)
  | name segment => some segment
  | _ => none

end Component

/-- What only the start of a path means: `/` there is the top, and `.` is kept there. -/
def leading (path : List Char) : List Component :=
  if path.head? = some '/' then [.top]
  else if (segments path).head? = some ['.'] then [.here]
  else []

/-- The components of a path. -/
def components (path : List Char) : List Component :=
  leading path ++ (segments path).filterMap Component.ofSegment?

/-- The names with which a path goes on below another one, with a slash between neighbours; none for
a path that does not start with the components of the other one. -/
def relativeTo? (root path : List Char) : Option (List Char) :=
  ((components root).isPrefixOf? (components path)).map fun rest =>
    join '/' (rest.filterMap Component.name?)

end TreeLayout.Text
