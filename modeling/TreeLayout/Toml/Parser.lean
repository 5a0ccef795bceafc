import TreeLayout.Toml.Number

/-!
# Reading a TOML document

A document is a list of statements: values under keys, and headers that open tables. Readers take a
text and return what they read and the text after it. Arrays and tables in braces nest at most 79
deep and keys have at most 79 parts.

Only whether a text is a document is decided; the place and the kind of a mistake are not kept.
-/

namespace TreeLayout.Toml

/-- A text without the blanks at its start. -/
def skipBlanks (text : List Char) : List Char := text.dropWhile isLineBlank

/-- The text after a comment, which goes on to the end of the line. -/
def skipComment (text : List Char) : List Char := text.dropWhile isPlain

/-- The text after a line break. -/
def readBreak : List Char → Option (List Char)
  | '\n' :: rest => some rest
  | '\r' :: '\n' :: rest => some rest
  | _ => none

/-- The text after the end of a line: blanks, perhaps a comment, and a line break or the end. -/
def readLineEnd (text : List Char) : Option (List Char) :=
  let rest := match skipBlanks text with
    | '#' :: rest => skipComment rest
    | rest => rest
  if rest = [] then some [] else readBreak rest

/-- The text after blanks, comments and line breaks, where a comment may be the end of the text;
`fuel` bounds their number. -/
def skipSpace : Nat → List Char → Option (List Char)
  | 0, text => some text
  | fuel + 1, text =>
    match skipBlanks text with
    | '#' :: rest =>
      match skipComment rest with
      | [] => some []
      | rest => do skipSpace fuel (← readBreak rest)
    | '\n' :: rest => skipSpace fuel rest
    | '\r' :: rest => do skipSpace fuel (← readChar '\n' rest)
    | rest => some rest

/-- The characters of a key without quotes. -/
def isKeyChar (c : Char) : Bool := c.isAlphanum || c = '-' || c = '_'

/-- Read one part of a key. -/
def readKeyPart (text : List Char) : Option (String × List Char) :=
  match text with
  | '"' :: rest => (readBasic rest).map fun (part, rest) => (.ofList part, rest)
  | '\'' :: rest => (readLiteral rest).map fun (part, rest) => (.ofList part, rest)
  | _ =>
    let part := text.takeWhile isKeyChar
    if part = [] then none else some (.ofList part, text.dropWhile isKeyChar)

/-- Read a key of parts with dots and blanks between them; `fuel` bounds their number. -/
def readKey : Nat → List Char → Option (List String × List Char)
  | 0, _ => none
  | fuel + 1, text => do
    let (part, rest) ← readKeyPart (skipBlanks text)
    match skipBlanks rest with
    | '.' :: rest =>
      let (parts, rest) ← readKey fuel rest
      return (part :: parts, rest)
    | rest => return ([part], rest)

/-- The greatest number of parts of a key, and the greatest depth of nested values. -/
def depthLimit : Nat := 79

/-- Read the values of an array up to its closing bracket; `fuel` bounds their number. -/
def readItems (value : List Char → Option (Value × List Char)) :
    Nat → List Char → Option (List Value × List Char)
  | 0, _ => none
  | fuel + 1, text => do
    match ← skipSpace (text.length + 1) text with
    | ']' :: rest => return ([], rest)
    | text =>
      let (item, rest) ← value text
      match ← skipSpace (rest.length + 1) rest with
      | ',' :: rest =>
        let (items, rest) ← readItems value fuel rest
        return (item :: items, rest)
      | ']' :: rest => return ([item], rest)
      | _ => none

/-- Read a key, an equals sign and a value. -/
def readPairWith (value : List Char → Option (Value × List Char)) (text : List Char) :
    Option ((List String × Value) × List Char) := do
  let (key, rest) ← readKey depthLimit text
  let (value, rest) ← value (skipBlanks (← readChar '=' rest))
  return ((key, value), rest)

/-- Read the pairs of a table in braces up to its closing brace; `fuel` bounds their number. -/
def readBraces (value : List Char → Option (Value × List Char)) :
    Nat → List Char → Option (List (List String × Value) × List Char)
  | 0, _ => none
  | fuel + 1, text => do
    let (pair, rest) ← readPairWith value text
    match skipBlanks rest with
    | ',' :: rest =>
      let (pairs, rest) ← readBraces value fuel rest
      return (pair :: pairs, rest)
    | '\x7d' :: rest => return ([pair], rest)
    | _ => none

/-- Read a value in which arrays and tables in braces nest no deeper than `depth`. -/
def readValue (depth : Nat) (text : List Char) : Option (Value × List Char) :=
  match text with
  | '[' :: rest =>
    match depth with
    | 0 => none
    | depth + 1 => do
      let (items, rest) ← readItems (readValue depth) (rest.length + 1) rest
      return (.array items, rest)
  | '\x7b' :: rest =>
    match depth with
    | 0 => none
    | depth + 1 =>
      match skipBlanks rest with
      | '\x7d' :: rest => some (.table .braces [], rest)
      | rest => do
        let (pairs, rest) ← readBraces (readValue depth) (rest.length + 1) rest
        return (.table .braces (← Entries.defineAll pairs []), rest)
  | 't' :: 'r' :: 'u' :: 'e' :: rest => some (.boolean true, rest)
  | 'f' :: 'a' :: 'l' :: 's' :: 'e' :: rest => some (.boolean false, rest)
  | '"' :: _ | '\'' :: _ =>
    (readString text).map fun (contents, rest) => (.string (.ofList contents), rest)
  | _ => readNumeric text

/-- A statement of a document. -/
inductive Statement where
  | pair (key : List String) (value : Value)
  | table (path : List String)
  | element (path : List String)

/-- Read a statement and the end of its line. -/
def readStatement (text : List Char) : Option (Statement × List Char) := do
  match text with
  | '[' :: '[' :: rest =>
    let (path, rest) ← readKey depthLimit rest
    return (.element path, ← readLineEnd (← readChar ']' (← readChar ']' rest)))
  | '[' :: rest =>
    let (path, rest) ← readKey depthLimit rest
    return (.table path, ← readLineEnd (← readChar ']' rest))
  | _ =>
    let ((key, value), rest) ← readPairWith (readValue depthLimit) text
    return (.pair key value, ← readLineEnd rest)

/-- Read all statements; `fuel` bounds their number. -/
def readStatements : Nat → List Char → Option (List Statement)
  | 0, _ => none
  | fuel + 1, text => do
    match ← skipSpace (text.length + 1) text with
    | [] => return []
    | text =>
      let (statement, rest) ← readStatement text
      return statement :: (← readStatements fuel rest)

/-- The pairs of the section after a header, and the sections that follow, each a header with its
pairs. -/
def sections :
    List Statement → List (List String × Value) × List (Statement × List (List String × Value))
  | [] => ([], [])
  | .pair key value :: rest =>
    let (pairs, later) := sections rest
    ((key, value) :: pairs, later)
  | header :: rest =>
    let (pairs, later) := sections rest
    ([], (header, pairs) :: later)

/-- The root table that some statements define. -/
def build (statements : List Statement) : Option Entries := do
  let (pairs, later) := sections statements
  let root ← Entries.defineAll pairs []
  later.foldlM (fun root (header, pairs) =>
    match header with
    | .table path => root.defineTable path pairs
    | .element path => root.defineElement path pairs
    | .pair _ _ => none) root

/-- The root table of a document; a byte order mark before it means nothing. -/
def parse (text : String) : Option Entries :=
  let text := match text.toList with
    | '\ufeff' :: rest => rest
    | text => text
  do build (← readStatements (text.length + 1) text)

end TreeLayout.Toml
