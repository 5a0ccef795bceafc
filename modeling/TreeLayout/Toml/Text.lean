/-!
# TOML strings

Basic strings know escapes and literal strings do not; both may run over several lines between
tripled quotes. Each reader takes the text after the opening quotes and returns the contents and the
text after the closing quotes.
-/

namespace TreeLayout.Toml

/-- The characters that may stand in a comment or a string: all but the control characters, of which
only the tab may. -/
def isPlain (c : Char) : Bool := c = '\t' || (0x20 ≤ c.toNat && c.toNat ≠ 0x7F)

/-- Blanks within a line. -/
def isLineBlank (c : Char) : Bool := c = ' ' || c = '\t'

/-- The value of a hexadecimal digit. -/
def hexValue? (c : Char) : Option Nat :=
  if c.isDigit then some (c.toNat - 48)
  else if 'a' ≤ c && c ≤ 'f' then some (c.toNat - 87)
  else if 'A' ≤ c && c ≤ 'F' then some (c.toNat - 55)
  else none

/-- The character whose code point has the given hexadecimal digits. -/
def hexChar? (digits : List Char) : Option Char := do
  let code ← digits.foldlM (fun code digit => return 16 * code + (← hexValue? digit)) 0
  if code.isValidChar then some (.ofNat code) else none

/-- The character that a letter stands for after a backslash. -/
def escaped? : Char → Option Char
  | 'b' => some '\x08'
  | 't' => some '\t'
  | 'n' => some '\n'
  | 'f' => some '\x0c'
  | 'r' => some '\r'
  | '"' => some '"'
  | '\\' => some '\\'
  | _ => none

/-- Put a character before the contents that have been read. -/
def prepend (c : Char) (read : Option (List Char × List Char)) : Option (List Char × List Char) :=
  read.map fun (contents, rest) => (c :: contents, rest)

/-- Read a basic string on one line. -/
def readBasic : List Char → Option (List Char × List Char)
  | [] => none
  | '"' :: rest => some ([], rest)
  | '\\' :: 'u' :: a :: b :: c :: d :: rest => do prepend (← hexChar? [a, b, c, d]) (readBasic rest)
  | '\\' :: 'U' :: a :: b :: c :: d :: e :: f :: g :: h :: rest => do
    prepend (← hexChar? [a, b, c, d, e, f, g, h]) (readBasic rest)
  | '\\' :: c :: rest => do prepend (← escaped? c) (readBasic rest)
  | c :: rest => if isPlain c then prepend c (readBasic rest) else none

/-- Read a literal string on one line. -/
def readLiteral : List Char → Option (List Char × List Char)
  | [] => none
  | '\'' :: rest => some ([], rest)
  | c :: rest => if isPlain c then prepend c (readLiteral rest) else none

/-- Whether a text goes on with a line break after blanks. -/
def startsBreak : List Char → Bool
  | '\n' :: _ => true
  | '\r' :: '\n' :: _ => true
  | c :: rest => isLineBlank c && startsBreak rest
  | [] => false

/-- Close a string over several lines, given the text after a first quote: of up to five quotes in a
row the last three close it, and those before them belong to it. -/
def closeLines? (quote : Char) : List Char → Option (List Char × List Char)
  | b :: c :: rest =>
    if b ≠ quote || c ≠ quote then none
    else match rest with
      | [] => some ([], [])
      | d :: rest =>
        if d ≠ quote then some ([], d :: rest)
        else match rest with
          | [] => some ([quote], [])
          | e :: rest =>
            some (if e ≠ quote then ([quote], e :: rest) else ([quote, quote], rest))
  | _ => none

/-- Read the lines of a basic string. After a backslash at the end of a line, which sets `skipping`,
all blanks and line breaks up to the next other character are left out. -/
def readBasicLines (skipping : Bool) : List Char → Option (List Char × List Char)
  | [] => none
  | '\n' :: rest =>
    if skipping then readBasicLines true rest else prepend '\n' (readBasicLines false rest)
  | '\r' :: '\n' :: rest =>
    if skipping then readBasicLines true rest else prepend '\n' (readBasicLines false rest)
  | '"' :: rest =>
    match closeLines? '"' rest with
    | some closed => some closed
    | none => prepend '"' (readBasicLines false rest)
  | '\\' :: rest =>
    if startsBreak rest then readBasicLines true rest
    else match rest with
      | 'u' :: a :: b :: c :: d :: rest => do
        prepend (← hexChar? [a, b, c, d]) (readBasicLines false rest)
      | 'U' :: a :: b :: c :: d :: e :: f :: g :: h :: rest => do
        prepend (← hexChar? [a, b, c, d, e, f, g, h]) (readBasicLines false rest)
      | c :: rest => do prepend (← escaped? c) (readBasicLines false rest)
      | [] => none
  | c :: rest =>
    if skipping && isLineBlank c then readBasicLines true rest
    else if isPlain c then prepend c (readBasicLines false rest)
    else none

/-- Read the lines of a literal string. -/
def readLiteralLines : List Char → Option (List Char × List Char)
  | [] => none
  | '\n' :: rest => prepend '\n' (readLiteralLines rest)
  | '\r' :: '\n' :: rest => prepend '\n' (readLiteralLines rest)
  | '\'' :: rest =>
    match closeLines? '\'' rest with
    | some closed => some closed
    | none => prepend '\'' (readLiteralLines rest)
  | c :: rest => if isPlain c then prepend c (readLiteralLines rest) else none

/-- A text without a line break at its start. -/
def dropBreak : List Char → List Char
  | '\n' :: rest => rest
  | '\r' :: '\n' :: rest => rest
  | text => text

/-- Read a string of any kind with its quotes. -/
def readString : List Char → Option (List Char × List Char)
  | '"' :: '"' :: '"' :: rest => readBasicLines false (dropBreak rest)
  | '\'' :: '\'' :: '\'' :: rest => readLiteralLines (dropBreak rest)
  | '"' :: rest => readBasic rest
  | '\'' :: rest => readLiteral rest
  | _ => none

end TreeLayout.Toml
