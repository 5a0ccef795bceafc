import TreeLayout.Glob.Token
import TreeLayout.Glob.Fault

/-!
# Reading a glob

A glob is read character by character. The state holds the tokens of the innermost open group, the
groups around it, and the character before the next one, because the meaning of `**` depends on its
neighbours on both sides. A class that is never closed is a fault, or, where brackets are lenient,
makes its opening bracket and all later ones literal.
-/

namespace TreeLayout.Glob

/-- What has been read of a character class: its sign, its members (latest first), and whether the
last character was a `-` that awaits the end of a range. -/
structure ClassReader where
  negated : Bool := false
  members : List (Char × Char) := []
  inRange : Bool := false

namespace ClassReader

/-- Read one more character of a class; the closing bracket yields its token. -/
def step (reader : ClassReader) (c : Char) : Except Fault (ClassReader ⊕ Token) :=
  match reader.members with
  | [] =>
    if !reader.negated && (c = '!' || c = '^') then .ok (.inl { reader with negated := true })
    else .ok (.inl { reader with members := [(c, c)] })
  | (first, last) :: members =>
    if c = ']' then
      let closing := if reader.inRange then [('-', '-')] else []
      .ok (.inr (.class reader.negated (members.reverse ++ [(first, last)] ++ closing)))
    else if reader.inRange then
      if c < first then .error (.invalidRange first c)
      else .ok (.inl { reader with members := (first, c) :: members, inRange := false })
    else if c = '-' then .ok (.inl { reader with inRange := true })
    else .ok (.inl { reader with members := (c, c) :: (first, last) :: members })

/-- Whether the text ends before the class is closed, without a fault on the way. -/
def staysOpen (reader : ClassReader) : List Char → Bool
  | [] => true
  | c :: rest =>
    match reader.step c with
    | .ok (.inl reader) => staysOpen reader rest
    | _ => false

end ClassReader

/-- An open group, or the whole glob: its finished branches and the tokens of its current one, both
latest first. -/
structure Level where
  branches : List Regular := []
  tokens : List Token := []

namespace Level

/-- A level with one more token in its current branch. -/
def push (level : Level) (token : Token) : Level := { level with tokens := token :: level.tokens }

/-- The branches of a level once its current one is finished; a void branch is left out. -/
def finished (level : Level) : List Regular :=
  if level.tokens.all Token.isVoid then level.branches
  else concat level.tokens.reverse :: level.branches

end Level

/-- What the next character continues. -/
inductive Mode where
  | text
  | escape
  /-- After one star; holds the character before it. -/
  | star (before : Option Char)
  /-- After two stars; holds the character before them. -/
  | stars (before : Option Char)
  | class (reader : ClassReader)

/-- What has been read of a glob. -/
structure Reader where
  /-- Whether a class that is never closed is read as literal text. -/
  lenient : Bool
  level : Level := {}
  /-- The levels around the current one, innermost first. -/
  outer : List Level := []
  last : Option Char := none
  mode : Mode := .text
  /-- Whether brackets have become literal, since one was never closed. -/
  literalBrackets : Bool := false

namespace Reader

/-- A reader with one more token. -/
def push (reader : Reader) (token : Token) : Reader :=
  { reader with level := reader.level.push token }

/-- Whether the reader stands within a group. -/
def inGroup (reader : Reader) : Bool := !reader.outer.isEmpty

/-- Put a double-star token in the place of the last token, which is the slash before the stars;
after another such token at the start or the end of a glob it adds nothing. -/
def pushStars (reader : Reader) (token : Token) : Reader :=
  let tokens := match reader.level.tokens with
    | .leadingStars :: tokens => .leadingStars :: tokens
    | .trailingStars :: tokens => .trailingStars :: tokens
    | _ :: tokens => token :: tokens
    | [] => [token]
  { reader with level := { reader.level with tokens } }

/--
Give two stars their meaning from the characters before and after them. They cross segments where
they fill a whole segment of the glob or of a group's branch, and are two single stars elsewhere.
The flag tells whether the slash after them belongs to them.
-/
def closeStars (reader : Reader) (before next : Option Char) : Reader × Bool :=
  let reader := { reader with mode := .text, last := some '*' }
  let twoStars := (reader.push .anyRun).push .anyRun
  if reader.level.tokens.isEmpty then
    if next.all (· = '/') then (reader.push .leadingStars, true) else (twoStars, false)
  else if before = some '/' || (reader.inGroup && (before = some ',' || before = some '\x7b')) then
    match next with
    | none => (reader.pushStars .trailingStars, false)
    | some '/' => (reader.pushStars .innerStars, true)
    | some c =>
      if reader.inGroup && (c = ',' || c = '\x7d') then (reader.pushStars .trailingStars, false)
      else (twoStars, false)
  else (twoStars, false)

/-- Read a character that starts a token; `rest` is the text after it. -/
def stepText (reader : Reader) (c : Char) (rest : List Char) : Except Fault Reader :=
  let next := { reader with last := some c }
  match c with
  | '?' => .ok (next.push .anyByte)
  | '*' => .ok { next with mode := .star reader.last }
  | '[' =>
    if reader.literalBrackets then .ok (next.push (.literal '['))
    else if reader.lenient && ClassReader.staysOpen {} rest then
      .ok { next.push (.literal '[') with literalBrackets := true }
    else .ok { next with mode := .class {} }
  | '\x7b' => .ok { next with level := {}, outer := reader.level :: reader.outer }
  | '\x7d' =>
    match reader.outer with
    | [] => .error .unopenedGroup
    | level :: outer =>
      .ok { next with level := level.push (.group reader.level.finished.reverse), outer }
  | ',' =>
    if reader.inGroup then .ok { next with level := ⟨reader.level.finished, []⟩ }
    else .ok (next.push (.literal ','))
  | '\\' => .ok { next with mode := .escape }
  | c => .ok (next.push (.literal c))

/-- Read one character; `rest` is the text after it. -/
def step (reader : Reader) (c : Char) (rest : List Char) : Except Fault Reader :=
  match reader.mode with
  | .text => reader.stepText c rest
  | .escape => .ok { reader.push (.literal c) with mode := .text, last := some c }
  | .star before =>
    if c = '*' then .ok { reader with mode := .stars before, last := some c }
    else ({ reader.push .anyRun with mode := .text }).stepText c rest
  | .stars before =>
    match reader.closeStars before (some c) with
    | (reader, true) => .ok { reader with last := some c }
    | (reader, false) => reader.stepText c rest
  | .class classReader => do
    match ← classReader.step c with
    | .inl classReader => .ok { reader with mode := .class classReader, last := some c }
    | .inr token => .ok { reader.push token with mode := .text, last := some c }

/-- Read a whole text. -/
def run (reader : Reader) : List Char → Except Fault Reader
  | [] => .ok reader
  | c :: rest => do (← reader.step c rest).run rest

/-- The tokens of a glob whose text has been read to its end. -/
def finish (reader : Reader) : Except Fault (List Token) := do
  let reader ← match reader.mode with
    | .text => pure reader
    | .escape => throw .danglingEscape
    | .star _ => pure (reader.push .anyRun)
    | .stars before => pure (reader.closeStars before none).1
    | .class _ => throw .unclosedClass
  if reader.inGroup then throw .unclosedGroup
  return reader.level.tokens.reverse

end Reader

/-- The tokens of a glob's text. -/
def parse (lenient : Bool) (text : List Char) : Except Fault (List Token) := do
  (← Reader.run { lenient } text).finish

end TreeLayout.Glob
