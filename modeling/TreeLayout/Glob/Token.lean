import TreeLayout.Regular.Basic
import TreeLayout.Text.Basic

/-!
# Tokens of a glob

A glob is read into a list of tokens, and each token describes words of bytes. The wildcards `?` and
`*` stay within a segment of a path; the double-star tokens cross segments. A character class
describes one byte, so a class of characters beyond ASCII describes bytes of their UTF-8 forms.
-/

namespace TreeLayout.Glob

/-- A token of a glob. -/
inductive Token where
  /-- A character that stands for itself. -/
  | literal (c : Char)
  /-- `?`: one byte other than a slash. -/
  | anyByte
  /-- `*`: any bytes other than slashes. -/
  | anyRun
  /-- `**` at the start: nothing, or anything up to a slash. -/
  | leadingStars
  /-- `/**` at the end: a slash and anything after it. -/
  | trailingStars
  /-- `/**/`: a slash, or anything between two slashes. -/
  | innerStars
  /-- `[…]`: one byte of the members' bytes, or, if negated, one other byte. -/
  | class (negated : Bool) (members : List (Char × Char))
  /-- `{…}`: one of the branches; without branches, the empty word. -/
  | group (branches : List Regular)
deriving DecidableEq, Repr

/-- The bytes other than the slash. -/
def withinSegment : ByteSet := ⟨true, [(Text.slashByte, Text.slashByte)]⟩

/-- The expression of one slash. -/
def slash : Regular := .byte (.single Text.slashByte)

/--
The byte ranges of a class member. A single character contributes each of its bytes; a range
contributes the leading bytes of its first character, the closing bytes of its last character, and
the range of bytes between the two that meet.
-/
def memberRanges (member : Char × Char) : List (UInt8 × UInt8) :=
  let single (b : UInt8) := (b, b)
  let first := String.utf8EncodeChar member.1
  let last := String.utf8EncodeChar member.2
  if member.1 = member.2 then first.map single
  else first.dropLast.map single ++ (first.getLastD 0, last.headD 0) :: last.tail.map single

namespace Token

/-- The words of a token. -/
def toRegular : Token → Regular
  | literal c => .literal (String.utf8EncodeChar c)
  | anyByte => .byte withinSegment
  | anyRun => .star (.byte withinSegment)
  | leadingStars => .alt (.alt .empty slash) (.seq .anything slash)
  | trailingStars => .seq slash .anything
  | innerStars => .alt slash (.seq slash (.seq .anything slash))
  | .class negated members => .byte ⟨negated, members.flatMap memberRanges⟩
  | group branches => .oneOf branches

/-- Whether a token leaves nothing behind: a group without branches. -/
def isVoid : Token → Bool
  | group [] => true
  | _ => false

/-- The character of a literal token. -/
def literal? : Token → Option Char
  | literal c => some c
  | _ => none

end Token

/-- The words of tokens in a row. -/
def concat (tokens : List Token) : Regular := .concat (tokens.map Token.toRegular)

end TreeLayout.Glob
