import TreeLayout.Glob.Parser
import TreeLayout.Text.Path

/-!
# Globs

A compiled glob and the paths that it matches, alone and as a member of a set. A glob is matched
against the bytes of the whole path; a glob that is nothing but leading stars matches every path.
-/

namespace TreeLayout

/-- A well-formed glob. -/
structure Glob where
  text : String
  tokens : List Glob.Token
deriving DecidableEq, Repr

namespace Glob

/-- Compile a glob; with `lenient` brackets, a class that is never closed is literal text. The regex
engine that a glob is translated for is not modelled: it would refuse a glob whose groups are nested
more than 250 deep, or one that is too large for it, where here every well-formed glob compiles. -/
def compileWith (lenient : Bool) (text : String) : Except Error Glob :=
  match parse lenient text.toList with
  | .ok tokens => .ok ⟨text, tokens⟩
  | .error fault => .error ⟨text, fault⟩

/-- Compile a glob. -/
def compile (text : String) : Except Error Glob := compileWith false text

/-- The words of bytes that a glob describes. -/
def toRegular (glob : Glob) : Regular :=
  if glob.tokens = [.leadingStars] then .anything else concat glob.tokens

/-- Whether a glob matches a path. -/
def isMatch (glob : Glob) (path : List Char) : Bool := glob.toRegular.accepts (Text.bytes path)

/-- The literal characters at the end of a glob, last first. -/
def closingLiterals (glob : Glob) : List Char :=
  (glob.tokens.reverse.map Token.literal?).takeWhile Option.isSome |>.filterMap id

/--
Whether a member of a set looks only at names and extensions, so that it never matches a path that
ends in the segment `..`, which has neither: leading stars before a literal without a slash, or a
glob that ends in a literal extension and is neither a literal nor leading stars before a literal.
-/
def needsName (glob : Glob) : Bool :=
  let isLiteral (tokens : List Token) := tokens.all fun token => token.literal?.isSome
  let hasExtension := (glob.closingLiterals.takeWhile (· ≠ '/')).contains '.'
  match glob.tokens with
  | .leadingStars :: tokens =>
    if isLiteral tokens then !tokens.isEmpty && !tokens.contains (.literal '/') else hasExtension
  | tokens => !isLiteral tokens && hasExtension

/-- Whether a glob matches a path as a member of a set. -/
def isMatchInSet (glob : Glob) (path : List Char) : Bool :=
  glob.isMatch path && !(glob.needsName && Text.lastSegment path = ['.', '.'])

end Glob

end TreeLayout
