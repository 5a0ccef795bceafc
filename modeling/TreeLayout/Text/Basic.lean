/-!
# Texts

Texts as lists of characters: white space and the trimming of a text at both ends, the UTF-8 form of a
text, pieces between separators, and the lines of a text. No normalisation is involved.

A text without a separator is one piece, so there is always at least one; a text that ends in a line
feed has no last, empty line.
-/

namespace TreeLayout.Text

/-- The 25 characters with the Unicode property `White_Space`. -/
def isBlank (c : Char) : Bool :=
  (0x09 ≤ c.toNat && c.toNat ≤ 0x0D) || c == ' ' || c == '\u0085' || c == '\u00a0' ||
    c == '\u1680' || (0x2000 ≤ c.toNat && c.toNat ≤ 0x200A) || c == '\u2028' || c == '\u2029' ||
    c == '\u202f' || c == '\u205f' || c == '\u3000'

/-- A text without the blank characters at its start. -/
def trimStart (cs : List Char) : List Char := cs.dropWhile isBlank

/-- A text without the blank characters at its end. -/
def trimEnd (cs : List Char) : List Char := (cs.reverse.dropWhile isBlank).reverse

/-- A text without the blank characters at both ends. -/
def trim (cs : List Char) : List Char := trimEnd (trimStart cs)

/-- The UTF-8 bytes of a text. -/
def bytes (text : List Char) : List UInt8 := text.flatMap String.utf8EncodeChar

@[simp] theorem bytes_nil : bytes [] = [] := rfl

@[simp] theorem bytes_append (s t : List Char) : bytes (s ++ t) = bytes s ++ bytes t := by
  simp [bytes]

/-- The byte of a slash. -/
def slashByte : UInt8 := 0x2F

section Split

variable {α : Type} [DecidableEq α]

/-- The first piece of a list cut at every `separator`, and the pieces after it. -/
def splitFirst (separator : α) : List α → List α × List (List α)
  | [] => ([], [])
  | a :: rest =>
    let (piece, pieces) := splitFirst separator rest
    if a = separator then ([], piece :: pieces) else (a :: piece, pieces)

/-- All pieces of a list cut at every `separator`, the empty ones included. -/
def split (separator : α) (text : List α) : List (List α) :=
  (splitFirst separator text).1 :: (splitFirst separator text).2

/-- The pieces joined with one `separator` between neighbours. -/
def join (separator : α) : List (List α) → List α
  | [] => []
  | [piece] => piece
  | piece :: pieces => piece ++ separator :: join separator pieces

/-- Cutting at the separators loses nothing. -/
theorem join_split (separator : α) (text : List α) :
    join separator (split separator text) = text := by
  induction text with
  | nil => rfl
  | cons a rest ih =>
    by_cases h : a = separator
    · subst h
      simpa [split, splitFirst, join] using ih
    · cases hpieces : (splitFirst separator rest).2 <;> simp_all [split, splitFirst, join]

/-- The part of a list before the first `a`, the whole list if there is none. -/
def before (a : α) (text : List α) : List α := text.takeWhile (· ≠ a)

/-- The list without one `a` at its end. -/
def dropLastOf (a : α) (text : List α) : List α :=
  if text.getLast? = some a then text.dropLast else text

/--
The lines of a text whose line feeds and carriage returns are `lf` and `cr`: each ends before a line
feed and loses one carriage return there; what follows the last line feed is a line if it is not
empty, and keeps its carriage return.
-/
def linesBy (lf cr : α) (text : List α) : List (List α) :=
  let pieces := split lf text
  let last := pieces.getLastD []
  pieces.dropLast.map (dropLastOf cr) ++ if last = [] then [] else [last]

/-- The lines of a text of characters. -/
def lines (text : List Char) : List (List Char) := linesBy '\n' '\r' text

end Split

end TreeLayout.Text
