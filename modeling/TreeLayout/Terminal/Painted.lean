/-!
# Painted text

Text for a terminal: pieces of text with changes of style between them. Without colour only the text
is written; with colour each change is a control sequence of the terminal. A style replaces the one
before it.
-/

namespace TreeLayout.Terminal

/-- How text looks. -/
structure Style where
  bold : Bool
  dim : Bool
  red : Bool
deriving DecidableEq, Repr

namespace Style

/-- Bold red text. -/
def alarm : Style := ⟨true, false, true⟩

/-- Dim text. -/
def dimmed : Style := ⟨false, true, false⟩

/-- Red text. -/
def reddened : Style := ⟨false, false, true⟩

end Style

/-- A piece of painted text. -/
inductive Piece where
  | text (text : String)
  | style (style : Style)
  | reset
deriving DecidableEq, Repr

/-- Whether colour is written. -/
inductive ColorChoice where
  | auto
  | always
  | never
deriving DecidableEq, Repr

/-- The control sequence with a number. -/
def sequence (number : String) : String := "\x1b[" ++ number ++ "m"

namespace Piece

/-- A piece without colour. -/
def plain : Piece → String
  | .text content => content
  | .style _ => ""
  | .reset => ""

/-- A piece with colour. -/
def colored : Piece → String
  | .text content => content
  | .style look =>
    sequence "0" ++ (if look.bold then sequence "1" else "") ++
      (if look.dim then sequence "2" else "") ++ (if look.red then sequence "31" else "")
  | .reset => sequence "0"

end Piece

/-- Painted text without colour. -/
def plain (pieces : List Piece) : String := String.join (pieces.map Piece.plain)

/-- Painted text with colour. -/
def colored (pieces : List Piece) : String := String.join (pieces.map Piece.colored)

/-- Painted text as it is written where the output is no terminal, so that only an explicit choice
of colour gives any. -/
def write (choice : ColorChoice) (pieces : List Piece) : String :=
  if choice = .always then colored pieces else plain pieces

end TreeLayout.Terminal
