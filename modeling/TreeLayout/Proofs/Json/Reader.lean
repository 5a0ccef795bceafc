import TreeLayout.Toml.Number

/-!
# Reading JSON

A reader for JSON texts of any shape, as a consumer of the records has one. Readers take a text and return
what they read and the text after it; values nest at most 127 deep. An escape of four digits is a UTF-16
unit, so a character beyond the basic plane takes two of them, and neither stands alone.
-/

namespace TreeLayout.Json

open Toml (hexValue? prepend readSign)

/-- A JSON value. A number is its significand times a power of ten. -/
inductive Value where
  | null
  | boolean (b : Bool)
  | number (significand exponent : Int)
  | string (text : String)
  | array (items : List Value)
  | object (members : List (String × Value))

/-- A text without the white space at its start. -/
def skipSpace (text : List Char) : List Char :=
  text.dropWhile fun c => c = ' ' || c = '\t' || c = '\n' || c = '\r'

/-- The UTF-16 unit with the given hexadecimal digits. -/
def unit? (digits : List Char) : Option Nat :=
  digits.foldlM (fun unit digit => return 16 * unit + (← hexValue? digit)) 0

/-- Whether a UTF-16 unit is the first of two that stand for one character. -/
def isHighUnit (unit : Nat) : Bool := 0xD800 ≤ unit && unit < 0xDC00

/-- Whether a UTF-16 unit is the second of two that stand for one character. -/
def isLowUnit (unit : Nat) : Bool := 0xDC00 ≤ unit && unit < 0xE000

/-- The character that a letter stands for after a backslash. -/
def escaped? : Char → Option Char
  | '"' => some '"'
  | '\\' => some '\\'
  | '/' => some '/'
  | 'b' => some '\x08'
  | 'f' => some '\x0c'
  | 'n' => some '\n'
  | 'r' => some '\r'
  | 't' => some '\t'
  | _ => none

/-- Read a string after its opening quote, or after the first unit of a character that has two. -/
def readString (high : Option Nat) : List Char → Option (List Char × List Char)
  | [] => none
  | '"' :: rest => if high.isSome then none else some ([], rest)
  | '\\' :: 'u' :: a :: b :: c :: d :: rest => do
    let unit ← unit? [a, b, c, d]
    match high with
    | some high =>
      if isLowUnit unit then
        prepend (.ofNat (0x10000 + 0x400 * (high - 0xD800) + (unit - 0xDC00))) (readString none rest)
      else none
    | none =>
      if isHighUnit unit then readString (some unit) rest
      else if isLowUnit unit then none
      else prepend (.ofNat unit) (readString none rest)
  | '\\' :: c :: rest =>
    if high.isSome then none else do prepend (← escaped? c) (readString none rest)
  | c :: rest =>
    if high.isSome || c.toNat < 0x20 then none else prepend c (readString none rest)

/-- Read digits, at least one. -/
def readDigits (text : List Char) : Option (List Char × List Char) :=
  if text.takeWhile Char.isDigit = [] then none
  else some (text.takeWhile Char.isDigit, text.dropWhile Char.isDigit)

/-- Read the digits of a whole number; after a leading zero there are no more. -/
def readWhole : List Char → Option (List Char × List Char)
  | '0' :: rest => some (['0'], rest)
  | text => readDigits text

/-- Read the digits after the decimal point of a number, which may have none. -/
def readFraction : List Char → Option (List Char × List Char)
  | '.' :: rest => readDigits rest
  | text => some ([], text)

/-- Read the exponent of a number, which is zero if there is none. -/
def readExponent : List Char → Option (Int × List Char)
  | c :: rest =>
    if c = 'e' || c = 'E' then do
      let (negative, rest) := readSign rest
      let (digits, rest) ← readDigits rest
      let n : Int := Nat.ofDigitChars 10 digits 0
      return (if negative then -n else n, rest)
    else some (0, c :: rest)
  | [] => some (0, [])

/-- Whether a text starts with a minus sign, and the text after it. -/
def readMinus : List Char → Bool × List Char
  | '-' :: rest => (true, rest)
  | text => (false, text)

/-- Read a number. -/
def readNumber (text : List Char) : Option (Value × List Char) := do
  let (negative, rest) := readMinus text
  let (whole, rest) ← readWhole rest
  let (fraction, rest) ← readFraction rest
  let (exponent, rest) ← readExponent rest
  let n : Int := Nat.ofDigitChars 10 (whole ++ fraction) 0
  return (.number (if negative then -n else n) (exponent - fraction.length), rest)

/-- Read the items of an array up to its closing bracket; `fuel` bounds their number. -/
def readItems (value : List Char → Option (Value × List Char)) :
    Nat → List Char → Option (List Value × List Char)
  | 0, _ => none
  | fuel + 1, text => do
    let (item, rest) ← value text
    match skipSpace rest with
    | ',' :: rest => do
      let (items, rest) ← readItems value fuel rest
      return (item :: items, rest)
    | ']' :: rest => return ([item], rest)
    | _ => none

/-- Read a key, a colon and a value. -/
def readMember (value : List Char → Option (Value × List Char)) (text : List Char) :
    Option ((String × Value) × List Char) :=
  match skipSpace text with
  | '"' :: rest => do
    let (key, rest) ← readString none rest
    match skipSpace rest with
    | ':' :: rest => do
      let (value, rest) ← value rest
      return ((.ofList key, value), rest)
    | _ => none
  | _ => none

/-- Read the members of an object up to its closing brace; `fuel` bounds their number. -/
def readMembers (value : List Char → Option (Value × List Char)) :
    Nat → List Char → Option (List (String × Value) × List Char)
  | 0, _ => none
  | fuel + 1, text => do
    let (member, rest) ← readMember value text
    match skipSpace rest with
    | ',' :: rest => do
      let (members, rest) ← readMembers value fuel rest
      return (member :: members, rest)
    | '\x7d' :: rest => return ([member], rest)
    | _ => none

/-- Read a value in which arrays and objects nest no deeper than `depth`. -/
def readValue (depth : Nat) (text : List Char) : Option (Value × List Char) :=
  match skipSpace text with
  | '[' :: rest =>
    match depth with
    | 0 => none
    | depth + 1 =>
      match skipSpace rest with
      | ']' :: rest => some (.array [], rest)
      | rest => (readItems (readValue depth) (rest.length + 1) rest).map fun (items, rest) =>
        (.array items, rest)
  | '\x7b' :: rest =>
    match depth with
    | 0 => none
    | depth + 1 =>
      match skipSpace rest with
      | '\x7d' :: rest => some (.object [], rest)
      | rest => (readMembers (readValue depth) (rest.length + 1) rest).map fun (members, rest) =>
        (.object members, rest)
  | '"' :: rest =>
    (readString none rest).map fun (contents, rest) => (.string (.ofList contents), rest)
  | 't' :: 'r' :: 'u' :: 'e' :: rest => some (.boolean true, rest)
  | 'f' :: 'a' :: 'l' :: 's' :: 'e' :: rest => some (.boolean false, rest)
  | 'n' :: 'u' :: 'l' :: 'l' :: rest => some (.null, rest)
  | text => readNumber text

/-- The greatest depth of nested values. -/
def depthLimit : Nat := 127

/-- The value that a JSON text spells. -/
def parse? (text : List Char) : Option Value :=
  match readValue depthLimit text with
  | some (value, rest) => if skipSpace rest = [] then some value else none
  | none => none

namespace Value

/-- The member of an object with a key. -/
def member? (value : Value) (key : String) : Option Value :=
  match value with
  | object members => members.lookup key
  | _ => none

/-- The text of a string. -/
def text? : Value → Option String
  | string text => some text
  | _ => none

/-- The truth value of a boolean. -/
def flag? : Value → Option Bool
  | boolean b => some b
  | _ => none

/-- The natural number that a number without fraction and exponent is. -/
def count? : Value → Option Nat
  | number (.ofNat n) 0 => some n
  | _ => none

end Value

end TreeLayout.Json
