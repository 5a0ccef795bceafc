import TreeLayout.Toml.Text
import TreeLayout.Toml.Value

/-!
# TOML numbers, dates and times

Underscores may stand between digits. Integers have 64 bits; a decimal number too great for binary64
is refused, unless it is negative. A date or time is recognised by the mark after its first digits
and must then be complete and exist in the calendar.
-/

namespace TreeLayout.Toml

/-- Read the digits of a number after its first one. -/
def readMoreDigits (isDigit : Char → Bool) : List Char → Option (List Char × List Char)
  | [] => some ([], [])
  | '_' :: c :: rest => if isDigit c then prepend c (readMoreDigits isDigit rest) else none
  | c :: rest =>
    if isDigit c then prepend c (readMoreDigits isDigit rest)
    else if c = '_' then none
    else some ([], c :: rest)

/-- Read digits, at least one. -/
def readDigits (isDigit : Char → Bool) : List Char → Option (List Char × List Char)
  | c :: rest => if isDigit c then prepend c (readMoreDigits isDigit rest) else none
  | [] => none

/-- Read the digits of a decimal integer; after a leading zero there are no more. -/
def readDecimal : List Char → Option (List Char × List Char)
  | '0' :: rest => some (['0'], rest)
  | text => readDigits Char.isDigit text

/-- The number with the given digits in a base. -/
def valueOf (base : Nat) (digits : List Char) : Nat :=
  digits.foldl (fun n digit => base * n + (hexValue? digit).getD 0) 0

/-- The magnitude of the least integer that 64 bits hold. -/
def integerBound : Nat := Nat.pow 2 63

/-- An integer, if 64 bits hold it. -/
def integer? (negative : Bool) (n : Nat) : Option Value :=
  if negative then if n ≤ integerBound then some (.integer (-n)) else none
  else if n < integerBound then some (.integer n) else none

/-- Read an integer in a base other than ten, after its mark. -/
def readBased (base : Nat) (text : List Char) : Option (Value × List Char) := do
  let isDigit (c : Char) : Bool := (hexValue? c).any (· < base)
  let (digits, rest) ← readDigits isDigit text
  return (← integer? false (valueOf base digits), rest)

/-- Whether a text starts with a minus sign, and the text after its sign. -/
def readSign : List Char → Bool × List Char
  | '-' :: rest => (true, rest)
  | '+' :: rest => (false, rest)
  | text => (false, text)

/-- Read the exponent of a number, which is zero if there is none. -/
def readExponent : List Char → Option (Int × List Char)
  | c :: rest =>
    if c = 'e' || c = 'E' then do
      let (negative, rest) := readSign rest
      let (digits, rest) ← readDigits Char.isDigit rest
      let n := valueOf 10 digits
      return (if negative then -(n : Int) else n, rest)
    else some (0, c :: rest)
  | [] => some (0, [])

/-- The decimal number with the given digits before and after the point. -/
def float? (negative : Bool) (whole fraction : List Char) (exponent : Int) : Option Value :=
  match Decimal.Binary64.ofDecimal negative (valueOf 10 (whole ++ fraction))
      (exponent - fraction.length) with
  | .infinite false => none
  | x => some (.float x)

/-- Read a number. -/
def readNumber (text : List Char) : Option (Value × List Char) :=
  match text with
  | '0' :: 'x' :: rest => readBased 16 rest
  | '0' :: 'o' :: rest => readBased 8 rest
  | '0' :: 'b' :: rest => readBased 2 rest
  | _ =>
    let (negative, unsigned) := readSign text
    match unsigned with
    | 'i' :: 'n' :: 'f' :: rest => some (.float (.infinite negative), rest)
    | 'n' :: 'a' :: 'n' :: rest => some (.float .nan, rest)
    | _ => do
      let (whole, rest) ← readDecimal unsigned
      match rest with
      | '.' :: rest => do
        let (fraction, rest) ← readDigits Char.isDigit rest
        let (exponent, rest) ← readExponent rest
        return (← float? negative whole fraction exponent, rest)
      | 'e' :: _ | 'E' :: _ => do
        let (exponent, rest) ← readExponent rest
        return (← float? negative whole [] exponent, rest)
      | _ => return (← integer? negative (valueOf 10 whole), rest)

/-- Read two digits whose number lies within bounds. -/
def readPair (least greatest : Nat) : List Char → Option (Nat × List Char)
  | a :: b :: rest =>
    let n := valueOf 10 [a, b]
    if a.isDigit && b.isDigit && least ≤ n && n ≤ greatest then some (n, rest) else none
  | _ => none

/-- Read one given character. -/
def readChar (c : Char) : List Char → Option (List Char)
  | d :: rest => if c = d then some rest else none
  | [] => none

/-- The number of days of a month. -/
def daysOf (year month : Nat) : Nat :=
  if month = 2 then if year % 4 = 0 && (year % 100 ≠ 0 || year % 400 = 0) then 29 else 28
  else if month = 4 || month = 6 || month = 9 || month = 11 then 30
  else 31

/-- Read a time of day, and give the text after it. -/
def readTime (text : List Char) : Option (List Char) := do
  let (_, rest) ← readPair 0 23 text
  let (_, rest) ← readPair 0 59 (← readChar ':' rest)
  let (_, rest) ← readPair 0 60 (← readChar ':' rest)
  match rest with
  | '.' :: d :: rest =>
    some (if d.isDigit then rest.dropWhile Char.isDigit else '.' :: d :: rest)
  | _ => some rest

/-- Read the offset of a time from UTC, if there is one, and give the text after it. -/
def readOffset : List Char → Option (List Char)
  | c :: rest =>
    if c = 'Z' || c = 'z' then some rest
    else if c = '+' || c = '-' then do
      let (_, rest) ← readPair 0 23 rest
      let (_, rest) ← readPair 0 59 (← readChar ':' rest)
      return rest
    else some (c :: rest)
  | [] => some []

/-- Whether a text starts like a time: two digits and a colon. -/
def startsTime : List Char → Bool
  | a :: b :: c :: _ => a.isDigit && b.isDigit && c = ':'
  | _ => false

/-- Read a date, perhaps with a time after it, and give the text after both. -/
def readDate (text : List Char) : Option (List Char) := do
  let (century, rest) ← readPair 0 99 text
  let (year, rest) ← readPair 0 99 rest
  let (month, rest) ← readPair 1 12 (← readChar '-' rest)
  let (day, rest) ← readPair 1 31 (← readChar '-' rest)
  if daysOf (100 * century + year) month < day then none
  else match rest with
    | c :: time =>
      if (c = 'T' || c = 't' || c = ' ') && startsTime time then do readOffset (← readTime time)
      else some rest
    | [] => some []

/-- Whether a text starts like a date: four digits and a hyphen. -/
def startsDate : List Char → Bool
  | a :: b :: c :: d :: e :: _ => a.isDigit && b.isDigit && c.isDigit && d.isDigit && e = '-'
  | _ => false

/-- Read a number, a date or a time. -/
def readNumeric (text : List Char) : Option (Value × List Char) :=
  if startsDate text then (readDate text).map (.date, ·)
  else if startsTime text then (readTime text).map (.date, ·)
  else readNumber text

end TreeLayout.Toml
