/-!
# JSON records

Flat JSON objects on one line, whose values are texts, truth values and natural numbers. Characters
that a JSON string cannot hold as they are are escaped; all others are written as they are.
-/

namespace TreeLayout.Json

/-- A value of a flat record. -/
inductive Scalar where
  | text (text : String)
  | flag (flag : Bool)
  | count (count : Nat)
deriving DecidableEq, Repr

/-- A flat JSON object: its keys and values in the order in which they are written. -/
abbrev Record := List (String × Scalar)

/-- A hexadecimal digit, in lower case. -/
def hexDigit (n : Nat) : Char := if n < 10 then .ofNat (48 + n) else .ofNat (87 + n)

/-- A character within a JSON string. -/
def escape (c : Char) : List Char :=
  if c = '"' then ['\\', '"']
  else if c = '\\' then ['\\', '\\']
  else if c = '\n' then ['\\', 'n']
  else if c = '\r' then ['\\', 'r']
  else if c = '\t' then ['\\', 't']
  else if c = '\x08' then ['\\', 'b']
  else if c = '\x0c' then ['\\', 'f']
  else if c.toNat < 0x20 then
    ['\\', 'u', '0', '0', hexDigit (c.toNat / 16), hexDigit (c.toNat % 16)]
  else [c]

/-- A text as a JSON string. -/
def quote (text : String) : List Char := '"' :: text.toList.flatMap escape ++ ['"']

/-- A value as JSON. -/
def Scalar.write : Scalar → List Char
  | .text content => quote content
  | .flag true => ['t', 'r', 'u', 'e']
  | .flag false => ['f', 'a', 'l', 's', 'e']
  | .count n => Nat.toDigits 10 n

/-- The members of an object, separated by commas. -/
def writeMembers : Record → List Char
  | [] => []
  | [(key, value)] => quote key ++ ':' :: value.write
  | (key, value) :: rest => quote key ++ ':' :: value.write ++ ',' :: writeMembers rest

/-- A record as a line of JSON. -/
def writeLine (record : Record) : String :=
  .ofList ('\x7b' :: writeMembers record ++ ['\x7d', '\n'])

/-- Records as lines of JSON. -/
def writeLines (records : List Record) : String := String.join (records.map writeLine)

end TreeLayout.Json
