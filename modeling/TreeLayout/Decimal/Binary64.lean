/-!
# Decimal numbers as binary64 values

The binary64 value nearest to a decimal number, and the fewest decimal digits that lead back to a
value. Everything is exact arithmetic on natural numbers: a value is a mantissa of at most 53 bits
times a power of two, and a decimal number is a natural number times a power of ten.

That no shorter decimal leads back is by construction of the search and not proved here.
-/

namespace TreeLayout.Decimal

/-- A binary64 value: `mantissa · 2 ^ exponent` with a sign, an infinity, or no number. -/
inductive Binary64 where
  | finite (negative : Bool) (mantissa : Nat) (exponent : Int)
  | infinite (negative : Bool)
  | nan
deriving DecidableEq, Repr

/-- The quotient rounded to the nearest natural number, a half to the even neighbour. -/
def roundHalfEven (num den : Nat) : Nat :=
  let quotient := num / den
  let rest := 2 * (num % den)
  if rest < den then quotient
  else if den < rest then quotient + 1
  else quotient + quotient % 2

/-- A quotient times a power of two as a fraction. -/
def scale (num den : Nat) (exponent : Int) : Nat × Nat :=
  if 0 ≤ exponent then (num * Nat.pow 2 exponent.toNat, den)
  else (num, den * Nat.pow 2 (-exponent).toNat)

/-- The least mantissa of 53 bits. -/
def leastFullMantissa : Nat := Nat.pow 2 52

/-- The least exponent of a binary64 mantissa. -/
def leastExponent : Int := -1074

/-- The greatest exponent of a binary64 mantissa. -/
def greatestExponent : Int := 971

namespace Binary64

/-- The value nearest to a positive quotient, a tie going to the even mantissa. -/
def ofQuotient (negative : Bool) (num den : Nat) : Binary64 :=
  let guess : Int := (num.log2 : Int) - den.log2 - 53
  let fits (exponent : Int) : Bool :=
    let (n, d) := scale num den (-exponent)
    n / d < 2 * leastFullMantissa
  let exponent := if fits guess then guess else if fits (guess + 1) then guess + 1 else guess + 2
  let exponent := max exponent leastExponent
  let (n, d) := scale num den (-exponent)
  let mantissa := roundHalfEven n d
  let (mantissa, exponent) :=
    if mantissa = 2 * leastFullMantissa then (leastFullMantissa, exponent + 1)
    else (mantissa, exponent)
  if greatestExponent < exponent then infinite negative else finite negative mantissa exponent

/-- The value nearest to `digits · 10 ^ exponent`. Exponents far outside the range of the values are
decided by the number of digits alone. -/
def ofDecimal (negative : Bool) (digits : Nat) (exponent : Int) : Binary64 :=
  let magnitude : Int := (Nat.toDigits 10 digits).length + exponent
  if digits = 0 || magnitude < -400 then finite negative 0 leastExponent
  else if 400 < magnitude then infinite negative
  else if 0 ≤ exponent then ofQuotient negative (digits * Nat.pow 10 exponent.toNat) 1
  else ofQuotient negative digits (Nat.pow 10 (-exponent).toNat)

end Binary64

/--
The multiple of `10 ^ place` nearest to `mantissa · 2 ^ exponent`, in units of `10 ^ place`, if it
lies in the interval of the numbers whose nearest binary64 value this is. All numbers are scaled by
four, so that the ends of the interval are whole; the lower half is shorter next to a power of two.
-/
def onGrid? (mantissa : Nat) (exponent place : Int) : Option Nat :=
  let power (n : Int) : Nat := Nat.pow 10 n.toNat
  let (unit, one) := scale 1 1 (exponent - 2)
  let value := 4 * mantissa * unit * power (-place)
  let isShort := mantissa = leastFullMantissa && leastExponent < exponent
  let lower := (4 * mantissa - if isShort then 1 else 2) * unit * power (-place)
  let upper := (4 * mantissa + 2) * unit * power (-place)
  let step := one * power place
  let inside (multiple : Nat) : Bool :=
    let point := multiple * step
    (lower < point && point < upper) || (mantissa % 2 = 0 && (point = lower || point = upper))
  let below := value / step
  let above := below + 1
  let nearest :=
    if value - below * step ≤ above * step - value then [below, above] else [above, below]
  nearest.find? fun multiple => 0 < multiple && inside multiple

/-- The coarsest decimal grid from `place` down with a point that leads back, and that point. -/
def coarsest (mantissa : Nat) (exponent : Int) : Nat → Int → Nat × Int
  | 0, place => (0, place)
  | fuel + 1, place =>
    match onGrid? mantissa exponent place with
    | some digits => (digits, place)
    | none => coarsest mantissa exponent fuel (place - 1)

/-- The fewest digits that lead back to a positive value, and their power of ten. -/
def shortest (mantissa : Nat) (exponent : Int) : Nat × Int :=
  let start : Int := ((mantissa.log2 : Int) + exponent) * 30103 / 100000 + 2
  coarsest mantissa exponent 30 start

/-- A decimal number in positional notation, with a digit on both sides of the decimal point. -/
def positional (digits : Nat) (place : Int) : String :=
  let text := Nat.toDigits 10 digits
  .ofList (if 0 ≤ place then text ++ List.replicate place.toNat '0' ++ ['.', '0']
    else
      let places := (-place).toNat
      let text := List.replicate (places + 1 - text.length) '0' ++ text
      text.take (text.length - places) ++ '.' :: text.drop (text.length - places))

/-- A value in positional notation with the fewest digits that lead back. -/
def Binary64.text : Binary64 → String
  | nan => "NaN"
  | infinite negative => if negative then "-inf" else "inf"
  | finite negative mantissa exponent =>
    let (digits, place) := if mantissa = 0 then (0, 0) else shortest mantissa exponent
    (if negative then "-" else "") ++ positional digits place

end TreeLayout.Decimal
