/-!
# Reading doubles from text

The texts that name a double: an optional sign, then digits with an optional point (at least one
digit in all) and an optional exponent, or one of the words `inf`, `infinity` and `nan` in any case.
Nothing may stand before or after. The value is the double nearest to the decimal; what is too large
becomes infinite and what is too small becomes zero.
-/

namespace Roster.Decimal

/-- The leading decimal digits of a text, and what follows them. -/
def digitRun (cs : List Char) : List Char × List Char :=
  cs.span Char.isDigit

/-- The number that digits stand for. -/
def natOfDigits (ds : List Char) : Nat :=
  Nat.ofDigitChars 10 ds 0

/-- The double nearest to `digits · 10^exponent`. Outside the range of the doubles the answer is
    known from the number of digits alone, so no huge power is ever formed. -/
def nearest (digits : List Char) (exponent : Int) : Float :=
  let significant := digits.dropWhile (· == '0')
  if significant.isEmpty then 0.0
  else
    let magnitude := exponent + significant.length
    if 310 < magnitude then 1.0 / 0.0
    else if magnitude < -330 then 0.0
    else Float.ofScientific (natOfDigits significant) (exponent < 0) exponent.natAbs

/-- An exponent after its letter: an optional sign and at least one digit, to the end of the
    text. -/
def readExponent (cs : List Char) : Option Int :=
  let (negative, ds) :=
    match cs with
    | '-' :: r => (true, r)
    | '+' :: r => (false, r)
    | r => (false, r)
  if ds.isEmpty || !ds.all Char.isDigit then none
  else
    let n : Int := natOfDigits ds
    some (if negative then -n else n)

/-- A number without its sign: digits, perhaps a point, and perhaps an exponent. -/
def readDigits (cs : List Char) : Option Float :=
  let (whole, afterWhole) := digitRun cs
  let (fraction, afterFraction) :=
    match afterWhole with
    | '.' :: r => digitRun r
    | r => ([], r)
  if whole.isEmpty && fraction.isEmpty then none
  else
    let value (e : Int) := nearest (whole ++ fraction) (e - fraction.length)
    match afterFraction with
    | [] => some (value 0)
    | c :: r => if c == 'e' || c == 'E' then (readExponent r).map value else none

/-- The numbers that have names, in any case of the letters. -/
def readName (cs : List Char) : Option Float :=
  let name := String.ofList (cs.map Char.toLower)
  if name == "inf" || name == "infinity" then some (1.0 / 0.0)
  else if name == "nan" then some (0.0 / 0.0)
  else none

/-- The double that a text stands for. -/
def read? (text : String) : Option Float :=
  let (negative, cs) :=
    match text.toList with
    | '-' :: r => (true, r)
    | '+' :: r => (false, r)
    | r => (false, r)
  ((readDigits cs).or (readName cs)).map fun x => if negative then -x else x

end Roster.Decimal
