import Roster.Decimal.Shortest

/-!
# Numerals

The written form of a number as its parts: a sign, the digits before the point, the digits after it,
and an exponent. A `Style` holds the decisions that a format makes about them; `Numeral.ofFloat`
lays the shortest digits of a double out in a style.
-/

namespace Roster.Decimal

/-- A number in writing. Digits are the characters `0` to `9`. -/
structure Numeral where
  negative : Bool := false
  /-- the digits before the point -/
  whole : List Char
  /-- the digits after the point, if a point is written -/
  fraction : Option (List Char) := none
  /-- the exponent, if one is written: whether it has a minus sign, and its digits -/
  exponent : Option (Bool × List Char) := none
  deriving Repr, DecidableEq

/-- A numeral spelt out, the exponent after a small `e` and without a plus sign. -/
def Numeral.chars (n : Numeral) : List Char :=
  (if n.negative then ['-'] else []) ++ n.whole ++
    (match n.fraction with
     | none => []
     | some ds => '.' :: ds) ++
    (match n.exponent with
     | none => []
     | some (neg, ds) => 'e' :: ((if neg then ['-'] else []) ++ ds))

/-- The text of a numeral. -/
def Numeral.text (n : Numeral) : String :=
  String.ofList n.chars

/-- A natural number in decimal digits. -/
def Numeral.ofNat (n : Nat) : Numeral :=
  { whole := Nat.toDigits 10 n }

/-- An integer in decimal digits. -/
def Numeral.ofInt (n : Int) : Numeral :=
  { negative := n < 0, whole := Nat.toDigits 10 n.natAbs }

/-- What a format decides about the layout of doubles. -/
structure Style where
  /-- Which of two equally near decimals is written. -/
  tie : Tie
  /-- Whether a value whose leading digit stands at the given power of ten is written without an
      exponent. -/
  positional : Int → Bool
  /-- Whether a whole number is written with a zero after the point. -/
  pointZero : Bool

/-- Digits without an exponent, the point `point` places from the left. -/
def placePoint (style : Style) (digits : List Char) (point : Int) :
    List Char × Option (List Char) :=
  if point ≤ 0 then
    (['0'], some (List.replicate (-point).toNat '0' ++ digits))
  else if digits.length ≤ point.toNat then
    (digits ++ List.replicate (point.toNat - digits.length) '0',
      if style.pointZero then some ['0'] else none)
  else
    (digits.take point.toNat, some (digits.drop point.toNat))

/-- Digits with the point after the first of them, and the exponent that this calls for. -/
def scientific (digits : List Char) (point : Int) : Numeral :=
  { whole := digits.take 1
    fraction := if digits.length ≤ 1 then none else some (digits.drop 1)
    exponent := some (point - 1 < 0, Nat.toDigits 10 (point - 1).natAbs) }

/-- The numeral of a double in a style, with the fewest digits that lead back to it. -/
def Numeral.ofFloat (style : Style) (x : Float) : Numeral :=
  let d := (Binary.ofFloat x).shortest style.tie
  let negative := signBit x
  if d.digits = 0 then
    { negative, whole := ['0'], fraction := if style.pointZero then some ['0'] else none }
  else
    let digits := Nat.toDigits 10 d.digits
    let point := d.exponent + digits.length
    if style.positional (point - 1) then
      let (whole, fraction) := placePoint style digits point
      { negative, whole, fraction }
    else
      { scientific digits point with negative }

/-- Plain text: never an exponent, and a whole number has no point. Of two equally near decimals the
    larger is written. -/
def Style.plain : Style :=
  { tie := .up, positional := fun _ => true, pointZero := false }

/-- Numbers in JSON: positional from `10^-5` up to, and not with, `10^16`, and always
    recognisable as no integer. -/
def Style.json : Style :=
  { tie := .toEven, positional := fun e => -5 ≤ e && e < 16, pointZero := true }

/-- A double in plain text; the values that are no numbers have names. -/
def plainText (x : Float) : String :=
  if x.isNaN then "NaN"
  else if x.isInf then (if signBit x then "-inf" else "inf")
  else (Numeral.ofFloat .plain x).text

end Roster.Decimal
