import Roster.Decimal.Numeral
import Roster.Decimal.Reader

/-!
# The number a numeral denotes

Numerals in data files are read with one rounded operation instead of exactly. The digits are
gathered into a 64-bit significand; a digit that would overflow it, and all after it, only count
towards the exponent, and the power of ten is then applied with one rounded multiplication or
division. The result can differ in its last bit from the nearest double. A numeral without a point
and without an exponent is an integer as long as it fits 64 bits.
-/

namespace Roster.Decimal

/-- What a numeral denotes. An integer that fits no 64-bit type is a double. -/
inductive Number where
  | natural (n : Nat)
  | negative (n : Int)
  | double (x : Float)
  deriving Repr

/-- Digits taken into a significand that must stay below `2^64`: the significand, the number of
    digits taken, and the digits left from the first one that does not fit. -/
def gather (significand taken : Nat) : List Char → Nat × Nat × List Char
  | [] => (significand, taken, [])
  | d :: rest =>
    let next := significand * 10 + (d.toNat - '0'.toNat)
    if next < UInt64.size then gather next (taken + 1) rest else (significand, taken, d :: rest)

/-- The powers of ten that are doubles, `10^0` to `10^308`. -/
def powerOfTen (e : Nat) : Float :=
  Float.ofScientific 1 false e

/-- `x · 10^exponent`, one rounding at a time; a value that is too large is no number. Below the
    smallest power of ten the division is repeated, and four divisions leave nothing of any
    double. -/
def applyExponent : Nat → Float → Int → Option Float
  | 0, x, _ => some x
  | fuel + 1, x, exponent =>
    if exponent.natAbs ≤ 308 then
      if 0 ≤ exponent then
        let y := x * powerOfTen exponent.natAbs
        if y.isInf then none else some y
      else some (x / powerOfTen exponent.natAbs)
    else if x == 0.0 then some x
    else if 0 ≤ exponent then none
    else applyExponent fuel (x / powerOfTen 308) (exponent + 308)

/-- The largest exponent that is told apart from larger ones. -/
def exponentLimit : Int := 2147483647

/-- A significand and its power of ten, together with the written exponent, as a double. -/
def scaled (significand : Nat) (exponent : Int) (written : Option (Bool × List Char)) :
    Option Float :=
  let x := significand.toUInt64.toFloat
  match written with
  | none => applyExponent 8 x exponent
  | some (negative, ds) =>
    let e : Int := natOfDigits ds
    if exponentLimit < e then
      if significand ≠ 0 && !negative then none else some 0.0
    else
      applyExponent 8 x (if negative then exponent - e else exponent + e)

/-- The number that a numeral denotes, unless it is too large for a double. -/
def Numeral.toNumber? (n : Numeral) : Option Number :=
  let signed (x : Float) : Number := .double (if n.negative then -x else x)
  let (whole, _, left) := gather 0 0 n.whole
  match n.fraction, n.exponent, left with
  | none, none, [] =>
    if !n.negative then some (.natural whole)
    else if whole = 0 || Nat.pow 2 63 < whole then some (signed whole.toUInt64.toFloat)
    else some (.negative (-whole))
  | _, _, _ =>
    let (significand, taken, _) := gather whole 0 (n.fraction.getD [])
    (scaled significand (left.length - taken) n.exponent).map signed

/-- An integer as a number that has been read. -/
def Number.ofInt (n : Int) : Number :=
  if 0 ≤ n then .natural n.toNat else .negative n

/-- A number as a double; an integer is rounded. -/
def Number.toFloat : Number → Float
  | .natural n => n.toUInt64.toFloat
  | .negative n => -n.natAbs.toUInt64.toFloat
  | .double x => x

/-- An integer as itself; a double is none, whatever its value. -/
def Number.toInt? : Number → Option Int
  | .natural n => some n
  | .negative n => some n
  | .double _ => none

end Roster.Decimal
