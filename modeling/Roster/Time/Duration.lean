import Roster.Decimal.Numeral

/-!
# Durations

A length of time in whole nanoseconds. Its seconds fit 64 bits, so there is a longest duration, and
what would be longer is that one.
-/

namespace Roster

def nanosPerSecond : Nat := 1000000000

/-- A length of time, of at most 64 bits in seconds. -/
structure Duration where
  nanos : Nat
  le_longest : nanos < UInt64.size * nanosPerSecond
  deriving DecidableEq

namespace Duration

/-- The longest duration. -/
def longest : Duration :=
  ⟨UInt64.size * nanosPerSecond - 1, by decide⟩

/-- The duration of so many nanoseconds, cut at the longest one. -/
def ofNanos (n : Nat) : Duration :=
  if h : n < UInt64.size * nanosPerSecond then ⟨n, h⟩ else longest

/-- No time at all. -/
def zero : Duration := ofNanos 0

/-- So many seconds, or the longest duration if that is shorter. -/
def ofSeconds (s : Nat) : Duration :=
  ofNanos (s * nanosPerSecond)

/-- So many milliseconds, or the longest duration if that is shorter. -/
def ofMillis (ms : Nat) : Duration :=
  ofNanos (ms * 1000000)

/-- The whole seconds. -/
def seconds (d : Duration) : Nat :=
  d.nanos / nanosPerSecond

/-- The nanoseconds beside the whole seconds. -/
def subsecond (d : Duration) : Nat :=
  d.nanos % nanosPerSecond

/-- `num / den` to the nearest integer, a half to the even one. -/
def roundHalfEven (num den : Nat) : Nat :=
  let q := num / den
  match compare (2 * (num % den)) den with
  | .lt => q
  | .gt => q + 1
  | .eq => if q % 2 = 0 then q else q + 1

/-- The nanoseconds of a finite number of seconds that is not negative, rounded to the nearest. -/
def nanosOf (x : Decimal.Binary) : Nat :=
  roundHalfEven (x.m * nanosPerSecond * Nat.pow 2 x.q.toNat) (Nat.pow 2 (-x.q).toNat)

/-- A number of seconds as a duration: what is negative or no number is zero, and what is too large
    is the longest duration. -/
def ofFloat (seconds : Float) : Duration :=
  if seconds > 0.0 then
    if seconds < 18446744073709551616.0 then ofNanos (nanosOf (.ofFloat seconds)) else longest
  else zero

/-! ## Text -/

/-- Decimal digits, with zeros in front up to a width. -/
def paddedDigits (width n : Nat) : List Char :=
  let ds := Nat.toDigits 10 n
  List.replicate (width - ds.length) '0' ++ ds

/-- A number and a fraction of it in `width` digits, without trailing zeros. -/
def withFraction (whole fraction width : Nat) : String :=
  let ds := ((paddedDigits width fraction).reverse.dropWhile (· == '0')).reverse
  String.ofList (Nat.toDigits 10 whole ++ if ds.isEmpty then [] else '.' :: ds)

/-- A duration in the largest unit of which it has at least one: seconds, milliseconds, microseconds
    or nanoseconds. -/
def text (d : Duration) : String :=
  if 1000000000 ≤ d.nanos then withFraction (d.nanos / 1000000000) (d.nanos % 1000000000) 9 ++ "s"
  else if 1000000 ≤ d.nanos then withFraction (d.nanos / 1000000) (d.nanos % 1000000) 6 ++ "ms"
  else if 1000 ≤ d.nanos then withFraction (d.nanos / 1000) (d.nanos % 1000) 3 ++ "µs"
  else withFraction d.nanos 0 0 ++ "ns"

end Duration

end Roster
