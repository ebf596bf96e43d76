import Roster.Time.Calendar
import Roster.Time.Duration

/-!
# Instants

A point of time, in nanoseconds since the start of 1970 without leap seconds. Instants can be told
apart up to the end of the year 262142; adding a duration never goes beyond `Instant.last`.
-/

namespace Roster

/-- A point in time, in nanoseconds after 1970 began. -/
structure Instant where
  nanos : Int
  deriving DecidableEq, Repr

namespace Instant

/-- The last instant, one nanosecond before the year 262143. -/
def last : Instant :=
  ⟨8210266876800 * nanosPerSecond - 1⟩

/-- The longest step that is added in one piece, `2^63 - 1` milliseconds. -/
def longestStep : Nat := (Nat.pow 2 63 - 1) * 1000000

/-- The instant after a duration, or the last one where the calendar ends. -/
def saturatingAdd (t : Instant) (d : Duration) : Instant :=
  if longestStep < d.nanos then last
  else if last.nanos < t.nanos + d.nanos then last
  else ⟨t.nanos + d.nanos⟩

/-- The whole milliseconds since 1970, rounded down. -/
def millis (t : Instant) : Int :=
  t.nanos.fdiv 1000000

/-- The whole seconds since 1970, rounded down. -/
def seconds (t : Instant) : Int :=
  t.nanos.fdiv nanosPerSecond

/-- A year in four digits; one that does not fit them has a sign. -/
def yearText (year : Int) : String :=
  let digits := String.ofList (Duration.paddedDigits 4 year.natAbs)
  if year < 0 then "-" ++ digits
  else if 9999 < year then "+" ++ digits
  else digits

/-- The fraction of a second in the fewest of 0, 3, 6 and 9 digits that lose nothing. -/
def fractionText (nanos : Nat) : String :=
  if nanos = 0 then ""
  else if nanos % 1000000 = 0 then "." ++ .ofList (Duration.paddedDigits 3 (nanos / 1000000))
  else if nanos % 1000 = 0 then "." ++ .ofList (Duration.paddedDigits 6 (nanos / 1000))
  else "." ++ .ofList (Duration.paddedDigits 9 nanos)

/-- A number in two digits. -/
def pair (n : Nat) : String :=
  .ofList (Duration.paddedDigits 2 n)

/-- Date and time of day in the zone of the prime meridian. -/
def text (t : Instant) : String :=
  let seconds := t.seconds
  let date := Date.ofDays (seconds.fdiv 86400)
  let ofDay := (seconds.fmod 86400).toNat
  yearText date.year ++ "-" ++ pair date.month ++ "-" ++ pair date.day ++ "T" ++
    pair (ofDay / 3600) ++ ":" ++ pair (ofDay / 60 % 60) ++ ":" ++ pair (ofDay % 60) ++
    fractionText (t.nanos.fmod nanosPerSecond).toNat ++ "Z"

end Instant

end Roster
