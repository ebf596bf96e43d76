/-!
# Ticker

Ticks at equal distances, of which the first is due at once. Ticks that nobody could take in time
are left out: the next one is due at the next multiple of the distance. Only a tick that comes a
little late does not move the others. Times are in milliseconds.
-/

namespace Roster

/-- What ticks, and when it does next. -/
structure Ticker where
  period : Nat
  /-- when the next tick is due -/
  due : Nat
  deriving DecidableEq, Repr

namespace Ticker

/-- The first tick is due at once. -/
def start (period now : Nat) : Ticker :=
  { period, due := now }

/-- How many milliseconds a tick may be late without shifting the next one. -/
def tolerance : Nat := 5

/-- A tick is taken. -/
def take (t : Ticker) (now : Nat) : Ticker :=
  if now ≤ t.due + tolerance then { t with due := t.due + t.period }
  else { t with due := now + t.period - (now - t.due) % t.period }

end Ticker

end Roster
