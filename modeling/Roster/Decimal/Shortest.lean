import Roster.Decimal.Binary

/-!
# The fewest digits that identify a double

A decimal *reads back* to a double when it lies among the reals that round to it: from half way to
the neighbour below to half way to the neighbour above, the ends included when the significand is
even. `shortest` looks at one digit, then two, and so on, and takes the first grid of decimals that
has such a number; of two candidates the nearer one, and of two equally near ones the one that the
`Tie` rule names.
-/

namespace Roster.Decimal

/-- A decimal number: digits times a power of ten. -/
structure Dec where
  digits : Nat
  exponent : Int
  deriving Repr, DecidableEq

/-- Which of two decimals is taken if both are equally near. -/
inductive Tie where
  /-- the one whose last digit is even -/
  | toEven
  /-- the larger one -/
  | up
  deriving Repr, DecidableEq

/-- Whether `d` lies among the reals that round to `x`. -/
def Binary.readsBack (x : Binary) (d : Dec) : Bool :=
  let low := if x.narrowBelow then 4 * x.m - 1 else 4 * x.m - 2
  let below := compareScaled d.digits d.exponent low (x.q - 2)
  let above := compareScaled d.digits d.exponent (4 * x.m + 2) (x.q - 2)
  let closed := x.m % 2 = 0
  (below == .gt || (closed && below == .eq)) && (above == .lt || (closed && above == .eq))

/-- The largest decimal with the given exponent that is not above `x`, as its digits. -/
def Binary.floorAt (x : Binary) (exponent : Int) : Nat :=
  (x.m * Nat.pow 2 x.q.toNat * Nat.pow 10 (-exponent).toNat) /
    (Nat.pow 2 (-x.q).toNat * Nat.pow 10 exponent.toNat)

/-- Steps up from `k` to a power of ten above `x`, at most `fuel` times. -/
def Binary.raiseScale (x : Binary) : Nat → Int → Int
  | 0, k => k
  | fuel + 1, k =>
    if compareScaled 1 k x.m x.q == .gt then k else raiseScale x fuel (k + 1)

/-- The least `k` with `x < 10^k`. The binary logarithm gives a value that is at most three too
    small. -/
def Binary.scale (x : Binary) : Int :=
  x.raiseScale 4 ((((Nat.log2 x.m : Int) + x.q) * 30103).fdiv 100000 - 1)

/-- Of the two neighbours of `x` on the grid with the given exponent, the one to write, if any reads
    back. -/
def Binary.onGrid (x : Binary) (tie : Tie) (exponent : Int) : Option Dec :=
  let low : Dec := ⟨x.floorAt exponent, exponent⟩
  let high : Dec := ⟨x.floorAt exponent + 1, exponent⟩
  match x.readsBack low, x.readsBack high with
  | false, false => none
  | true, false => some low
  | false, true => some high
  | true, true =>
    -- twice the value against the sum of the two candidates
    match compareScaled (low.digits + high.digits) exponent (2 * x.m) x.q with
    | .gt => some low
    | .lt => some high
    | .eq =>
      match tie with
      | .toEven => some (if low.digits % 2 = 0 then low else high)
      | .up => some high

/-- The first grid with a decimal that reads back, coarsest first. -/
def Binary.search (x : Binary) (tie : Tie) : Nat → Int → Option Dec
  | 0, _ => none
  | fuel + 1, exponent =>
    match x.onGrid tie exponent with
    | some d => some d
    | none => search x tie fuel (exponent - 1)

/-- Moves trailing zeros of the digits into the exponent, at most `fuel` of them. -/
def Dec.strip : Nat → Dec → Dec
  | 0, d => d
  | fuel + 1, d =>
    if d.digits ≠ 0 ∧ d.digits % 10 = 0 then strip fuel ⟨d.digits / 10, d.exponent + 1⟩ else d

/-- The exact decimal value of `x`, which always exists as a power of two divides a power of ten. -/
def Binary.exact (x : Binary) : Dec :=
  ⟨x.m * Nat.pow 2 x.q.toNat * Nat.pow 5 (-x.q).toNat, -((-x.q).toNat : Int)⟩

/-- The decimal with the fewest digits that reads back to `x`. Seventeen digits always do. -/
def Binary.shortest (x : Binary) (tie : Tie) : Dec :=
  if x.m = 0 then ⟨0, 0⟩
  else ((x.search tie 17 (x.scale - 1)).getD x.exact).strip 20

end Roster.Decimal
