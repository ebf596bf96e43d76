/-!
# Binary64 values as integers times powers of two

A finite double is `m · 2^q`. Everything that prints a double exactly starts from this reading of
its bits, so nothing downstream depends on a rounded intermediate result.
-/

namespace Roster.Decimal

/-- The magnitude of a finite double. -/
structure Binary where
  /-- the significand, hidden bit included -/
  m : Nat
  /-- the power of two -/
  q : Int
  /-- whether the neighbour below is only half as far away as the neighbour above, which is so at
      the powers of two -/
  narrowBelow : Bool
  deriving Repr, DecidableEq

/-- The double has a minus sign, which a zero may have too. -/
def signBit (x : Float) : Bool :=
  x.toBits >>> 63 == 1

/-- The magnitude of a finite double; the bits of an infinity or of a NaN are read as if the largest
    exponent were an ordinary one, so ask `Float.isFinite` first. -/
def Binary.ofFloat (x : Float) : Binary :=
  let bits := x.toBits
  let exponent := ((bits >>> 52) &&& 0x7FF).toNat
  let fraction := (bits &&& 0xFFFFFFFFFFFFF).toNat
  if exponent = 0 then
    { m := fraction, q := -1074, narrowBelow := false }
  else
    { m := Nat.pow 2 52 + fraction, q := exponent - 1075,
      narrowBelow := fraction = 0 && 1 < exponent }

/-- Compares `a · 10^i` with `n · 2^j` without rounding. -/
def compareScaled (a : Nat) (i : Int) (n : Nat) (j : Int) : Ordering :=
  compare (a * Nat.pow 10 i.toNat * Nat.pow 2 (-j).toNat)
    (n * Nat.pow 2 j.toNat * Nat.pow 10 (-i).toNat)

end Roster.Decimal
