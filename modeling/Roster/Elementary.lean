/-!
# Elementary functions

Distances and waits need a sine, a cosine, an arc sine and a logarithm, which the standard for
binary floating point leaves open in the last bit. They are therefore a parameter of whatever uses
them; `Elementary.platform` holds the functions of the machine.
-/

namespace Roster

/-- Functions of one double whose last bit may differ between machines. -/
structure Elementary where
  sin : Float → Float
  cos : Float → Float
  asin : Float → Float
  ln : Float → Float

/-- The functions as the machine computes them. -/
def Elementary.platform : Elementary where
  sin := Float.sin
  cos := Float.cos
  asin := Float.asin
  ln := Float.log

/-- The smaller of two doubles; one that is no number does not count. -/
def smaller (x y : Float) : Float :=
  if x.isNaN then y
  else if y.isNaN then x
  else if y < x then y else x

end Roster
