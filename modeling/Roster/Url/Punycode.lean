/-!
# International labels

A label of a domain that has characters beyond ASCII is written in ASCII: its plain characters
first, then, as numbers of variable length, where the others go.
-/

namespace Roster.Url

/-- The character of a digit in base 36. -/
def punyDigit (n : Nat) : Char :=
  if n < 26 then Char.ofNat ('a'.toNat + n) else Char.ofNat ('0'.toNat + (n - 26))

/-- Halves and scales a difference, so that the following numbers come out short. -/
def punyScale : Nat → Nat → Nat → Nat
  | 0, _, k => k
  | fuel + 1, delta, k => if 455 < delta then punyScale fuel (delta / 35) (k + 36) else
      k + 36 * delta / (delta + 38)

/-- The bias with which the next number is written. -/
def punyAdapt (delta points : Nat) (first : Bool) : Nat :=
  let delta := if first then delta / 700 else delta / 2
  punyScale 16 (delta + delta / points) 0

/-- The threshold of a place: a digit below it is the last one of its number. -/
def punyThreshold (k bias : Nat) : Nat :=
  if k ≤ bias then 1 else if bias + 26 ≤ k then 26 else k - bias

/-- A number in digits of varying weight. -/
def punyNumber : Nat → Nat → Nat → Nat → List Char
  | 0, _, _, _ => []
  | fuel + 1, q, k, bias =>
    let t := punyThreshold k bias
    if q < t then [punyDigit q]
    else punyDigit (t + (q - t) % (36 - t)) :: punyNumber fuel ((q - t) / (36 - t)) (k + 36) bias

/-- How far a label has been encoded. -/
structure PunyState where
  delta : Nat
  bias : Nat
  handled : Nat
  first : Bool
  output : List Char

/-- Passes one character of the label while the characters with code `n` are inserted. -/
def punyChar (n : Nat) (s : PunyState) (c : Char) : PunyState :=
  if c.toNat < n then { s with delta := s.delta + 1 }
  else if c.toNat = n then
    { delta := 0
      bias := punyAdapt s.delta (s.handled + 1) s.first
      handled := s.handled + 1
      first := false
      output := s.output ++ punyNumber 16 s.delta 36 s.bias }
  else s

/-- Inserts the characters with the given codes, in ascending order. -/
def punyCodes (label : List Char) : List Nat → Nat → PunyState → PunyState
  | [], _, s => s
  | n :: rest, previous, s =>
    let s := { s with delta := s.delta + (n - previous) * (s.handled + 1) }
    let s := label.foldl (punyChar n) s
    punyCodes label rest (n + 1) { s with delta := s.delta + 1 }

/-- The codes beyond ASCII in a label, ascending and without repetition. -/
def punyOrder (label : List Char) : List Nat :=
  (((label.map Char.toNat).filter (128 ≤ ·)).mergeSort (· ≤ ·)).eraseDups

/-- A label in ASCII, without the mark that shows it to be encoded. -/
def punyEncode (label : List Char) : List Char :=
  let plain := label.filter fun c => c.toNat < 128
  let start := if plain.isEmpty then [] else plain ++ ['-']
  start ++ (punyCodes label (punyOrder label) 128
    { delta := 0, bias := 72, handled := plain.length, first := true, output := [] }).output

end Roster.Url
