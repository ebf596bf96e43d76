import Roster.Json.Symbol
import Roster.Url.Percent

/-!
# Form encoding

The query of an address as a list of pairs: pairs are joined by `&`, a name and its value by `=`,
and a blank is a plus sign. Octets that are no text are read as replacement characters.
-/

namespace Roster.Url

/-- The characters that stand for themselves in a form. -/
def inForm (c : Char) : Bool :=
  c.isAlphanum || c ∈ ['*', '-', '.', '_']

/-- Characters as they stand in a form. -/
def formEncode (cs : List Char) : List Char :=
  cs.flatMap fun c =>
    if c = ' ' then ['+']
    else if inForm c then [c]
    else (octetsOf c).flatMap percentOctet

/-- A pair as it stands in a form. -/
def formPair (name value : String) : List Char :=
  formEncode name.toList ++ '=' :: formEncode value.toList

/-- The number of octets that a leading octet announces, itself included, and the bounds of
    the octet after it. -/
def sequenceOf (lead : UInt8) : Option (Nat × UInt8 × UInt8) :=
  if 0xC2 ≤ lead ∧ lead ≤ 0xDF then some (2, 0x80, 0xBF)
  else if lead = 0xE0 then some (3, 0xA0, 0xBF)
  else if lead = 0xED then some (3, 0x80, 0x9F)
  else if 0xE1 ≤ lead ∧ lead ≤ 0xEF then some (3, 0x80, 0xBF)
  else if lead = 0xF0 then some (4, 0x90, 0xBF)
  else if lead = 0xF4 then some (4, 0x80, 0x8F)
  else if 0xF1 ≤ lead ∧ lead ≤ 0xF3 then some (4, 0x80, 0xBF)
  else none

/-- The number of octets, at most `owed`, that may continue a character. -/
def continuation : Nat → UInt8 → UInt8 → List UInt8 → Nat
  | 0, _, _, _ => 0
  | _, _, _, [] => 0
  | owed + 1, low, high, octet :: rest =>
    if low ≤ octet ∧ octet ≤ high then continuation owed 0x80 0xBF rest + 1 else 0

/-- Octets as characters, where each longest start of a character that is not completed, and each
    octet with which none starts, becomes one replacement character. -/
def lossyFrom : Nat → List UInt8 → List Char
  | 0, _ => []
  | _, [] => []
  | fuel + 1, octet :: rest =>
    if octet < 0x80 then Char.ofNat octet.toNat :: lossyFrom fuel rest
    else
      match sequenceOf octet with
      | none => Char.ofNat 0xFFFD :: lossyFrom fuel rest
      | some (size, low, high) =>
        let found := continuation (size - 1) low high rest
        let c :=
          if found + 1 = size then Json.charOfPrefix (octet :: rest) size else none
        c.getD (Char.ofNat 0xFFFD) :: lossyFrom fuel (rest.drop found)

/-- The characters of octets. What is no character becomes a replacement. -/
def lossy (octets : List UInt8) : List Char :=
  lossyFrom octets.length octets

/-- The text that a part of a form stands for. -/
def formDecode (cs : List Char) : String :=
  .ofList (lossy (decodeOctets (cs.map fun c => if c = '+' then ' ' else c)))

/-- The pairs of a form in their order; empty parts are no pairs, and a part without `=` is a name
    without a value. -/
def formPairs (form : List Char) : List (String × String) :=
  ((form.splitOn '&').filter (· ≠ [])).map fun part =>
    let (name, rest) := part.span (· ≠ '=')
    (formDecode name, formDecode (rest.drop 1))

end Roster.Url
