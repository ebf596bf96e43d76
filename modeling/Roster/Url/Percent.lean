/-!
# Percent encoding

A character that may not stand in a part of an address is written as its octets, each a percent sign
and two hexadecimal digits. Which characters those are depends on the part. Control characters and
characters beyond ASCII are always encoded.
-/

namespace Roster.Url

/-- An octet as a percent sign and two upper-case digits. -/
def percentOctet (octet : UInt8) : List Char :=
  ['%', (Nat.digitChar (octet.toNat / 16)).toUpper, (Nat.digitChar (octet.toNat % 16)).toUpper]

/-- The octets of a character. -/
def octetsOf (c : Char) : List UInt8 :=
  String.utf8EncodeChar c

/-- Whether a character is encoded wherever it stands. -/
def alwaysEncoded (c : Char) : Bool :=
  c.toNat < 32 || 126 < c.toNat

/-- Encodes the characters of a set and those that are always encoded. -/
def encodeWith (set : Char → Bool) (cs : List Char) : List Char :=
  cs.flatMap fun c =>
    if alwaysEncoded c || set c then (octetsOf c).flatMap percentOctet else [c]

/-- The characters that are encoded in an opaque part: no further ones. -/
def inOpaque (_ : Char) : Bool := false

/-- The characters that are encoded in a fragment, beside those that always are. -/
def inFragment (c : Char) : Bool :=
  c ∈ [' ', '"', '<', '>', (Char.ofNat 0x60)]

/-- The characters that are encoded in a path, beside those that always are. -/
def inPath (c : Char) : Bool :=
  inFragment c || c ∈ ['#', '?', '\x7b', '\x7d']

/-- The characters that are encoded in a path segment which is given as such. A segment of a special
    scheme may hold no backslash either. -/
def inSegment (special : Bool) (c : Char) : Bool :=
  inPath c || c ∈ ['/', '%'] || (special && c == '\\')

/-- The characters that are encoded in a user name or a password. -/
def inUserInfo (c : Char) : Bool :=
  inPath c || c ∈ ['/', ':', ';', '=', '@', '[', '\\', ']', '^', '|']

/-- The characters that are encoded in a query, beside those that always are. -/
def inQuery (special : Bool) (c : Char) : Bool :=
  c ∈ [' ', '"', '#', '<', '>'] || (special && c == '\'')

/-- The value of a hexadecimal digit. -/
def hexDigit? (c : Char) : Option Nat :=
  if '0' ≤ c ∧ c ≤ '9' then some (c.toNat - '0'.toNat)
  else if 'a' ≤ c ∧ c ≤ 'f' then some (c.toNat - 'a'.toNat + 10)
  else if 'A' ≤ c ∧ c ≤ 'F' then some (c.toNat - 'A'.toNat + 10)
  else none

/-- The octet of two hexadecimal digits. -/
def hexOctet? (a b : Char) : Option UInt8 := do
  let a ← hexDigit? a
  let b ← hexDigit? b
  pure (a * 16 + b).toUInt8

/-- The octets of a text in which percent signs with two digits stand for octets. A percent sign
    without two digits stands for itself. -/
def decodeOctets : List Char → List UInt8
  | '%' :: a :: b :: rest =>
    match hexOctet? a b with
    | some octet => octet :: decodeOctets rest
    | none => octetsOf '%' ++ decodeOctets (a :: b :: rest)
  | c :: rest => octetsOf c ++ decodeOctets rest
  | [] => []

end Roster.Url
