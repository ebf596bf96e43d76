/-!
# Base64 for URLs

Octets as text over the letters, the digits, `-` and `_`, without padding. Reading is strict: a
group of one character is refused, and so is a last group whose unused bits are not zero, so that
each sequence of octets has exactly one text.
-/

namespace Roster.Base64Url

/-- The character for six bits. -/
def digit (n : Nat) : Char :=
  if n < 26 then Char.ofNat ('A'.toNat + n)
  else if n < 52 then Char.ofNat ('a'.toNat + (n - 26))
  else if n < 62 then Char.ofNat ('0'.toNat + (n - 52))
  else if n = 62 then '-'
  else '_'

/-- The six bits that a character stands for. -/
def value? (c : Char) : Option Nat :=
  if 'A' ≤ c ∧ c ≤ 'Z' then some (c.toNat - 'A'.toNat)
  else if 'a' ≤ c ∧ c ≤ 'z' then some (c.toNat - 'a'.toNat + 26)
  else if '0' ≤ c ∧ c ≤ '9' then some (c.toNat - '0'.toNat + 52)
  else if c = '-' then some 62
  else if c = '_' then some 63
  else none

/-- Three octets become four characters; one or two at the end become two or three. -/
def encodeChars : List UInt8 → List Char
  | a :: b :: c :: rest =>
    let n := (a.toNat * 256 + b.toNat) * 256 + c.toNat
    digit (n / 262144) :: digit (n / 4096 % 64) :: digit (n / 64 % 64) :: digit (n % 64) ::
      encodeChars rest
  | [a, b] =>
    let n := (a.toNat * 256 + b.toNat) * 4
    [digit (n / 4096), digit (n / 64 % 64), digit (n % 64)]
  | [a] =>
    let n := a.toNat * 16
    [digit (n / 64), digit (n % 64)]
  | [] => []

/-- The octets of a text, four characters at a time. Bits that are left over have to be zero. -/
def decodeChars : List Char → Option (List UInt8)
  | a :: b :: c :: d :: rest => do
    let a ← value? a
    let b ← value? b
    let c ← value? c
    let d ← value? d
    let n := ((a * 64 + b) * 64 + c) * 64 + d
    let rest ← decodeChars rest
    pure ((n / 65536).toUInt8 :: (n / 256 % 256).toUInt8 :: (n % 256).toUInt8 :: rest)
  | [a, b, c] => do
    let a ← value? a
    let b ← value? b
    let c ← value? c
    let n := (a * 64 + b) * 64 + c
    if n % 4 = 0 then pure [(n / 1024).toUInt8, (n / 4 % 256).toUInt8] else none
  | [a, b] => do
    let a ← value? a
    let b ← value? b
    let n := a * 64 + b
    if n % 16 = 0 then pure [(n / 16).toUInt8] else none
  | [_] => none
  | [] => some []

/-- Octets in writing. -/
def encode (octets : List UInt8) : String :=
  String.ofList (encodeChars octets)

/-- The octets that a text stands for. -/
def decode? (text : String) : Option (List UInt8) :=
  decodeChars text.toList

end Roster.Base64Url
