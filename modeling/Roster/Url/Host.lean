import Roster.Url.Form
import Roster.Url.Punycode

/-!
# Hosts

The host of an address: a domain, an IPv4 address in any of its spellings, an IPv6 address in
brackets, or, where the scheme knows no domains, a text of its own. Domains are brought to lower
case and to ASCII.
-/

namespace Roster.Url

/-- Why a text is no address. -/
inductive ParseError where
  | emptyHost
  | internationalName
  | port
  | ipv4
  | ipv6
  | domainCharacter
  | relative
  deriving DecidableEq, Repr

/-- What is said about a text that is no address. -/
def ParseError.message : ParseError → String
  | .emptyHost => "empty host"
  | .internationalName => "invalid international domain name"
  | .port => "invalid port number"
  | .ipv4 => "invalid IPv4 address"
  | .ipv6 => "invalid IPv6 address"
  | .domainCharacter => "invalid domain character"
  | .relative => "relative URL without a base"

/-! ## IPv4 -/

/-- The number that digits stand for in a base. -/
def digitsIn (base : Nat) (ds : List Char) : Option Nat :=
  ds.foldlM (fun n c => do
    let d ← hexDigit? c
    if d < base then some (n * base + d) else none) 0

/-- A part of an IPv4 address: hexadecimal after `0x`, octal after `0`, else decimal. -/
def ipv4Number : List Char → Option Nat
  | [] => none
  | '0' :: 'x' :: ds => digitsIn 16 ds
  | '0' :: 'X' :: ds => digitsIn 16 ds
  | ['0'] => some 0
  | '0' :: ds => digitsIn 8 ds
  | ds => digitsIn 10 ds

/-- The parts of a dotted text, without an empty last one. -/
def dottedParts (domain : List Char) : List (List Char) :=
  let parts := domain.splitOn '.'
  if parts.getLast? = some [] ∧ 1 < parts.length then parts.dropLast else parts

/-- Whether a domain has to be an IPv4 address, which its last part tells. -/
def endsInNumber (domain : List Char) : Bool :=
  match (dottedParts domain).getLast? with
  | none => false
  | some last => (!last.isEmpty && last.all Char.isDigit) || (ipv4Number last).isSome

/-- What the four octets of an IPv4 address count for in its number. -/
def octetWeights : List Nat := [16777216, 65536, 256, 1]

/-- The number of an IPv4 address. The last part fills all octets that the others leave. -/
def ipv4? (domain : List Char) : Option Nat := do
  let numbers ← (dottedParts domain).mapM ipv4Number
  let last ← numbers.getLast?
  let init := numbers.dropLast
  if 4 < numbers.length || init.any (255 < ·) || Nat.pow 256 (5 - numbers.length) ≤ last then none
  else
    some ((init.zip octetWeights).foldl (fun total (n, w) => total + n * w) last)

/-- An address of 32 bits in writing. -/
def ipv4Text (n : Nat) : String :=
  ".".intercalate (octetWeights.map fun w => toString (n / w % 256))

/-! ## IPv6 -/

/-- The number of up to four hexadecimal digits. -/
def ipv6Group (ds : List Char) : Option Nat :=
  if ds.isEmpty || 4 < ds.length then none else digitsIn 16 ds

/-- The number of up to three decimal digits, without zeros in front. -/
def plainOctet (ds : List Char) : Option Nat :=
  if ds.isEmpty || (1 < ds.length && ds.head? == some '0') || 3 < ds.length then none
  else (digitsIn 10 ds).filter (· < 256)

/-- Groups between colons; the last may be an IPv4 address, which is two groups. -/
def ipv6Groups (text : List Char) (last : Bool) : Option (List Nat) :=
  if text.isEmpty then some []
  else
    let parts := text.splitOn ':'
    let final := parts.getLastD []
    if last && '.' ∈ final then do
      let groups ← parts.dropLast.mapM ipv6Group
      match ← (final.splitOn '.').mapM plainOctet with
      | [a, b, c, d] => pure (groups ++ [a * 256 + b, c * 256 + d])
      | _ => none
    else parts.mapM ipv6Group

/-- The text before the first pair of colons, and the text after it. -/
def splitCompressed : List Char → Option (List Char × List Char)
  | ':' :: ':' :: rest => some ([], rest)
  | c :: rest => (splitCompressed rest).map fun (a, b) => (c :: a, b)
  | [] => none

/-- The eight groups of an address of 128 bits, some of which may be left out. -/
def ipv6? (text : List Char) : Option (List Nat) :=
  match splitCompressed text with
  | some (before, after) => do
    let a ← ipv6Groups before false
    let b ← ipv6Groups after true
    if a.length + b.length ≤ 7 then
      some (a ++ List.replicate (8 - a.length - b.length) 0 ++ b)
    else none
  | none => do
    let groups ← ipv6Groups text true
    if groups.length = 8 then some groups else none

/-- The number of groups at the start that are zero. -/
def leadingZeros (groups : List Nat) : Nat :=
  (groups.takeWhile (· = 0)).length

/-- The start and the length of the longest run of at least two zeros, the first of several. -/
def longestZeros (groups : List Nat) : Option (Nat × Nat) :=
  (List.range groups.length).foldl (fun best i =>
    let n := leadingZeros (groups.drop i)
    match best with
    | none => if 2 ≤ n then some (i, n) else none
    | some (_, m) => if m < n then some (i, n) else best) none

/-- An IPv6 address, the longest run of zero groups left out. -/
def ipv6Text (groups : List Nat) : String :=
  let hex (gs : List Nat) := ":".intercalate (gs.map fun g => String.ofList (Nat.toDigits 16 g))
  match longestZeros groups with
  | some (i, n) => hex (groups.take i) ++ "::" ++ hex (groups.drop (i + n))
  | none => hex groups

/-! ## Domains -/

/-- The characters that no domain may have. -/
def forbiddenInDomain (c : Char) : Bool :=
  c.toNat ≤ 32 || c.toNat = 127 ||
    c ∈ ['%', '#', '/', ':', '<', '>', '?', '@', '[', '\\', ']', '^', '|']

/-- The characters that are left out of a domain. -/
def ignoredInDomain (c : Char) : Bool :=
  c.toNat ∈ [0xAD, 0x200B, 0x2060, 0xFEFF]

/-- The small letter of a letter in the Latin, Greek, Cyrillic and full-width ranges; a full stop of
    another script is a point. -/
def foldInDomain (c : Char) : Char :=
  let n := c.toNat
  if n < 128 then c.toLower
  else if n ∈ [0x3002, 0xFF0E, 0xFF61] then '.'
  else if 0xFF01 ≤ n ∧ n ≤ 0xFF5E then (Char.ofNat (n - 0xFEE0)).toLower
  else if (0xC0 ≤ n ∧ n ≤ 0xDE ∧ n ≠ 0xD7) ∨ (0x391 ≤ n ∧ n ≤ 0x3A9) ∨ (0x410 ≤ n ∧ n ≤ 0x42F) then
    Char.ofNat (n + 32)
  else if 0x400 ≤ n ∧ n ≤ 0x40F then Char.ofNat (n + 80)
  else if ((0x100 ≤ n ∧ n ≤ 0x12F) ∨ (0x132 ≤ n ∧ n ≤ 0x137) ∨ (0x14A ≤ n ∧ n ≤ 0x177)) ∧
    n % 2 = 0 then
    Char.ofNat (n + 1)
  else if ((0x139 ≤ n ∧ n ≤ 0x148) ∨ (0x179 ≤ n ∧ n ≤ 0x17E)) ∧ n % 2 = 1 then Char.ofNat (n + 1)
  else c

/-- Characters that no domain may hold whatever the script. -/
def neverInDomain (c : Char) : Bool :=
  let n := c.toNat
  (0x80 ≤ n && n < 0xA0) || n = 0xFFFD || (0xE000 ≤ n && n < 0xF900) || (0xFDD0 ≤ n && n < 0xFDF0)

/-- A label in ASCII, marked if it had to be encoded. -/
def asciiLabel (label : List Char) : List Char :=
  if label.all fun c => c.toNat < 128 then label else "xn--".toList ++ punyEncode label

/-- A domain in ASCII. -/
def asciiDomain (domain : List Char) : Except ParseError (List Char) :=
  let folded := (domain.filter fun c => !ignoredInDomain c).map foldInDomain
  if folded.any fun c => forbiddenInDomain c || neverInDomain c then .error .internationalName
  else .ok (['.'].intercalate ((folded.splitOn '.').map asciiLabel))

/-! ## Hosts -/

/-- A host between brackets, which has to be an address of 128 bits. -/
def bracketed (text : List Char) : Except ParseError String :=
  if text.getLast? = some ']' then
    match ipv6? (text.drop 1).dropLast with
    | some groups => .ok ("[" ++ ipv6Text groups ++ "]")
    | none => .error .ipv6
  else .error .ipv6

/-- The host of a special scheme: a domain, or an address. -/
def domainHost (text : List Char) : Except ParseError String :=
  if text.head? = some '[' then bracketed text
  else do
    let domain ← asciiDomain (lossy (decodeOctets text))
    if domain.isEmpty then throw .emptyHost
    if endsInNumber domain then
      match ipv4? domain with
      | some n => pure (ipv4Text n)
      | none => throw .ipv4
    else pure (.ofList domain)

/-- The characters that no host may have. -/
def forbiddenInHost (c : Char) : Bool :=
  c.toNat = 0 ||
    c ∈ ['\t', '\n', '\r', ' ', '#', '/', ':', '<', '>', '?', '@', '[', '\\', ']', '^', '|']

/-- The host of another scheme, which is kept as it is. -/
def opaqueHost (text : List Char) : Except ParseError String :=
  if text.head? = some '[' then bracketed text
  else if text.any forbiddenInHost then .error .domainCharacter
  else .ok (.ofList (encodeWith inOpaque text))

end Roster.Url
