import Roster.Digest.Hmac
import Roster.Text.Base64Url
import Roster.Time.Instant

/-!
# Access tokens

A token binds a digest of an API key to a window of time and carries a tag under the signer's
secret. Nothing is stored: whether a token is valid follows from its text, the key and the clock.
Its form is `payload.tag`, both in base64, where the payload is `digest.start.end` with the bounds
of the window in milliseconds.
-/

namespace Roster

/-- Who signs tokens, and knows them again. -/
structure Signer where
  secret : List UInt8

namespace Token

/-- How a token stands to a time. -/
inductive Status where
  | valid
  | notYetValid
  | expired
  deriving DecidableEq, Repr

/-- Why a text is no token of this signer for this key. -/
inductive Fault where
  | malformed
  | badSignature
  | wrongKey
  deriving DecidableEq, Repr

/-- What is said about a token that is refused. -/
def Fault.message : Fault → String
  | .malformed => "malformed token"
  | .badSignature => "token signature does not verify"
  | .wrongKey => "token was issued for a different API key"

/-- What a token says: for which key it was issued, and when it counts. -/
structure Claims where
  digest : String
  /-- the first millisecond of the window -/
  start : Int
  /-- the first millisecond after the window -/
  stop : Int
  deriving DecidableEq, Repr

/-- The octets of a text. -/
def octets (text : String) : List UInt8 :=
  text.toUTF8.data.toList

/-- The part of an API key's digest that a token carries, twelve octets. -/
def keyDigest (apiKey : String) : String :=
  Base64Url.encode ((Sha256.digest (octets apiKey)).take 12)

/-- The payload of a token. -/
def Claims.render (c : Claims) : String :=
  c.digest ++ "." ++ (Decimal.Numeral.ofInt c.start).text ++ "." ++
    (Decimal.Numeral.ofInt c.stop).text

/-- An integer of 64 bits in decimal digits with an optional sign. -/
def readMillis (cs : List Char) : Option Int :=
  let (negative, ds) :=
    match cs with
    | '-' :: r => (true, r)
    | '+' :: r => (false, r)
    | r => (false, r)
  if ds.isEmpty || !ds.all Char.isDigit then none
  else
    let n : Int := Nat.ofDigitChars 10 ds 0
    let n := if negative then -n else n
    if -Nat.pow 2 63 ≤ n ∧ n < Nat.pow 2 63 then some n else none

/-- The claims that a payload makes. -/
def Claims.parse? (payload : List UInt8) : Option Claims := do
  let text ← String.fromUTF8? ⟨payload.toArray⟩
  match text.toList.splitOn '.' with
  | [digest, start, stop] =>
    pure { digest := .ofList digest, start := ← readMillis start, stop := ← readMillis stop }
  | _ => none

/-- How claims stand to a time, of which only whole milliseconds count. -/
def Claims.statusAt (c : Claims) (now : Instant) : Status :=
  if now.millis < c.start then .notYetValid
  else if c.stop ≤ now.millis then .expired
  else .valid

end Token

open Token

namespace Signer

/-- A payload with its tag. -/
def signed (s : Signer) (payload : List UInt8) : String :=
  Base64Url.encode payload ++ "." ++ Base64Url.encode (Hmac.tag s.secret payload)

/-- A token for an API key that is valid from one instant until just before another. -/
def mint (s : Signer) (apiKey : String) (start stop : Instant) : String :=
  s.signed (octets (Claims.render
    { digest := keyDigest apiKey, start := start.millis, stop := stop.millis }))

/-- The payload and the tag of a text, which stand before and after its first point. -/
def split? (token : String) : Option (List UInt8 × List UInt8) :=
  match token.toList.span (· ≠ '.') with
  | (payload, '.' :: tag) => do
    let payload ← Base64Url.decodeChars payload
    let tag ← Base64Url.decodeChars tag
    pure (payload, tag)
  | _ => none

/-- Judges a token for an API key at a time: first its form and its tag, then its claims, then its
    key, and last its window. -/
def verify (s : Signer) (token apiKey : String) (now : Instant) : Except Fault Status :=
  match split? token with
  | none => .error .malformed
  | some (payload, tag) =>
    if tag ≠ Hmac.tag s.secret payload then .error .badSignature
    else
      match Claims.parse? payload with
      | none => .error .malformed
      | some c => if c.digest ≠ keyDigest apiKey then .error .wrongKey else .ok (c.statusAt now)

/-- Whether a token was made for an API key and its window holds now. -/
def accepts (s : Signer) (token apiKey : String) (now : Instant) : Bool :=
  match s.verify token apiKey now with
  | .ok .valid => true
  | _ => false

end Signer

end Roster
